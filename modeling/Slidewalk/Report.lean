import Slidewalk.Import
import Slidewalk.Report.Json
import Slidewalk.Salsa.Recommend

/-!
# Reports

What the two tasks of the command line say about their result, for readers and as JSON.
-/

namespace Slidewalk

structure RecommendReport where
  query : NodeId
  summary : ImportSummary
  results : List Salsa.Recommendation

structure StatsReport where
  summary : ImportSummary
  stats : GraphStats

namespace Report

def lines (list : List String) : String := String.join (list.map (· ++ "\n"))

def summaryJson (summary : ImportSummary) : Json := .object [
  ("rows", .ofNat summary.rows),
  ("edges_imported", .ofNat summary.imported),
  ("edges_rejected", .ofNat summary.rejected)]

/-- A number filled up with blanks to three places. -/
def rankText (rank : Nat) : String :=
  let digits := Decimal.digitsText rank
  String.ofList (List.replicate (3 - digits.length) ' ') ++ digits

def typeText (kind : EdgeType) (seeds : List NodeId) : String :=
  s!"{kind.toNat}:[" ++ ",".intercalate (seeds.map fun seed => toString seed.toNat) ++ "]"

def proofText (proof : Salsa.SocialProof) : String :=
  " ".intercalate (proof.map fun (kind, seeds) => typeText kind seeds)

def resultText (rank : Nat) (result : Salsa.Recommendation) : String :=
  s!"  {rankText rank}. {result.node.toNat} score={Decimal.fixed 6 result.score} " ++
    s!"proof={proofText result.proof}"

def resultJson (result : Salsa.Recommendation) : Json := .object [
  ("node", .ofNat result.node.toNat),
  ("score", .number result.score),
  ("social_proof", .object (result.proof.map fun (kind, seeds) =>
    (toString kind.toNat, .list (seeds.map fun seed => .ofNat seed.toNat))))]

end Report

namespace RecommendReport

open Report

def text (report : RecommendReport) : String :=
  let loaded :=
    s!"Loaded {report.summary.imported} edges ({report.summary.rejected} rejected)"
  let query := report.query.toNat
  if report.results.isEmpty then lines [loaded, s!"No recommendations for {query}"]
  else
    lines (loaded :: s!"Recommendations for {query}:" ::
      report.results.zipIdx.map fun (result, position) => resultText (position + 1) result)

def json (report : RecommendReport) : Json := .object [
  ("query", .ofNat report.query.toNat),
  ("import", summaryJson report.summary),
  ("results", .list (report.results.map resultJson))]

end RecommendReport

namespace StatsReport

open Report

def timeText : Option (Time × Time) → String
  | none => "Time range: empty"
  | some (oldest, newest) => s!"Time range: {oldest.toInt}..={newest.toInt}"

def text (report : StatsReport) : String :=
  let { summary, stats } := report
  lines [
    s!"Import: rows={summary.rows} imported={summary.imported} rejected={summary.rejected}",
    s!"Segments: total={stats.segments} sealed={stats.sealedSegments} " ++
      s!"optimized={stats.optimizedSegments}",
    s!"Graph: edges={stats.edges} left_nodes={stats.leftNodes} right_nodes={stats.rightNodes}",
    timeText stats.timeRange,
    s!"Pools: reserved_entries={stats.pools.reserved} wasted_entries={stats.pools.wasted}"]

def json (report : StatsReport) : Json :=
  let { summary, stats } := report
  .object [
    ("import", summaryJson summary),
    ("segments", .ofNat stats.segments),
    ("sealed_segments", .ofNat stats.sealedSegments),
    ("optimized_segments", .ofNat stats.optimizedSegments),
    ("edges", .ofNat stats.edges),
    ("left_nodes", .ofNat stats.leftNodes),
    ("right_nodes", .ofNat stats.rightNodes),
    ("time_range", .ofOption (fun (oldest, newest) =>
      .list [.integer oldest.toInt, .integer newest.toInt]) stats.timeRange),
    ("reserved_entries", .ofNat stats.pools.reserved),
    ("wasted_entries", .ofNat stats.pools.wasted)]

end StatsReport

end Slidewalk
