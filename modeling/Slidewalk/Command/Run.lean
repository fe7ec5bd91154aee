import Slidewalk.Command.Arguments
import Slidewalk.Command.Files
import Slidewalk.Config
import Slidewalk.Report

/-!
# Running a command

First the configuration is read, then the edges, then the task is done. What goes wrong ends the
command with one line.
-/

namespace Slidewalk.Command

open Salsa (RequestDraft RequestFault Settings)

inductive CommandFault where
  | unreadConfig (path : String) (fault : ReadFault)
  | malformedConfig (path : String)
  | unusableLimits (fault : Fault)
  | unreadEdges (fault : ReadFault)
  | failedImport (fault : ImportFault)
  | failedRepack (fault : Fault)
  | seedId (text : String)
  | seedWeight (text : String)
  | refusedRequest (fault : RequestFault)
  deriving DecidableEq, Repr

namespace CommandFault

def message : CommandFault → String
  | unreadConfig path fault => s!"failed to read config {path}: {fault.message}"
  | malformedConfig path => s!"failed to parse config {path}"
  | unusableLimits fault => fault.message
  | unreadEdges fault => fault.message
  | failedImport fault => fault.message
  | failedRepack fault => fault.message
  | seedId text => s!"invalid seed id in '{text}'"
  | seedWeight text => s!"invalid seed weight in '{text}'"
  | refusedRequest fault => fault.message

end CommandFault

/-! ## Configuration and edges -/

def loadConfig (files : Files) : Option String → Except CommandFault Config
  | none => .ok .standard
  | some path =>
      match files.readText path with
      | .error fault => .error (.unreadConfig path fault)
      | .ok text =>
          match Config.read? text with
          | none => .error (.malformedConfig path)
          | some config => .ok config

/-- Repacks everything, the newest segment included. -/
def repackAll (graph : Graph) : Except CommandFault Graph :=
  let (graph, _) := graph.sealCurrent
  match graph.optimizeSealed with
  | (_, .error fault) => .error (.failedRepack fault)
  | (graph, .ok _) => .ok graph

def loadGraph (files : Files) (config : Config) (invocation : Invocation) :
    Except CommandFault (Graph × ImportSummary) :=
  match Graph.create (.ofLimits config.limits) with
  | .error fault => .error (.unusableLimits fault)
  | .ok graph =>
      match files invocation.edges with
      | .error fault => .error (.unreadEdges fault)
      | .ok bytes =>
          match graph.importEdges invocation.layout bytes with
          | (_, .error fault) => .error (.failedImport fault)
          | (graph, .ok summary) =>
              if invocation.optimize then
                (repackAll graph).map fun graph => (graph, summary)
              else .ok (graph, summary)

/-! ## Recommending -/

/-- Splits a seed at its first colon; without one its weight is one. -/
def splitSeed (text : List Char) : List Char × List Char :=
  match text.dropWhile (· != ':') with
  | [] => (text, ['1'])
  | _ :: weight => (text.takeWhile (· != ':'), weight)

/-- A seed is a node, or a node and a weight with a colon between them. -/
def readSeed (text : List Char) : Except CommandFault (NodeId × Binary64) :=
  let (id, weight) := splitSeed text
  match Text.readUInt64? (Text.trim id) with
  | none => .error (.seedId (String.ofList text))
  | some id =>
      match Decimal.read? (Text.trim weight) with
      | none => .error (.seedWeight (String.ofList text))
      | some weight => .ok (id, weight)

def addSeeds (draft : RequestDraft) : List (List Char) → Except CommandFault RequestDraft
  | [] => .ok draft
  | text :: rest =>
      match readSeed text with
      | .error fault => .error fault
      | .ok (id, weight) => addSeeds (draft.seed id weight) rest

/-- Settings with what was asked for in place of what they say. -/
def Wishes.over (wishes : Wishes) (settings : Settings) : Settings :=
  { settings with
    maxRandomWalkLength := wishes.walkLength.or settings.maxRandomWalkLength
    resetProbability := wishes.resetProbability.getD settings.resetProbability
    queryNodeWeightFraction := wishes.queryWeight.getD settings.queryNodeWeightFraction
    numRandomWalks := wishes.walks.getD settings.numRandomWalks
    maxNumResults := wishes.results.getD settings.maxNumResults
    socialProofTypeMask :=
      if wishes.proofTypes.isEmpty then settings.socialProofTypeMask else wishes.proofTypes
    walkMode := (wishes.sampled.map .sampled).getD settings.walkMode
    normalization := if wishes.cosine then .cosine else settings.normalization }

def buildRequest (settings : Settings) (query : NodeId) (wishes : Wishes) :
    Except CommandFault Salsa.Request :=
  match addSeeds ((wishes.over settings).request query) wishes.seeds with
  | .error fault => .error fault
  | .ok draft =>
      match (draft.exclude wishes.excluded).build with
      | .error fault => .error (.refusedRequest fault)
      | .ok request => .ok request

/-! ## Tasks -/

def write (format : Format) (text : String) (json : Report.Json) : String :=
  match format with
  | .text => text
  | .json => json.text ++ "\n"

def recommend (graph : Graph) (summary : ImportSummary) (settings : Settings) (query : NodeId)
    (wishes : Wishes) : Except CommandFault RecommendReport :=
  match buildRequest settings query wishes with
  | .error fault => .error fault
  | .ok request =>
      match Salsa.recommend request graph.view.adjacency with
      | .error fault => .error (.refusedRequest fault)
      | .ok results => .ok { query, summary, results }

def perform (files : Files) (invocation : Invocation) : Except CommandFault String :=
  match loadConfig files invocation.config with
  | .error fault => .error fault
  | .ok config =>
      match loadGraph files config invocation with
      | .error fault => .error fault
      | .ok (graph, summary) =>
          match invocation.task with
          | .recommend query wishes =>
              (recommend graph summary config.settings query wishes).map fun report =>
                write invocation.format report.text report.json
          | .stats =>
              let report : StatsReport := { summary, stats := graph.view.stats }
              .ok (write invocation.format report.text report.json)

def Invocation.paths (invocation : Invocation) : List String :=
  invocation.config.toList ++ [invocation.edges]

end Slidewalk.Command
