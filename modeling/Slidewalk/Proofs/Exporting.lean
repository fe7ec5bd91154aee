import Slidewalk.Proofs.Csv.Sheet
import Slidewalk.Proofs.Renaming.Pairing
import Slidewalk.Proofs.Validation

/-!
# Importing undoes exporting

Edges that are laid out on a sheet are read back one by one. So importing the text of the sheet
comes to the same as adding the edges in order, up to the first one that ends the import.
-/

namespace Slidewalk

namespace Import

/-- The rows read as these edges, one by one. -/
structure ReadsBack (layout : ImportLayout) (columns : Columns) (rows : List Csv.Record)
    (edges : List Edge) : Prop where
  length : rows.length = edges.length
  reads : ∀ row record edge, rows[row]? = some record → edges[row]? = some edge →
    edgeOf layout columns row record = .ok edge

/-- Every refusal of these edges is one that is skipped. -/
def Skips (skips : Bool) (graph : Graph) (edges : List Edge) : Prop :=
  ∀ cause, .added (.error cause) ∈ (graph.run (edges.map .add)).2 →
    skips = true ∧ cause.isConfiguration = false

/-- What adding edges in order comes to, up to the first refusal that is not skipped. -/
inductive Replays (skips : Bool) (graph : Graph) (edges : List Edge) :
    Graph × Except ImportFault ImportSummary → Prop
  | completed (hskips : Skips skips graph edges) :
      Replays skips graph edges ((graph.run (edges.map .add)).1, .ok (summary graph edges))
  | stopped (front rest : List Edge) (edge : Edge) (cause : Fault)
      (hedges : edges = front ++ edge :: rest) (hskips : Skips skips graph front)
      (hrefuses : ((graph.run (front.map .add)).1.add edge).2 = .error cause)
      (hcause : skips = false ∨ cause.isConfiguration = true) :
      Replays skips graph edges
        (((graph.run (front.map .add)).1.add edge).1, .error (.refused front.length cause))

variable {layout : ImportLayout} {columns : Columns} {graph : Graph} {rows : List Csv.Record}
  {edges passed : List Edge}

/-- Edges of which the first one is refused are not gone through, unless it is skipped. -/
theorem Replays.of_refused {skips : Bool} {edge : Edge} {rest : List Edge} {cause : Fault}
    {result : Graph × Except ImportFault ImportSummary}
    (h : Replays skips graph (edge :: rest) result) (hrefuses : (graph.add edge).2 = .error cause)
    (hcause : skips = false ∨ cause.isConfiguration = true) :
    result.1 = (graph.add edge).1 ∧ result.2 = .error (.refused 0 cause) := by
  -- an import does not get through anything that begins with this edge
  have hends (more : List Edge) : ¬Skips skips graph (edge :: more) := by
    intro hskips
    have hfirst : .added (.error cause) ∈ (graph.run ((edge :: more).map .add)).2 := by
      rw [← hrefuses]
      exact List.mem_cons_self
    obtain ⟨hskip, hlocal⟩ := hskips cause hfirst
    rw [hskip, hlocal] at hcause
    exact hcause.elim (Bool.noConfusion ·) (Bool.noConfusion ·)
  cases h with
  | completed hskips => exact absurd hskips (hends rest)
  | stopped front more other fault hedges hskips hrefused hfault =>
    cases front with
    | cons first front =>
      obtain ⟨rfl, -⟩ := List.cons.inj hedges
      exact absurd hskips (hends front)
    | nil =>
      obtain ⟨rfl, -⟩ := List.cons.inj hedges
      obtain rfl := Except.error.inj (hrefused.symm.trans hrefuses)
      exact ⟨rfl, rfl⟩

/-- The edges that an import got through are the first ones. -/
theorem Passes.isPrefix (h : Passes layout columns graph rows passed)
    (hback : ReadsBack layout columns rows edges) : passed <+: edges := by
  rw [List.prefix_iff_getElem?]
  intro row hrow
  obtain ⟨record, hrecord, hreads⟩ := h.reads row _ (List.getElem?_eq_getElem hrow)
  have hlength : row < edges.length := by
    rw [← hback.length]
    exact (List.getElem?_eq_some_iff.mp hrecord).1
  have hedge := List.getElem?_eq_getElem hlength
  have hsame := (hback.reads row record _ hrecord hedge).symm.trans (edgeOf_eq_ok_iff.mpr hreads)
  rw [hedge, Except.ok.inj hsame]

/-- Rows that read as edges are imported as those edges are added. -/
theorem replays_of_readsBack (hback : ReadsBack layout columns rows edges)
    (hstart : ∀ row record, rows[row]? = some record → record.start.record = row + 1) :
    Replays layout.skipRejected graph edges
      (addRows layout columns graph { rows := 0, imported := 0, rejected := 0 } rows) := by
  have hnone : Passes layout columns graph rows [] := .nil
  obtain ⟨passed, hpasses, hstops⟩ := addRows_stops rows rfl hstart hnone
  have hstops : Stops layout columns graph rows passed
    (addRows layout columns graph { rows := 0, imported := 0, rejected := 0 } rows) := hstops
  obtain ⟨rest, rfl⟩ := hpasses.isPrefix hback
  -- the row behind the edges that were passed is that of the next edge
  have hnext (record : Csv.Record) (hrecord : rows[passed.length]? = some record) :
      ∃ edge more, rest = edge :: more ∧ ReadsAs layout columns passed.length record edge := by
    have hlong := (List.getElem?_eq_some_iff.mp hrecord).1
    rw [hback.length, List.length_append] at hlong
    cases rest with
    | nil => exact absurd hlong (Nat.lt_irrefl _)
    | cons edge more =>
      have hedge : (passed ++ edge :: more)[passed.length]? = some edge := by simp
      exact ⟨edge, more, rfl, edgeOf_eq_ok_iff.mp (hback.reads _ record edge hrecord hedge)⟩
  generalize addRows layout columns graph { rows := 0, imported := 0, rejected := 0 } rows = result
    at hstops ⊢
  cases hstops with
  | completed hrows =>
    have hrest : rest = [] := by
      rw [hback.length, List.length_append] at hrows
      exact List.length_eq_zero_iff.mp (by omega)
    rw [hrest, List.append_nil]
    exact .completed hpasses.skips
  | unread record fault hrecord hreads =>
    obtain ⟨edge, -, -, hedge⟩ := hnext record hrecord
    exact absurd hedge (hreads edge)
  | refused record edge cause hrecord hreads hrefuses hcause =>
    obtain ⟨other, more, hrest, hother⟩ := hnext record hrecord
    have hsame := (edgeOf_eq_ok_iff.mpr hother).symm.trans (edgeOf_eq_ok_iff.mpr hreads)
    obtain rfl := Except.ok.inj hsame
    exact .stopped passed more other cause (by rw [hrest]) hpasses.skips hrefuses hcause

end Import

open Import

namespace Sheet

variable (sheet : Sheet) (skips : Bool) (graph : Graph) (edges : List Edge)

/-- The edges on a sheet are read back as they were. -/
theorem exists_readsBack :
    ∃ header rows columns, Csv.records (sheet.render edges) = header :: rows ∧
      columnsOf (.skipping skips) (header :: rows) = .ok columns ∧
      ReadsBack (.skipping skips) columns rows edges := by
  obtain ⟨columns, hcolumns, hvalues⟩ := sheet.exists_columns skips
  obtain ⟨header, rows, hheader, hrows, hrecords⟩ :=
    List.forall₂_cons_right_iff.mp (Csv.texts_records sheet.closed (sheet.isPlain_lines edges))
  refine ⟨header, rows, columns, hrecords, ?_, ?_, fun row record edge hrecord hedge => ?_⟩
  · simp only [columnsOf, hheader, hcolumns]
  · rw [hrows.length_eq, List.length_mapIdx]
  · have hpair := rel_getElem?_of_forall₂ hrows row
    rw [hrecord, List.getElem?_mapIdx, hedge] at hpair
    cases hpair with
    | some htexts => exact edgeOf_eq_ok_iff.mpr ⟨_, htexts, hvalues (row + 1) row edge⟩

theorem replays_render : Replays skips graph edges
    (graph.importEdges (.skipping skips) (sheet.render edges)) := by
  obtain ⟨header, rows, columns, hrecords, hcolumns, hback⟩ := sheet.exists_readsBack skips edges
  have hstart (row : Nat) (record : Csv.Record) (hrecord : rows[row]? = some record) :
      record.start.record = row + 1 :=
    Csv.record_start (by rw [hrecords, List.getElem?_cons_succ, hrecord] :
      (Csv.records (sheet.render edges))[row + 1]? = some record)
  simp only [Graph.importEdges, hrecords, hcolumns]
  exact replays_of_readsBack hback hstart

/-- What becomes of edges that are exported to a text and imported from it. -/
structure RoundTrip (text : List UInt8) : Prop where
  readsBack : ∃ header rows columns, Csv.records text = header :: rows ∧
    columnsOf (.skipping skips) (header :: rows) = .ok columns ∧
    ReadsBack (.skipping skips) columns rows edges
  replays : Replays skips graph edges (graph.importEdges (.skipping skips) text)

/-- Importing undoes exporting: every edge of a sheet is read back as it was, and importing the
sheet comes to the same as adding them. -/
theorem import_undoes_export (sheet : Sheet) (skips : Bool) (graph : Graph) (edges : List Edge) :
    RoundTrip skips graph edges (sheet.render edges) :=
  ⟨sheet.exists_readsBack skips edges, sheet.replays_render skips graph edges⟩

/-- The four values, without blanks. -/
def sample : Sheet where
  columns := [.value .left, .value .right, .value .kind, .value .time]
  complete field := by cases field <;> simp
  margin _ _ := ⟨[], [], fun _ hc => by contradiction⟩
  filler _ _ := ⟨[], fun _ hc => by contradiction⟩
  ending _ := .lineFeed
  closed := true

def sampleEdges : List Edge := [⟨1, 2, 0, 1⟩, ⟨3, 4, 0, 2⟩]

example : sample.render sampleEdges =
    Csv.encode "left,right,type,timestamp\n1,2,0,1\n3,4,0,2\n".toList := by decide

/-- Skipping refusals does not take an import through edges that are refused for the configuration:
it ends at the first of them, though both would be refused. -/
theorem exceeding_sample_not_skipped :
    ∃ graph, Graph.create Graph.exceedingSample = .ok graph ∧
      summary graph sampleEdges = { rows := 2, imported := 0, rejected := 2 } ∧
      (graph.importEdges (.skipping true) (sample.render sampleEdges)).2 =
        .error (.refused 0 (.configuration (.nodeBound 4294967296))) ∧
      (graph.importEdges (.skipping true) (sample.render sampleEdges)).2 ≠
        .ok (summary graph sampleEdges) := by
  have hfails (id : Nat) : Segment.create id Graph.exceedingSample =
      .error (.configuration (.nodeBound 4294967296)) := rfl
  have hnone : ¬∃ segment, Segment.create 0 Graph.exceedingSample = .ok segment := by
    rintro ⟨segment, hsegment⟩
    rw [hfails] at hsegment
    contradiction
  obtain ⟨graph, hcreate⟩ : ∃ graph, Graph.create Graph.exceedingSample = .ok graph := ⟨_, rfl⟩
  have hadd (operations : List Operation) (edge : Edge) :=
    (Graph.run_barren hcreate hnone operations).add_eq hfails edge
  obtain ⟨-, hanswer⟩ :=
    (sample.replays_render true graph sampleEdges).of_refused (hadd [] _) (.inr rfl)
  have hone : summary graph ([] ++ [⟨1, 2, 0, 1⟩]) = { rows := 1, imported := 0, rejected := 1 } :=
    summary_snoc_of_error (hadd [] _)
  have htwo : summary graph ([⟨1, 2, 0, 1⟩] ++ [⟨3, 4, 0, 2⟩]) =
      { summary graph [⟨1, 2, 0, 1⟩] with
        rows := 2, rejected := (summary graph [⟨1, 2, 0, 1⟩]).rejected + 1 } :=
    summary_snoc_of_error (hadd [.add ⟨1, 2, 0, 1⟩] _)
  rw [List.nil_append] at hone
  rw [hone] at htwo
  refine ⟨graph, hcreate, htwo, hanswer, fun hclaimed => ?_⟩
  rw [hanswer] at hclaimed
  cases hclaimed

end Sheet

end Slidewalk
