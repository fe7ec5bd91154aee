import Slidewalk.Import
import Slidewalk.Proofs.Outline
import Slidewalk.Proofs.Sample

/-!
# An import adds row after row

Importing a text comes to the same as adding the edges of its rows in order, up to the first row
that has no edge, or whose edge is refused for a reason that is not skipped. The summary counts what
the graph answered, and a fault names the row where the import ended.
-/

namespace Slidewalk

/-! ## Positions of records -/

namespace Csv

/-- Records are numbered in order. -/
theorem Progress.record_start (progress : Progress) (bytes : List UInt8) (place : Nat) :
    ∀ record, (progress.run bytes)[place]? = some record →
      record.start.record = progress.start.record + place := by
  induction bytes generalizing progress place with
  | nil =>
    intro record hrecord
    rw [run_nil] at hrecord
    split at hrecord
    · obtain ⟨rfl, rfl⟩ : place = 0 ∧ progress.record = record := by
        cases place with
        | zero => exact ⟨rfl, Option.some.inj hrecord⟩
        | succ place => contradiction
      rfl
    · contradiction
  | cons byte rest ih =>
    intro record hrecord
    rw [run] at hrecord
    generalize progress.phase.step byte = stepped at hrecord
    obtain ⟨phase, action⟩ := stepped
    cases action
    case endRecord =>
      cases place with
      | zero =>
        obtain rfl := Option.some.inj hrecord
        rfl
      | succ place =>
        have hstart := ih _ place record hrecord
        rw [hstart]
        simp only [next, pass]
        omega
    all_goals
      -- only the end of a record starts the next one
      have hstart := ih _ place record hrecord
      exact hstart

theorem record_start {bytes : List UInt8} {place : Nat} {record : Record}
    (h : (records bytes)[place]? = some record) : record.start.record = place := by
  unfold records at h
  split at h
  · exact (Progress.record_start _ _ _ _ h).trans (Nat.zero_add _)
  · exact (Progress.record_start _ _ _ _ h).trans (Nat.zero_add _)

theorem start_of_garbled {start : Position} {field : Nat} {fields : List (List UInt8)}
    {cause : Garbled} (h : decodeFields start field fields = .error cause) :
    cause.start = start := by
  induction fields generalizing field with
  | nil => contradiction
  | cons bytes rest ih =>
    unfold decodeFields at h
    split at h
    · obtain rfl := Except.error.inj h
      rfl
    · split at h
      · rename_i hrest
        obtain rfl := Except.error.inj h
        exact ih hrest
      · contradiction

end Csv

/-! ## What a row says -/

def BeginsWith (text lead : String) : Prop :=
  ∃ rest, text = lead ++ rest

theorem beginsWith_append (lead rest : String) : BeginsWith (lead ++ rest) lead :=
  ⟨rest, rfl⟩

theorem BeginsWith.append {text lead : String} (h : BeginsWith text lead) (more : String) :
    BeginsWith (text ++ more) lead := by
  obtain ⟨rest, rfl⟩ := h
  exact ⟨rest ++ more, String.append_assoc⟩

theorem BeginsWith.isPrefix {text lead : String} (h : BeginsWith text lead) :
    lead.toList <+: text.toList := by
  obtain ⟨rest, rfl⟩ := h
  rw [String.toList_append]
  exact List.prefix_append _ _

/-- The text of a fault says in which row the import ended. Rows that are no text are named by the
reader of records, who counts the header as well. -/
def ImportFault.Names (row : Nat) (fault : ImportFault) : Prop :=
  if fault.isUnreadable then
    BeginsWith fault.message s!"CSV parse error: record {row + 1} (line "
  else BeginsWith fault.message s!"row {row}: "

namespace Import

/-- The values in the columns of a row are those of an edge. Without a value, the type is the given
one, and the time is the number of the row. -/
structure Values (layout : ImportLayout) (columns : Columns) (row : Nat)
    (texts : List (List Char)) (edge : Edge) : Prop where
  left : (value? texts columns.left).bind Text.readUInt64? = some edge.left
  right : (value? texts columns.right).bind Text.readUInt64? = some edge.right
  kind : (value? texts columns.kind).elim (some layout.defaultKind) Text.readUInt8? =
    some edge.kind
  time : (value? texts columns.time).elim (some (Int64.ofNat row)) Text.readInt64? =
    some edge.time

/-- A record is text, and reads as an edge. -/
def ReadsAs (layout : ImportLayout) (columns : Columns) (row : Nat) (record : Csv.Record)
    (edge : Edge) : Prop :=
  ∃ texts, record.texts = .ok texts ∧ Values layout columns row texts edge

variable {layout : ImportLayout} {columns : Columns} {row : Nat} {record : Csv.Record}
  {edge : Edge} {fault : ImportFault} {α : Type}

theorem read_eq_ok_iff {field : RowField} {reader : List Char → Option α} {text : List Char}
    {value : α} : read row field reader text = .ok value ↔ reader text = some value := by
  unfold read
  cases reader text <;> simp

theorem require_eq_ok_iff {field : RowField} {reader : List Char → Option α}
    {text : Option (List Char)} {value : α} :
    require row field reader text = .ok value ↔ text.bind reader = some value := by
  cases text with
  | none => simp [require]
  | some text => exact read_eq_ok_iff

theorem readOr_eq_ok_iff {standard : α} {field : RowField} {reader : List Char → Option α}
    {text : Option (List Char)} {value : α} :
    readOr standard row field reader text = .ok value ↔
      text.elim (some standard) reader = some value := by
  cases text with
  | none => simp [readOr]
  | some text => exact read_eq_ok_iff

theorem bind_eq_ok_iff {ε β : Type} {first : Except ε α} {next : α → Except ε β} {value : β} :
    first >>= next = .ok value ↔ ∃ item, first = .ok item ∧ next item = .ok value := by
  cases first <;> simp [bind, Except.bind]

theorem edge_eq_ok_iff {texts : List (List Char)} :
    Import.edge layout columns row texts = .ok edge ↔ Values layout columns row texts edge := by
  unfold Import.edge
  simp only [bind_eq_ok_iff, require_eq_ok_iff, readOr_eq_ok_iff]
  constructor
  · rintro ⟨left, hleft, right, hright, kind, hkind, time, htime, hedge⟩
    obtain rfl := Except.ok.inj hedge
    exact ⟨hleft, hright, hkind, htime⟩
  · exact fun h => ⟨_, h.left, _, h.right, _, h.kind, _, h.time, rfl⟩

theorem edgeOf_eq_ok_iff :
    edgeOf layout columns row record = .ok edge ↔ ReadsAs layout columns row record edge := by
  unfold edgeOf ReadsAs
  cases record.texts with
  | error cause => simp
  | ok texts => simp [edge_eq_ok_iff]

/-! ## Faults -/

/-- A value is missing in a row, or does not read. -/
def LacksValue (row : Nat) (fault : ImportFault) : Prop :=
  ∃ field, fault = .missing row field ∨ ∃ text, fault = .malformed row field text

theorem lacksValue_of_read {field : RowField} {reader : List Char → Option α} {text : List Char}
    (h : read row field reader text = .error fault) : LacksValue row fault := by
  unfold read at h
  split at h
  · contradiction
  · exact ⟨field, .inr ⟨_, (Except.error.inj h).symm⟩⟩

theorem lacksValue_of_require {field : RowField} {reader : List Char → Option α}
    {text : Option (List Char)} (h : require row field reader text = .error fault) :
    LacksValue row fault := by
  cases text with
  | none => exact ⟨field, .inl (Except.error.inj h).symm⟩
  | some text => exact lacksValue_of_read h

theorem lacksValue_of_readOr {standard : α} {field : RowField} {reader : List Char → Option α}
    {text : Option (List Char)} (h : readOr standard row field reader text = .error fault) :
    LacksValue row fault := by
  cases text with
  | none => contradiction
  | some text => exact lacksValue_of_read h

theorem lacksValue_of_edge {texts : List (List Char)}
    (h : Import.edge layout columns row texts = .error fault) : LacksValue row fault := by
  unfold Import.edge at h
  rcases error_of_bind h with hleft | ⟨left, -, h⟩
  · exact lacksValue_of_require hleft
  rcases error_of_bind h with hright | ⟨right, -, h⟩
  · exact lacksValue_of_require hright
  rcases error_of_bind h with hkind | ⟨kind, -, h⟩
  · exact lacksValue_of_readOr hkind
  rcases error_of_bind h with htime | ⟨time, -, h⟩
  · exact lacksValue_of_readOr htime
  · contradiction

theorem LacksValue.names (h : LacksValue row fault) :
    fault.isUnreadable = false ∧ fault.Names row := by
  obtain ⟨field, rfl | ⟨text, rfl⟩⟩ := h
  · refine ⟨rfl, (if_neg Bool.false_ne_true).mpr ⟨s!"missing {field.label}", ?_⟩⟩
    simp only [ImportFault.message, String.append_assoc]
    rfl
  · refine ⟨rfl, (if_neg Bool.false_ne_true).mpr ⟨s!"invalid {field.label} '{text}'", ?_⟩⟩
    simp only [ImportFault.message, String.append_assoc]
    rfl

theorem names_refused (row : Nat) (cause : Fault) : (ImportFault.refused row cause).Names row :=
  (if_neg Bool.false_ne_true).mpr (beginsWith_append _ _)

theorem names_unreadable {cause : Csv.Garbled} (hstart : cause.start.record = row + 1) :
    (ImportFault.unreadable cause).Names row := by
  refine (if_pos rfl).mpr ?_
  rw [← hstart]
  exact (beginsWith_append _ _).append _ |>.append _ |>.append _ |>.append _ |>.append _

/-- A record without an edge ends an import with a fault that names it. -/
theorem names_of_edgeOf (hstart : record.start.record = row + 1)
    (h : edgeOf layout columns row record = .error fault) :
    fault.Names row ∧ (fault.isUnreadable = true ↔ ∀ texts, record.texts ≠ .ok texts) := by
  unfold edgeOf at h
  split at h
  · rename_i cause hcause
    obtain rfl := Except.error.inj h
    refine ⟨names_unreadable ((congrArg Csv.Position.record (Csv.start_of_garbled hcause)).trans
      hstart), ?_⟩
    simp [ImportFault.isUnreadable, hcause]
  · rename_i texts htexts
    obtain ⟨hreadable, hnames⟩ := (lacksValue_of_edge h).names
    refine ⟨hnames, ?_⟩
    simp [hreadable, htexts]

/-! ## Row after row -/

def summary (graph : Graph) (edges : List Edge) : ImportSummary where
  rows := edges.length
  imported := (graph.run (edges.map .add)).2.countP (·.takes)
  rejected := (graph.run (edges.map .add)).2.countP (·.refuses)

/-- The first rows read as these edges, and the graph takes them or refuses them for a reason that
is skipped. -/
structure Passes (layout : ImportLayout) (columns : Columns) (graph : Graph)
    (rows : List Csv.Record) (edges : List Edge) : Prop where
  reads : ∀ row edge, edges[row]? = some edge →
    ∃ record, rows[row]? = some record ∧ ReadsAs layout columns row record edge
  skips : ∀ cause, .added (.error cause) ∈ (graph.run (edges.map .add)).2 →
    layout.skipRejected = true ∧ cause.isConfiguration = false

/-- Where an import stops behind such edges: at the end of the rows, or at the next one. -/
inductive Stops (layout : ImportLayout) (columns : Columns) (graph : Graph)
    (rows : List Csv.Record) (edges : List Edge) :
    Graph × Except ImportFault ImportSummary → Prop
  | completed (hrows : edges.length = rows.length) :
      Stops layout columns graph rows edges
        ((graph.run (edges.map .add)).1, .ok (summary graph edges))
  | unread (record : Csv.Record) (fault : ImportFault)
      (hrecord : rows[edges.length]? = some record)
      (hreads : ∀ edge, ¬ReadsAs layout columns edges.length record edge)
      (hfault : fault.isUnreadable = true ↔ ∀ texts, record.texts ≠ .ok texts)
      (hnames : fault.Names edges.length) :
      Stops layout columns graph rows edges ((graph.run (edges.map .add)).1, .error fault)
  | refused (record : Csv.Record) (edge : Edge) (cause : Fault)
      (hrecord : rows[edges.length]? = some record)
      (hreads : ReadsAs layout columns edges.length record edge)
      (hrefuses : ((graph.run (edges.map .add)).1.add edge).2 = .error cause)
      (hcause : layout.skipRejected = false ∨ cause.isConfiguration = true) :
      Stops layout columns graph rows edges
        (((graph.run (edges.map .add)).1.add edge).1, .error (.refused edges.length cause))

variable {graph : Graph} {rows : List Csv.Record} {edges : List Edge}

theorem run_snoc (graph : Graph) (edges : List Edge) (edge : Edge) :
    (graph.run ((edges ++ [edge]).map .add)).1 =
      ((graph.run (edges.map .add)).1.add edge).1 := by
  rw [List.map_append, Graph.run_append]
  rfl

theorem answers_snoc (graph : Graph) (edges : List Edge) (edge : Edge) :
    (graph.run ((edges ++ [edge]).map .add)).2 =
      (graph.run (edges.map .add)).2 ++
        [.added ((graph.run (edges.map .add)).1.add edge).2] := by
  rw [List.map_append, Graph.answers_append]
  rfl

theorem summary_snoc_of_ok {edge : Edge}
    (h : ((graph.run (edges.map .add)).1.add edge).2 = .ok ()) :
    summary graph (edges ++ [edge]) =
      { summary graph edges with
        rows := edges.length + 1, imported := (summary graph edges).imported + 1 } := by
  simp only [summary, answers_snoc, h, List.countP_append, List.length_append]
  rfl

theorem summary_snoc_of_error {edge : Edge} {cause : Fault}
    (h : ((graph.run (edges.map .add)).1.add edge).2 = .error cause) :
    summary graph (edges ++ [edge]) =
      { summary graph edges with
        rows := edges.length + 1, rejected := (summary graph edges).rejected + 1 } := by
  simp only [summary, answers_snoc, h, List.countP_append, List.length_append]
  rfl

theorem Passes.nil : Passes layout columns graph rows [] :=
  ⟨fun _ _ h => by simp at h, fun _ h => by simp [Graph.run] at h⟩

theorem Passes.length_le (h : Passes layout columns graph rows edges) :
    edges.length ≤ rows.length := by
  refine Nat.le_of_not_lt fun hlong => ?_
  have hedge := List.getElem?_eq_getElem hlong
  obtain ⟨record, hrecord, -⟩ := h.reads _ _ hedge
  simp at hrecord

/-- An import that has got through some rows gets through the next one too. -/
theorem Passes.snoc (h : Passes layout columns graph rows edges) {edge : Edge}
    (hrecord : rows[edges.length]? = some record)
    (hreads : ReadsAs layout columns edges.length record edge)
    (hskips : ∀ cause, ((graph.run (edges.map .add)).1.add edge).2 = .error cause →
      layout.skipRejected = true ∧ cause.isConfiguration = false) :
    Passes layout columns graph rows (edges ++ [edge]) := by
  refine ⟨fun row other hrow => ?_, fun cause hcause => ?_⟩
  · rcases Nat.lt_or_ge row edges.length with hfront | hback
    · rw [List.getElem?_append_left hfront] at hrow
      exact h.reads row other hrow
    · obtain ⟨rfl, rfl⟩ : row = edges.length ∧ edge = other := by
        rw [List.getElem?_append_right hback, List.getElem?_singleton] at hrow
        split at hrow
        · exact ⟨by omega, Option.some.inj hrow⟩
        · contradiction
      exact ⟨record, hrecord, hreads⟩
  · rw [answers_snoc, List.mem_append, List.mem_singleton, Answer.added.injEq] at hcause
    rcases hcause with hfront | hlast
    · exact h.skips cause hfront
    · exact hskips cause hlast.symm

/-- At the next row an import stops, or gets through it and goes on behind it. -/
theorem addRows_step (h : Passes layout columns graph rows edges) (rest : List Csv.Record)
    (hrecord : rows[edges.length]? = some record)
    (hstart : record.start.record = edges.length + 1) :
    Stops layout columns graph rows edges
        (addRows layout columns (graph.run (edges.map .add)).1 (summary graph edges)
          (record :: rest)) ∨
      ∃ edge, Passes layout columns graph rows (edges ++ [edge]) ∧
        addRows layout columns (graph.run (edges.map .add)).1 (summary graph edges)
            (record :: rest) =
          addRows layout columns (graph.run ((edges ++ [edge]).map .add)).1
            (summary graph (edges ++ [edge])) rest := by
  rw [addRows]
  split
  · rename_i fault hfault
    obtain ⟨hnames, hunreadable⟩ := names_of_edgeOf hstart hfault
    refine .inl (.unread record fault hrecord (fun edge hreads => ?_) hunreadable hnames)
    rw [summary, edgeOf_eq_ok_iff.mpr hreads] at hfault
    contradiction
  · rename_i edge hedge
    have hreads : ReadsAs layout columns edges.length record edge := edgeOf_eq_ok_iff.mp hedge
    generalize hadd : (graph.run (edges.map .add)).1.add edge = added
    obtain ⟨next, answer⟩ := added
    have hanswer : ((graph.run (edges.map .add)).1.add edge).2 = answer := by rw [hadd]
    have hgraph : (graph.run ((edges ++ [edge]).map .add)).1 = next := by
      rw [run_snoc, hadd]
    cases answer with
    | ok done =>
      refine .inr ⟨edge, h.snoc hrecord hreads fun cause hcause => ?_, ?_⟩
      · rw [hanswer] at hcause
        contradiction
      · rw [hgraph, summary_snoc_of_ok hanswer]
        rfl
    | error cause =>
      dsimp only
      split
      · rename_i hskips
        refine .inr ⟨edge, h.snoc hrecord hreads fun other hother => ?_, ?_⟩
        · obtain rfl := Except.error.inj (hanswer.symm.trans hother)
          simpa [isSkipped] using hskips
        · rw [hgraph, summary_snoc_of_error hanswer]
          rfl
      · rename_i hstops
        have hcause : layout.skipRejected = false ∨ cause.isConfiguration = true := by
          rw [isSkipped, Bool.not_eq_true, Bool.and_eq_false_iff, Bool.not_eq_false'] at hstops
          exact hstops
        have hstopped := Stops.refused record edge cause hrecord hreads hanswer hcause
        rw [hadd] at hstopped
        exact .inl hstopped

/-- An import that has got through some rows goes on with the others. -/
theorem addRows_stops (rest : List Csv.Record) (hrest : rows.drop edges.length = rest)
    (hstart : ∀ row record, rows[row]? = some record → record.start.record = row + 1)
    (h : Passes layout columns graph rows edges) :
    ∃ passed, Passes layout columns graph rows passed ∧
      Stops layout columns graph rows passed
        (addRows layout columns (graph.run (edges.map .add)).1 (summary graph edges) rest) := by
  -- the rows that are left are those behind as many as there are edges
  induction rest generalizing edges with
  | nil =>
    have hlength := h.length_le
    rw [List.drop_eq_nil_iff] at hrest
    exact ⟨edges, h, .completed (by omega)⟩
  | cons record rest ih =>
    have hrecord : rows[edges.length]? = some record := by
      rw [← Nat.add_zero edges.length, ← List.getElem?_drop, hrest]
      rfl
    rcases addRows_step h rest hrecord (hstart _ _ hrecord) with hstops | ⟨edge, hpasses, hnext⟩
    · exact ⟨edges, h, hstops⟩
    · rw [hnext]
      refine ih ?_ hpasses
      rw [List.length_append, List.length_singleton, ← List.drop_drop, hrest]
      rfl

variable {result : Graph × Except ImportFault ImportSummary}

theorem Stops.names {fault : ImportFault}
    (h : Stops layout columns graph rows edges result) (hfault : result.2 = .error fault) :
    fault.Names edges.length := by
  cases h with
  | completed => contradiction
  | unread record fault _ _ _ hnames => exact Except.error.inj hfault ▸ hnames
  | refused record edge cause => exact Except.error.inj hfault ▸ names_refused _ cause

theorem Stops.summary {total : ImportSummary}
    (h : Stops layout columns graph rows edges result) (htotal : result.2 = .ok total) :
    edges.length = rows.length ∧ total = Import.summary graph edges := by
  cases h with
  | completed hrows => exact ⟨hrows, (Except.ok.inj htotal).symm⟩
  | unread => contradiction
  | refused => contradiction

theorem rejected_of_strict (h : Passes layout columns graph rows edges)
    (hstrict : layout.skipRejected = false) : (summary graph edges).rejected = 0 := by
  refine List.countP_eq_zero.mpr fun answer hanswer hrefuses => ?_
  unfold Answer.refuses at hrefuses
  split at hrefuses
  · rename_i cause
    have hskips := (h.skips cause hanswer).left
    rw [hstrict] at hskips
    contradiction
  · contradiction

/-- A header names a column. -/
def IsNamed (names : List (List Char)) (column : String) : Prop :=
  ∃ name ∈ names, Text.trim name = column.toList

theorem requireColumn_of_isNamed {names : List (List Char)} {column : String}
    (h : IsNamed names column) : ∃ position, requireColumn names column = .ok position := by
  unfold requireColumn findColumn
  obtain ⟨name, hmem, hname⟩ := h
  cases hfound : names.findIdx? fun field => Text.trim field == column.toList with
  | some position => exact ⟨position, rfl⟩
  | none =>
    have hnone := List.findIdx?_eq_none_iff.mp hfound name hmem
    simp [hname] at hnone

theorem columnsOf_of_isNamed {header : Csv.Record} {names : List (List Char)}
    (hnames : header.texts = .ok names) (hleft : IsNamed names layout.leftColumn)
    (hright : IsNamed names layout.rightColumn) (rows : List Csv.Record) :
    ∃ columns, Columns.of layout names = .ok columns ∧
      columnsOf layout (header :: rows) = .ok columns := by
  obtain ⟨left, hleft⟩ := requireColumn_of_isNamed hleft
  obtain ⟨right, hright⟩ := requireColumn_of_isNamed hright
  have hcolumns : ∃ columns, Columns.of layout names = .ok columns := by
    unfold Columns.of
    rw [hleft, hright]
    exact ⟨_, rfl⟩
  obtain ⟨columns, hcolumns⟩ := hcolumns
  refine ⟨columns, hcolumns, ?_⟩
  simp only [columnsOf, hnames, hcolumns]

/-- An import is the adding of some first rows, and what comes after them. -/
structure Folds (layout : ImportLayout) (columns : Columns) (graph : Graph)
    (rows : List Csv.Record) (edges : List Edge)
    (result : Graph × Except ImportFault ImportSummary) : Prop where
  passes : Passes layout columns graph rows edges
  stops : Stops layout columns graph rows edges result
  counts : ∀ total, result.2 = .ok total →
    total.rows = rows.length ∧ rows.length = total.imported + total.rejected ∧
      total.imported = (graph.run (edges.map .add)).2.countP (·.takes) ∧
      (layout.skipRejected = false → total.rejected = 0)
  names : ∀ fault, result.2 = .error fault → fault.Names edges.length

end Import

namespace Graph

open Import

/-- An import adds the edges of its rows in order. It gets through all of them and counts what the
graph answered, or stops at the first row that is no edge or is refused for a reason that is not
skipped, and names that row. -/
theorem import_folds_rows (graph : Graph) (layout : ImportLayout) (bytes : List UInt8)
    (header : Csv.Record) (rows : List Csv.Record) (names : List (List Char))
    (hrecords : Csv.records bytes = header :: rows) (hnames : header.texts = .ok names)
    (hleft : IsNamed names layout.leftColumn) (hright : IsNamed names layout.rightColumn) :
    ∃ columns, Columns.of layout names = .ok columns ∧
      ∃ edges, Folds layout columns graph rows edges (graph.importEdges layout bytes) := by
  obtain ⟨columns, hof, hcolumns⟩ := columnsOf_of_isNamed hnames hleft hright rows
  refine ⟨columns, hof, ?_⟩
  have hstart (row : Nat) (record : Csv.Record) (hrecord : rows[row]? = some record) :
      record.start.record = row + 1 :=
    Csv.record_start (by rw [hrecords, List.getElem?_cons_succ, hrecord] :
      (Csv.records bytes)[row + 1]? = some record)
  have himport : graph.importEdges layout bytes =
      addRows layout columns (graph.run ([].map .add)).1 (summary graph []) rows := by
    simp only [importEdges, hrecords, hcolumns]
    rfl
  have hnone : Passes layout columns graph rows [] := .nil
  obtain ⟨edges, hpasses, hstops⟩ := addRows_stops rows rfl hstart hnone
  rw [← himport] at hstops
  refine ⟨edges, hpasses, hstops, fun total htotal => ?_, fun fault => hstops.names⟩
  obtain ⟨hrows, rfl⟩ := hstops.summary htotal
  refine ⟨hrows, ?_, rfl, rejected_of_strict hpasses⟩
  rw [← hrows]
  exact (graph.countP_answers edges).symm

/-- The lines `right , left,type`, `4,1`, `5,1,9` and `6,2,1`. -/
def sampleText : List UInt8 :=
  [0x72, 0x69, 0x67, 0x68, 0x74, 0x20, 0x2c, 0x20, 0x6c, 0x65, 0x66, 0x74, 0x2c,
    0x74, 0x79, 0x70, 0x65, 0x0a, 0x34, 0x2c, 0x31, 0x0a, 0x35, 0x2c, 0x31, 0x2c, 0x39, 0x0a,
    0x36, 0x2c, 0x32, 0x2c, 0x31]

/-- Blanks in the header do not matter, and the second type takes too many bits. -/
theorem sample_import_folds_rows :
    ∃ columns, Columns.of .standard
        [['r', 'i', 'g', 'h', 't', ' '], [' ', 'l', 'e', 'f', 't'], ['t', 'y', 'p', 'e']] =
          .ok columns ∧
      ∃ edges, Folds .standard columns (sample .powerLaw true) ((Csv.records sampleText).drop 1)
        edges ((sample .powerLaw true).importEdges .standard sampleText) :=
  import_folds_rows (sample .powerLaw true) .standard sampleText _ _ _ rfl rfl
    ⟨_, .tail _ (.head _), by decide⟩ ⟨_, .head _, by decide⟩

/-- The lines `left,right` and `1,`, the second one with a byte that no text has. -/
def garbledText : List UInt8 :=
  [0x6c, 0x65, 0x66, 0x74, 0x2c, 0x72, 0x69, 0x67, 0x68, 0x74, 0x0a, 0x31, 0x2c, 0xff]

/-- The first row is not named by its number. -/
theorem garbled_row_named_with_header :
    ∃ fault, ((sample .powerLaw true).importEdges .standard garbledText).2 = .error fault ∧
      fault.message = "CSV parse error: record 1 (line 2, field: 1, byte: 11): invalid utf-8: " ++
        "invalid UTF-8 in field 1 near byte index 0" ∧
      ¬BeginsWith fault.message "row 0: " ∧
      ¬BeginsWith fault.message "CSV parse error: record 0 " := by
  refine ⟨.unreadable ⟨⟨1, 2, 11⟩, 1, 0⟩, rfl, by decide, ?_, ?_⟩
  · exact fun h => absurd h.isPrefix (by decide)
  · exact fun h => absurd h.isPrefix (by decide)

end Graph

end Slidewalk
