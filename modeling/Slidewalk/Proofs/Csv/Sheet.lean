import Slidewalk.Proofs.Csv.Lines
import Slidewalk.Proofs.Importing
import Slidewalk.Proofs.Text.Numerals

/-!
# Sheets of edges

A sheet says how edges are laid out as lines of cells: in which order their values stand, what
other columns there are, and where there are blanks. None of this matters to an import, which finds
in each row the values of the edge that was written there.
-/

namespace Slidewalk

/-- The standard layout, which skips refused edges or does not. -/
def ImportLayout.skipping (skips : Bool) : ImportLayout := { standard with skipRejected := skips }

namespace RowField

/-- The column of a value in the standard layout. -/
def column : RowField → String
  | left => "left"
  | right => "right"
  | kind => "type"
  | time => "timestamp"

/-- A value of an edge in decimal digits. -/
def write (edge : Edge) : RowField → String
  | left => edge.left.toNat.repr
  | right => edge.right.toNat.repr
  | kind => edge.kind.toNat.repr
  | time => edge.time.toInt.repr

end RowField

/-- A text without commas, quotes and line ends. -/
structure PlainText where
  text : List Char
  plain : ∀ c ∈ text, Csv.IsPlain c

inductive Column where
  | value (field : RowField)
  /-- A column that no value is read from. -/
  | extra (name : PlainText)
      (other : ∀ field : RowField, Text.trim name.text ≠ field.column.toList)

/-- The spaces and other blanks in front of a name or a number, and behind it. -/
structure Margin where
  before : List Char
  after : List Char
  blank : ∀ c ∈ before ++ after, Text.isBlank c = true ∧ Csv.IsPlain c

def Margin.around (margin : Margin) (text : List Char) : List Char :=
  margin.before ++ (text ++ margin.after)

/-- How edges are laid out as text. Lines are numbered from the header on, whose number is zero. The
blanks, and the cells of extra columns, may differ from line to line. -/
structure Sheet where
  columns : List Column
  complete : ∀ field, .value field ∈ columns
  margin : Nat → Nat → Margin
  filler : Nat → Nat → PlainText
  ending : Nat → Csv.LineEnd
  /-- Whether the last line has its line end. -/
  closed : Bool

namespace Column

def heading (margin : Margin) : Column → List Char
  | value field => margin.around field.column.toList
  | extra name _ => name.text

def cell (edge : Edge) (margin : Margin) (filler : PlainText) : Column → List Char
  | value field => margin.around (field.write edge).toList
  | extra _ _ => filler.text

end Column

namespace Sheet

def header (sheet : Sheet) : List (List Char) :=
  sheet.columns.mapIdx fun position column => column.heading (sheet.margin 0 position)

def row (sheet : Sheet) (line : Nat) (edge : Edge) : List (List Char) :=
  sheet.columns.mapIdx fun position column =>
    column.cell edge (sheet.margin line position) (sheet.filler line position)

def lines (sheet : Sheet) (edges : List Edge) : List Csv.Line :=
  ⟨sheet.header, sheet.ending 0⟩ ::
    edges.mapIdx fun row edge => ⟨sheet.row (row + 1) edge, sheet.ending (row + 1)⟩

/-- The text of a sheet with these edges. -/
def render (sheet : Sheet) (edges : List Edge) : List UInt8 :=
  Csv.written sheet.closed (sheet.lines edges)

end Sheet

/-! ## Characters of names and numbers -/

/-- A letter, a digit or a minus sign. -/
def IsGraphic (c : Char) : Prop := c.isAlphanum = true ∨ c = '-'

theorem toNat_of_isAlphanum {c : Char} (h : c.isAlphanum = true) :
    0x20 < c.toNat ∧ c.toNat < 0x80 := by
  delta Char.isAlphanum Char.isAlpha Char.isUpper Char.isLower Char.isDigit at h
  simp only [Bool.or_eq_true, Bool.and_eq_true, decide_eq_true_eq, ge_iff_le,
    UInt32.le_iff_toNat_le] at h
  have hcode : c.toNat = c.val.toNat := rfl
  have hbounds : 'A'.val.toNat = 65 ∧ 'Z'.val.toNat = 90 ∧ 'a'.val.toNat = 97 ∧
      'z'.val.toNat = 122 ∧ '0'.val.toNat = 48 ∧ '9'.val.toNat = 57 := by decide
  omega

theorem IsGraphic.toNat {c : Char} (h : IsGraphic c) : 0x20 < c.toNat ∧ c.toNat < 0x80 := by
  rcases h with h | rfl
  · exact toNat_of_isAlphanum h
  · decide

theorem IsGraphic.not_blank {c : Char} (h : IsGraphic c) : Text.isBlank c = false := by
  have hcode := h.toNat
  simp only [Text.isBlank, Bool.or_eq_false_iff, Bool.and_eq_false_iff, decide_eq_false_iff_not,
    beq_eq_false_iff_ne]
  omega

theorem IsGraphic.isPlain {c : Char} (h : IsGraphic c) : Csv.IsPlain c := by
  refine ⟨h.toNat.2, fun hmem => ?_⟩
  simp only [List.mem_cons, List.not_mem_nil, or_false] at hmem
  rcases h with h | rfl
  · obtain rfl | rfl | rfl | rfl := hmem <;> contradiction
  · revert hmem
    decide

/-- A name or a number: a text without blanks. -/
structure IsWord (text : List Char) : Prop where
  ne_nil : text ≠ []
  graphic : ∀ c ∈ text, IsGraphic c

namespace IsWord

variable {text : List Char}

theorem isPlain_around (h : IsWord text) (margin : Margin) :
    ∀ c ∈ margin.around text, Csv.IsPlain c := by
  intro c hc
  rw [Margin.around, List.mem_append, List.mem_append] at hc
  obtain hbefore | htext | hafter := hc
  · exact (margin.blank c (List.mem_append_left _ hbefore)).2
  · exact (h.graphic c htext).isPlain
  · exact (margin.blank c (List.mem_append_right _ hafter)).2

theorem trim_around (h : IsWord text) (margin : Margin) : Text.trim (margin.around text) = text :=
  Text.trim_around (fun c hc => (margin.blank c (List.mem_append_left _ hc)).1)
    (fun c hc => (margin.blank c (List.mem_append_right _ hc)).1) h.ne_nil
    fun c hc => (h.graphic c hc).not_blank

theorem natRepr (n : Nat) : IsWord n.repr.toList := by
  rw [Nat.toList_repr]
  refine ⟨Nat.toDigits_ne_nil, fun c hc => .inl ?_⟩
  rw [Char.isAlphanum, Text.isDigit_of_mem_toDigits hc, Bool.or_true]

theorem intRepr (n : Int) : IsWord n.repr.toList := by
  cases n with
  | ofNat n => exact natRepr n
  | negSucc n =>
    rw [show (Int.negSucc n).repr = "-" ++ n.succ.repr from rfl, String.toList_append]
    refine ⟨List.cons_ne_nil _ _, fun c hc => ?_⟩
    rcases List.mem_append.mp hc with hminus | hdigits
    · exact .inr (List.mem_singleton.mp hminus)
    · exact (natRepr n.succ).graphic c hdigits

end IsWord

namespace RowField

theorem column_injective {field other : RowField} (h : field.column = other.column) :
    field = other := by
  cases field <;> cases other <;> first | rfl | exact absurd h (by decide)

theorem isWord_column (field : RowField) : IsWord field.column.toList := by
  have hletters : field.column.toList.all (·.isAlphanum) = true := by cases field <;> rfl
  refine ⟨?_, fun c hc => .inl (List.all_eq_true.mp hletters c hc)⟩
  cases field <;> decide

theorem isWord_write (edge : Edge) (field : RowField) : IsWord (field.write edge).toList := by
  cases field with
  | left | right | kind => exact .natRepr _
  | time => exact .intRepr _

end RowField

/-! ## Plain lines -/

namespace Column

variable (margin : Margin)

theorem isPlain_heading (column : Column) : ∀ c ∈ column.heading margin, Csv.IsPlain c := by
  cases column with
  | value field => exact field.isWord_column.isPlain_around margin
  | extra name other => exact name.plain

theorem isPlain_cell (edge : Edge) (filler : PlainText) (column : Column) :
    ∀ c ∈ column.cell edge margin filler, Csv.IsPlain c := by
  cases column with
  | value field => exact (field.isWord_write edge).isPlain_around margin
  | extra name other => exact filler.plain

theorem trim_heading (field : RowField) :
    Text.trim ((value field).heading margin) = field.column.toList :=
  field.isWord_column.trim_around margin

theorem trim_cell (edge : Edge) (filler : PlainText) (field : RowField) :
    Text.trim ((value field).cell edge margin filler) = (field.write edge).toList :=
  (field.isWord_write edge).trim_around margin

end Column

namespace Sheet

variable (sheet : Sheet)

theorem two_le_length : 2 ≤ sheet.columns.length := by
  have hleft := sheet.complete .left
  have hright := sheet.complete .right
  match hcolumns : sheet.columns with
  | [] =>
    rw [hcolumns] at hleft
    contradiction
  | [column] =>
    rw [hcolumns, List.mem_singleton] at hleft hright
    have hsame := Column.value.inj (hright.trans hleft.symm)
    contradiction
  | _ :: _ :: _ => exact Nat.le_add_left _ _

/-- A line with a cell for each column. -/
theorem isPlain_line {cell : Nat → Column → List Char}
    (hplain : ∀ position column, ∀ c ∈ cell position column, Csv.IsPlain c)
    (ending : Csv.LineEnd) : Csv.Line.IsPlain ⟨sheet.columns.mapIdx cell, ending⟩ where
  several := by
    rw [List.length_mapIdx]
    exact sheet.two_le_length
  plain text htext := by
    obtain ⟨position, hposition, rfl⟩ := List.mem_mapIdx.mp htext
    exact hplain position _

theorem isPlain_lines (edges : List Edge) : ∀ line ∈ sheet.lines edges, line.IsPlain := by
  intro line hline
  rcases List.mem_cons.mp hline with rfl | hrow
  · exact sheet.isPlain_line (fun _ column => column.isPlain_heading _) _
  · obtain ⟨row, hrow, rfl⟩ := List.mem_mapIdx.mp hrow
    exact sheet.isPlain_line (fun _ column => column.isPlain_cell _ _ _) _

/-! ## Values found -/

/-- A value is looked for in a column that holds it. -/
theorem exists_findColumn (field : RowField) :
    ∃ place, Import.findColumn sheet.header field.column = some place ∧
      sheet.columns[place]? = some (.value field) := by
  unfold Import.findColumn
  cases hfound : sheet.header.findIdx? fun name => Text.trim name == field.column.toList with
  | none =>
    obtain ⟨position, hposition, hcolumn⟩ := List.getElem_of_mem (sheet.complete field)
    have hheading : (Column.value field).heading (sheet.margin 0 position) ∈ sheet.header :=
      List.mem_mapIdx.mpr ⟨position, hposition, by rw [hcolumn]⟩
    have hnone := List.findIdx?_eq_none_iff.mp hfound _ hheading
    rw [Column.trim_heading, beq_self_eq_true] at hnone
    contradiction
  | some place =>
    obtain ⟨hplace, hname, -⟩ := List.findIdx?_eq_some_iff_getElem.mp hfound
    have hlength : place < sheet.columns.length := by
      rw [header, List.length_mapIdx] at hplace
      exact hplace
    refine ⟨place, rfl, ?_⟩
    simp only [header, List.getElem_mapIdx, beq_iff_eq] at hname
    rw [List.getElem?_eq_getElem hlength]
    -- an extra column has another name, and so has any other value
    cases hcolumn : sheet.columns[place] with
    | value other =>
      rw [hcolumn, Column.trim_heading, String.toList_inj] at hname
      rw [RowField.column_injective hname]
    | extra name hother =>
      rw [hcolumn] at hname
      exact absurd hname (hother field)

theorem value?_row {field : RowField} {place : Nat}
    (h : sheet.columns[place]? = some (.value field)) (line : Nat) (edge : Edge) :
    Import.value? (sheet.row line edge) (some place) = some (field.write edge).toList := by
  unfold Import.value? row
  rw [Option.bind_some, List.getElem?_mapIdx, h, Option.map_some, Option.map_some,
    Column.trim_cell, Option.filter_some, if_pos]
  rw [Bool.not_eq_true', List.isEmpty_eq_false_iff]
  exact (field.isWord_write edge).ne_nil

/-- In every row of a sheet the values of its edge are found. -/
theorem exists_columns (skips : Bool) :
    ∃ columns, Import.Columns.of (.skipping skips) sheet.header = .ok columns ∧
      ∀ line number edge,
        Import.Values (.skipping skips) columns number (sheet.row line edge) edge := by
  obtain ⟨left, hleft, hleftColumn⟩ := sheet.exists_findColumn .left
  obtain ⟨right, hright, hrightColumn⟩ := sheet.exists_findColumn .right
  obtain ⟨kind, hkind, hkindColumn⟩ := sheet.exists_findColumn .kind
  obtain ⟨time, htime, htimeColumn⟩ := sheet.exists_findColumn .time
  refine ⟨⟨left, right, some kind, some time⟩, ?_, fun line number edge => ?_⟩
  · have hrequireLeft : Import.requireColumn sheet.header "left" = .ok left := by
      rw [Import.requireColumn, show "left" = RowField.left.column from rfl, hleft]
    have hrequireRight : Import.requireColumn sheet.header "right" = .ok right := by
      rw [Import.requireColumn, show "right" = RowField.right.column from rfl, hright]
    unfold Import.Columns.of
    dsimp only [ImportLayout.skipping, ImportLayout.standard]
    rw [hrequireLeft, hrequireRight, Option.bind_some, Option.bind_some,
      show "type" = RowField.kind.column from rfl, show "timestamp" = RowField.time.column from rfl,
      hkind, htime]
    rfl
  · constructor
    · rw [sheet.value?_row hleftColumn]
      exact Text.readUInt64?_repr edge.left
    · rw [sheet.value?_row hrightColumn]
      exact Text.readUInt64?_repr edge.right
    · rw [sheet.value?_row hkindColumn]
      exact Text.readUInt8?_repr edge.kind
    · rw [sheet.value?_row htimeColumn]
      exact Text.readInt64?_repr edge.time

end Sheet

end Slidewalk
