import Mathlib.Data.List.Forall2
import Slidewalk.Csv

/-!
# Lines of plain cells

Cells in which no comma, quote or line end comes up are written as they are, with a comma between
two of them. They are read back as they were, whichever line end stands behind each line.
-/

namespace Slidewalk.Csv

/-! ## What is written -/

/-- A character that needs no quotes around its cell. -/
structure IsPlain (c : Char) : Prop where
  ascii : c.toNat < 0x80
  literal : c ∉ [',', '"', '\n', '\r']

inductive LineEnd where
  | lineFeed
  | carriageReturn
  | both
  deriving DecidableEq, Repr

def LineEnd.bytes : LineEnd → List UInt8
  | lineFeed => [Csv.lineFeed]
  | carriageReturn => [Csv.carriageReturn]
  | both => [Csv.carriageReturn, Csv.lineFeed]

structure Line where
  cells : List (List Char)
  ending : LineEnd
  deriving DecidableEq, Repr

/-- A line of several cells, none of which needs quotes. -/
structure Line.IsPlain (line : Line) : Prop where
  several : 2 ≤ line.cells.length
  plain : ∀ cell ∈ line.cells, ∀ c ∈ cell, Csv.IsPlain c

def encode (text : List Char) : List UInt8 := text.flatMap String.utf8EncodeChar

def joined : List (List UInt8) → List UInt8
  | [] => []
  | [cell] => cell
  | cell :: rest => cell ++ comma :: joined rest

def Line.content (line : Line) : List UInt8 := joined (line.cells.map encode)

/-- One line after another. The last one has its line end only if the text is closed. -/
def written (closed : Bool) : List Line → List UInt8
  | [] => []
  | [line] => line.content ++ if closed then line.ending.bytes else []
  | line :: rest => line.content ++ (line.ending.bytes ++ written closed rest)

/-! ## Bytes of plain characters -/

/-- A byte that is no comma, quote or line end. -/
def IsLiteral (byte : UInt8) : Prop :=
  byte ∉ [comma, quote, lineFeed, carriageReturn]

variable {c : Char} {text : List Char} {cells : List (List Char)} {byte : UInt8}

theorem toNat_ofNat_toNat (h : c.toNat < 0x80) : (UInt8.ofNat c.toNat).toNat = c.toNat := by
  rw [UInt8.toNat_ofNat']
  omega

theorem utf8EncodeChar_of_ascii (h : c.toNat < 0x80) :
    String.utf8EncodeChar c = [UInt8.ofNat c.toNat] :=
  String.utf8EncodeChar_eq_singleton (Char.utf8Size_eq_one_iff.mpr (by
    rw [UInt32.le_iff_toNat_le]
    exact Nat.le_of_lt_succ h))

theorem encode_of_ascii (h : ∀ c ∈ text, c.toNat < 0x80) :
    encode text = text.map fun c => UInt8.ofNat c.toNat := by
  induction text with
  | nil => rfl
  | cons c rest ih =>
    have hrest := ih fun d hd => h d (List.mem_cons_of_mem c hd)
    rw [encode, List.flatMap_cons, utf8EncodeChar_of_ascii (h c List.mem_cons_self), ← encode,
      hrest]
    rfl

theorem decode_encode (h : ∀ c ∈ text, c.toNat < 0x80) (position : Nat) :
    Text.Utf8.decode position (encode text) = .ok text := by
  rw [encode_of_ascii h]
  induction text generalizing position with
  | nil => exact Text.Utf8.decode_nil position
  | cons c rest ih =>
    have hc := h c List.mem_cons_self
    have hbyte : UInt8.ofNat c.toNat < 0x80 := by
      rw [UInt8.lt_iff_toNat_lt, toNat_ofNat_toNat hc]
      exact hc
    rw [List.map_cons, Text.Utf8.decode_ascii position _ _ hbyte,
      ih (fun d hd => h d (List.mem_cons_of_mem c hd)), toNat_ofNat_toNat hc, Char.ofNat_toNat]
    rfl

theorem decodeFields_encode (h : ∀ cell ∈ cells, ∀ c ∈ cell, c.toNat < 0x80) (start : Position)
    (field : Nat) : decodeFields start field (cells.map encode) = .ok cells := by
  induction cells generalizing field with
  | nil => rfl
  | cons cell rest ih =>
    rw [List.map_cons, decodeFields, decode_encode (h cell List.mem_cons_self)]
    dsimp only
    rw [ih fun other hother => h other (List.mem_cons_of_mem cell hother)]

theorem exists_of_mem_encode (h : ∀ c ∈ text, IsPlain c) (hbyte : byte ∈ encode text) :
    ∃ c ∈ text, IsPlain c ∧ byte.toNat = c.toNat := by
  rw [encode_of_ascii fun c hc => (h c hc).ascii] at hbyte
  obtain ⟨c, hc, rfl⟩ := List.mem_map.mp hbyte
  exact ⟨c, hc, h c hc, toNat_ofNat_toNat (h c hc).ascii⟩

theorem isLiteral_of_mem_encode (h : ∀ c ∈ text, IsPlain c) (hbyte : byte ∈ encode text) :
    IsLiteral byte := by
  obtain ⟨c, -, hplain, hsame⟩ := exists_of_mem_encode h hbyte
  have hliteral := hplain.literal
  simp only [List.mem_cons, List.not_mem_nil, or_false, not_or, ← Char.toNat_inj] at hliteral
  unfold IsLiteral
  simp only [List.mem_cons, List.not_mem_nil, or_false, not_or, ← UInt8.toNat_inj, hsame]
  exact hliteral

/-! ## Cutting without positions -/

namespace Phase

/-- The fields of the records, whatever their positions. -/
def cut (phase : Phase) (fields : List (List UInt8)) (field : List UInt8) :
    List UInt8 → List (List (List UInt8))
  | [] => if phase.isInside then [(field.reverse :: fields).reverse] else []
  | byte :: rest =>
      match phase.step byte with
      | (phase, .skip) => cut phase fields field rest
      | (phase, .keep) => cut phase fields (byte :: field) rest
      | (phase, .endField) => cut phase (field.reverse :: fields) [] rest
      | (phase, .endRecord) => (field.reverse :: fields).reverse :: cut phase [] [] rest

def isQuoted : Phase → Bool
  | inQuotes | afterQuote => true
  | _ => false

variable {phase : Phase} {fields : List (List UInt8)} {field cell last rest : List UInt8}

theorem isQuoted_of_not_isInside (h : phase.isInside = false) : phase.isQuoted = false := by
  cases phase with
  | inQuotes | afterQuote => contradiction
  | _ => rfl

theorem step_literal (hphase : phase.isQuoted = false) (h : IsLiteral byte) :
    phase.step byte = (inField, .keep) := by
  simp only [IsLiteral, List.mem_cons, List.not_mem_nil, or_false, not_or] at h
  obtain ⟨hcomma, hquote, hfeed, hreturn⟩ := h
  cases phase with
  | inQuotes | afterQuote => contradiction
  | _ => simp [step, between, first, bare, hcomma, hquote, hfeed, hreturn]

theorem step_comma (hphase : phase.isQuoted = false) :
    phase.step comma = (startOfField, .endField) := by
  cases phase with
  | inQuotes | afterQuote => contradiction
  | _ => rfl

/-- The bytes of a cell are kept as they are. -/
theorem cut_cell (hphase : phase.isQuoted = false) (hcell : ∀ byte ∈ cell, IsLiteral byte) :
    phase.cut fields field (cell ++ rest) =
      (if cell = [] then phase else inField).cut fields (cell.reverse ++ field) rest := by
  induction cell generalizing phase field with
  | nil => rfl
  | cons byte more ih =>
    -- from its second byte on, a cell is read inside the field
    rw [List.cons_append, cut, step_literal hphase (hcell byte List.mem_cons_self)]
    dsimp only
    rw [ih rfl fun other hother => hcell other (List.mem_cons_of_mem byte hother), ite_self,
      if_neg (List.cons_ne_nil _ _), List.reverse_cons, List.append_assoc]
    rfl

theorem cut_comma (hphase : phase.isQuoted = false) (hcell : ∀ byte ∈ cell, IsLiteral byte) :
    phase.cut fields [] (cell ++ comma :: rest) = startOfField.cut (cell :: fields) [] rest := by
  have hnext : (if cell = [] then phase else inField).isQuoted = false := by
    split
    · exact hphase
    · rfl
  rw [cut_cell hphase hcell, cut, step_comma hnext, List.append_nil, List.reverse_reverse]

/-- All cells but the last one end at their commas. -/
theorem cut_joined {front : List (List UInt8)} (hphase : phase.isQuoted = false)
    (hne : front ≠ []) (hfront : ∀ cell ∈ front, ∀ byte ∈ cell, IsLiteral byte) :
    phase.cut fields [] (joined (front ++ [last]) ++ rest) =
      startOfField.cut (front.reverse ++ fields) [] (last ++ rest) := by
  -- the first cell begins where reading stands, the others behind a comma
  induction front generalizing phase fields with
  | nil => contradiction
  | cons cell more ih =>
    have hcell := hfront cell List.mem_cons_self
    cases more with
    | nil =>
      rw [List.singleton_append, joined, List.append_assoc, List.cons_append,
        cut_comma hphase hcell]
      · rfl
      · exact List.cons_ne_nil _ _
    | cons next more =>
      have hmore : startOfField.cut (cell :: fields) [] (joined (next :: more ++ [last]) ++ rest) =
          startOfField.cut ((next :: more).reverse ++ cell :: fields) [] (last ++ rest) :=
        ih rfl (List.cons_ne_nil _ _) fun other hother =>
          hfront other (List.mem_cons_of_mem cell hother)
      have hfields : (next :: more).reverse ++ cell :: fields =
          (cell :: next :: more).reverse ++ fields := by simp
      rw [List.cons_append, joined, List.append_assoc, List.cons_append, cut_comma hphase hcell,
        hmore, hfields]
      exact List.cons_ne_nil _ _

end Phase

/-- Where reading goes on behind a line end. -/
def LineEnd.phase : LineEnd → Phase
  | lineFeed | both => .betweenRecords
  | carriageReturn => .afterReturn

theorem LineEnd.isInside_phase (ending : LineEnd) : ending.phase.isInside = false := by
  cases ending <;> rfl

namespace Phase

variable {fields : List (List UInt8)} {last : List UInt8}

/-- The last cell of a line ends with it. -/
theorem cut_ending (hlast : ∀ byte ∈ last, IsLiteral byte) (ending : LineEnd) (rest : List UInt8) :
    startOfField.cut fields [] (last ++ (ending.bytes ++ rest)) =
      (last :: fields).reverse :: ending.phase.cut [] [] rest := by
  rw [cut_cell rfl hlast, List.append_nil]
  -- an empty cell leaves reading at the start of its field
  by_cases hempty : last = []
  · subst hempty
    cases ending <;> rfl
  · rw [if_neg hempty, ← last.reverse_reverse]
    cases ending <;>
      simp [LineEnd.bytes, LineEnd.phase, cut, step, bare, comma, lineFeed, carriageReturn]

/-- Without a line end it ends with the text. -/
theorem cut_end (hlast : ∀ byte ∈ last, IsLiteral byte) :
    startOfField.cut fields [] last = [(last :: fields).reverse] := by
  have hinside : (if last = [] then startOfField else inField).isInside = true := by
    split
    · rfl
    · rfl
  rw [← List.append_nil last, cut_cell rfl hlast, cut, if_pos hinside, List.append_nil,
    List.reverse_reverse, List.append_nil]

end Phase

/-! ## Lines -/

variable {line : Line} {lines : List Line} {phase : Phase}

theorem Line.IsPlain.literal (h : line.IsPlain) :
    ∀ cell ∈ line.cells.map encode, ∀ byte ∈ cell, IsLiteral byte := by
  intro encoded hencoded byte hbyte
  obtain ⟨cell, hcell, rfl⟩ := List.mem_map.mp hencoded
  exact isLiteral_of_mem_encode (h.plain cell hcell) hbyte

/-- A line is cut up to its last cell, and what comes behind is read on with that. -/
theorem Line.IsPlain.exists_last (h : line.IsPlain) :
    ∃ front last, line.cells.map encode = front ++ [last] ∧ (∀ byte ∈ last, IsLiteral byte) ∧
      ∀ (phase : Phase) rest, phase.isInside = false →
        phase.cut [] [] (line.content ++ rest) =
          Phase.startOfField.cut front.reverse [] (last ++ rest) := by
  have hliteral := h.literal
  have hseveral := h.several
  rw [← List.length_map encode] at hseveral
  rcases (line.cells.map encode).eq_nil_or_concat with hnil | ⟨front, last, hcells⟩
  · rw [hnil] at hseveral
    contradiction
  rw [List.concat_eq_append] at hcells
  rw [hcells] at hliteral hseveral
  refine ⟨front, last, hcells, hliteral last List.mem_concat_self, fun phase rest hphase => ?_⟩
  have hne : front ≠ [] := by
    rintro rfl
    contradiction
  rw [Line.content, hcells, Phase.cut_joined (Phase.isQuoted_of_not_isInside hphase) hne
    fun cell hcell => hliteral cell (List.mem_append_left _ hcell), List.append_nil]

/-- A line is read as its cells, and reading goes on behind its line end. -/
theorem Line.IsPlain.cut_ending (h : line.IsPlain) (hphase : phase.isInside = false)
    (rest : List UInt8) :
    phase.cut [] [] (line.content ++ (line.ending.bytes ++ rest)) =
      line.cells.map encode :: line.ending.phase.cut [] [] rest := by
  obtain ⟨front, last, hcells, hlast, hcut⟩ := h.exists_last
  rw [hcut phase _ hphase, Phase.cut_ending hlast, List.reverse_cons, List.reverse_reverse, hcells]

theorem Line.IsPlain.cut_end (h : line.IsPlain) (hphase : phase.isInside = false) :
    phase.cut [] [] line.content = [line.cells.map encode] := by
  obtain ⟨front, last, hcells, hlast, hcut⟩ := h.exists_last
  have hcontent := hcut phase [] hphase
  rw [List.append_nil, List.append_nil] at hcontent
  rw [hcontent, Phase.cut_end hlast, List.reverse_cons, List.reverse_reverse, hcells]

theorem cut_written (closed : Bool) (h : ∀ line ∈ lines, line.IsPlain)
    (hphase : phase.isInside = false) :
    phase.cut [] [] (written closed lines) = lines.map (·.cells.map encode) := by
  -- behind a line end reading is between records again, which is all that the next line asks for
  induction lines generalizing phase with
  | nil =>
    rw [written, Phase.cut, if_neg (Bool.eq_false_iff.mp hphase)]
    rfl
  | cons line rest ih =>
    have hline := h line List.mem_cons_self
    have hinside := line.ending.isInside_phase
    cases rest with
    | nil =>
      rw [written]
      cases closed with
      | true =>
        have hcut := hline.cut_ending hphase []
        rw [List.append_nil] at hcut
        rw [if_pos rfl, hcut, Phase.cut, if_neg (Bool.eq_false_iff.mp hinside)]
        rfl
      | false =>
        rw [if_neg Bool.false_ne_true, List.append_nil, hline.cut_end hphase]
        rfl
    | cons next more =>
      rw [written, hline.cut_ending hphase,
        ih (fun other hother => h other (List.mem_cons_of_mem line hother)) hinside]
      · rfl
      · exact List.cons_ne_nil _ _

/-! ## Records -/

theorem Progress.map_fields_run (progress : Progress) (bytes : List UInt8) :
    (progress.run bytes).map (·.fields) =
      progress.phase.cut progress.fields progress.field bytes := by
  induction bytes generalizing progress with
  | nil =>
    rw [run, Phase.cut]
    split
    · rfl
    · rfl
  | cons byte rest ih =>
    rw [run, Phase.cut]
    generalize progress.phase.step byte = stepped
    obtain ⟨phase, action⟩ := stepped
    cases action with
    | skip => exact ih _
    | keep => exact ih _
    | endField => exact ih _
    | endRecord => exact congrArg _ (ih _)

theorem mem_joined {cells : List (List UInt8)} (h : byte ∈ joined cells) :
    byte = comma ∨ ∃ cell ∈ cells, byte ∈ cell := by
  induction cells with
  | nil => contradiction
  | cons cell rest ih =>
    cases rest with
    | nil => exact .inr ⟨cell, List.mem_cons_self, h⟩
    | cons next more =>
      rw [joined, List.mem_append, List.mem_cons] at h
      · obtain hcell | hcomma | hrest := h
        · exact .inr ⟨cell, List.mem_cons_self, hcell⟩
        · exact .inl hcomma
        · exact (ih hrest).imp_right fun ⟨other, hother, hbyte⟩ =>
            ⟨other, List.mem_cons_of_mem cell hother, hbyte⟩
      · exact List.cons_ne_nil _ _

theorem Line.IsPlain.ascii (h : line.IsPlain) : ∀ byte ∈ line.content, byte < 0x80 := by
  intro byte hbyte
  rcases mem_joined hbyte with rfl | ⟨encoded, hencoded, hbyte⟩
  · decide
  · obtain ⟨cell, hcell, rfl⟩ := List.mem_map.mp hencoded
    obtain ⟨c, -, hc, hsame⟩ := exists_of_mem_encode (h.plain cell hcell) hbyte
    rw [UInt8.lt_iff_toNat_lt, hsame]
    exact hc.ascii

theorem LineEnd.ascii (ending : LineEnd) : ∀ byte ∈ ending.bytes, byte < 0x80 := by
  have hbytes : ending.bytes.all (· < 0x80) = true := by cases ending <;> rfl
  exact fun byte hbyte => of_decide_eq_true (List.all_eq_true.mp hbytes byte hbyte)

theorem ascii_written (closed : Bool) (h : ∀ line ∈ lines, line.IsPlain) :
    ∀ byte ∈ written closed lines, byte < 0x80 := by
  induction lines with
  | nil => exact fun _ hbyte => by contradiction
  | cons line rest ih =>
    have hline := (h line List.mem_cons_self).ascii
    have hending := line.ending.ascii
    intro byte hbyte
    cases rest with
    | nil =>
      rw [written, List.mem_append] at hbyte
      rcases hbyte with hcontent | hbyte
      · exact hline byte hcontent
      · cases closed with
        | true => exact hending byte hbyte
        | false => contradiction
    | cons next more =>
      rw [written, List.mem_append, List.mem_append] at hbyte
      · obtain hcontent | hend | hrest := hbyte
        · exact hline byte hcontent
        · exact hending byte hend
        · exact ih (fun other hother => h other (List.mem_cons_of_mem line hother)) byte hrest
      · exact List.cons_ne_nil _ _

/-- No byte-order mark is dropped from a text in ASCII. -/
theorem records_of_ascii {bytes : List UInt8} (h : ∀ byte ∈ bytes, byte < 0x80) :
    records bytes = (Progress.initial 0).run bytes := by
  unfold records
  split
  · exact absurd (h 0xef List.mem_cons_self) (by decide)
  · rfl

/-- Plain lines are read back cell by cell. -/
theorem texts_records (closed : Bool) (h : ∀ line ∈ lines, line.IsPlain) :
    List.Forall₂ (fun record line => record.texts = .ok line.cells)
      (records (written closed lines)) lines := by
  have hfields : (records (written closed lines)).map (·.fields) =
      lines.map (·.cells.map encode) := by
    rw [records_of_ascii (ascii_written closed h), Progress.map_fields_run]
    exact cut_written closed h rfl
  have hpairs : List.Forall₂ (fun fields line => fields = line.cells.map encode ∧ line.IsPlain)
      ((records (written closed lines)).map (·.fields)) lines := by
    rw [hfields, List.forall₂_map_left_iff]
    exact List.forall₂_same.mpr fun line hline => ⟨rfl, h line hline⟩
  refine (List.forall₂_map_left_iff.mp hpairs).imp ?_
  rintro record line ⟨hsame, hline⟩
  rw [Record.texts, hsame]
  exact decodeFields_encode (fun cell hcell c hc => (hline.plain cell hcell c hc).ascii) _ 0

end Slidewalk.Csv
