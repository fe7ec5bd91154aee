import Slidewalk.Text.Blank
import Slidewalk.Text.Integer

/-!
# Numbers that were written out

A number that was written in decimal digits is read back, whatever the blanks around it.
-/

namespace Slidewalk.Text

/-! ## Blanks around a text -/

theorem trimStart_blanks {blanks : List Char} (h : ∀ c ∈ blanks, isBlank c = true)
    (text : List Char) : trimStart (blanks ++ text) = trimStart text :=
  List.dropWhile_append_of_pos h

theorem trimEnd_blanks {blanks : List Char} (h : ∀ c ∈ blanks, isBlank c = true)
    (text : List Char) : trimEnd (text ++ blanks) = trimEnd text := by
  -- the blanks behind a text are those in front of its reversal
  unfold trimEnd
  rw [List.reverse_append, ← trimStart,
    trimStart_blanks fun c hc => h c (List.mem_reverse.mp hc)]
  rfl

theorem trimStart_append {text : List Char} (hne : text ≠ [])
    (h : ∀ c ∈ text, isBlank c = false) (more : List Char) :
    trimStart (text ++ more) = text ++ more := by
  cases text with
  | nil => contradiction
  | cons first rest =>
    unfold trimStart
    rw [List.cons_append, List.dropWhile_cons, if_neg]
    rw [h first List.mem_cons_self]
    exact Bool.false_ne_true

theorem trim_around {before text after : List Char} (hbefore : ∀ c ∈ before, isBlank c = true)
    (hafter : ∀ c ∈ after, isBlank c = true) (hne : text ≠ [])
    (h : ∀ c ∈ text, isBlank c = false) : trim (before ++ (text ++ after)) = text := by
  have hstart : trimStart text = text := by
    rw [← List.append_nil text]
    exact trimStart_append hne h []
  calc
    trim (before ++ (text ++ after)) = trimEnd (text ++ after) := by
      rw [trim, trimStart_blanks hbefore, trimStart_append hne h]
    _ = trimEnd (trimStart text) := by rw [trimEnd_blanks hafter, hstart]
    _ = text := trim_eq_self (fun c hc => h c (List.mem_of_mem_head? hc))
      (fun c hc => h c (List.mem_of_mem_getLast? hc))

/-! ## Digits -/

theorem digitValue?_of_isDigit {c : Char} (h : c.isDigit = true) :
    digitValue? c = some (c.toNat - '0'.toNat) := by
  rw [Char.isDigit, Bool.and_eq_true, decide_eq_true_eq, decide_eq_true_eq] at h
  exact if_pos h

theorem readDigits_of_isDigit {text : List Char} (h : ∀ c ∈ text, c.isDigit = true)
    (value : Nat) : readDigits value text = some (Nat.ofDigitChars 10 text value) := by
  induction text generalizing value with
  | nil => rfl
  | cons c rest ih =>
    rw [readDigits, digitValue?_of_isDigit (h c List.mem_cons_self), Option.bind_some,
      ih (fun d hd => h d (List.mem_cons_of_mem c hd))]
    rfl

theorem isDigit_of_mem_toDigits {n : Nat} {c : Char} (h : c ∈ Nat.toDigits 10 n) :
    c.isDigit = true :=
  Nat.isDigit_of_mem_toDigits (by decide) (by decide) h

theorem readNat?_toDigits (n : Nat) : readNat? (Nat.toDigits 10 n) = some n := by
  have hdigits := readDigits_of_isDigit (fun _ => isDigit_of_mem_toDigits (n := n)) 0
  rw [Nat.ofDigitChars_ten_toDigits] at hdigits
  unfold readNat?
  split
  · rename_i hnil
    exact absurd hnil Nat.toDigits_ne_nil
  · exact hdigits

/-- Digits do not begin with a sign. -/
theorem toDigits_ne_cons {n : Nat} {c : Char} {rest : List Char} (h : c.isDigit = false) :
    Nat.toDigits 10 n ≠ c :: rest := by
  intro hcons
  have hdigit : c.isDigit = true := isDigit_of_mem_toDigits (hcons ▸ List.mem_cons_self)
  rw [h] at hdigit
  contradiction

/-! ## Numbers -/

theorem readUnsigned?_repr {max n : Nat} (h : n ≤ max) :
    readUnsigned? max n.repr.toList = some n := by
  rw [Nat.toList_repr]
  unfold readUnsigned?
  split
  · rename_i hplus
    exact absurd hplus (toDigits_ne_cons rfl)
  · dsimp only
    rw [readNat?_toDigits, Option.filter_some, if_pos (decide_eq_true h)]

theorem readSigned?_repr {min max n : Int} (hmin : min ≤ n) (hmax : n ≤ max) :
    readSigned? min max n.repr.toList = some n := by
  cases n with
  | ofNat n =>
    rw [show (Int.ofNat n).repr = n.repr from rfl, Nat.toList_repr]
    unfold readSigned?
    -- digits do not begin with a sign
    split
    · rename_i hplus
      exact absurd hplus (toDigits_ne_cons rfl)
    · rename_i hminus
      exact absurd hminus (toDigits_ne_cons rfl)
    · rw [readNat?_toDigits, Option.map_some, Option.filter_some,
        if_pos (decide_eq_true ⟨hmin, hmax⟩)]
  | negSucc n =>
    rw [show (Int.negSucc n).repr = "-" ++ n.succ.repr from rfl, String.toList_append,
      Nat.toList_repr]
    show ((readNat? (Nat.toDigits 10 n.succ)).map fun n => -Int.ofNat n).filter _ = _
    rw [readNat?_toDigits, Option.map_some, Option.filter_some]
    exact if_pos (decide_eq_true ⟨hmin, hmax⟩)

theorem readUInt64?_repr (n : UInt64) : readUInt64? n.toNat.repr.toList = some n := by
  rw [readUInt64?, readUnsigned?_repr (Nat.le_sub_one_of_lt n.toNat_lt_size), Option.map_some,
    UInt64.ofNat_toNat]

theorem readUInt8?_repr (n : UInt8) : readUInt8? n.toNat.repr.toList = some n := by
  rw [readUInt8?, readUnsigned?_repr (Nat.le_sub_one_of_lt n.toNat_lt_size), Option.map_some,
    UInt8.ofNat_toNat]

theorem readInt64?_repr (n : Int64) : readInt64? n.toInt.repr.toList = some n := by
  rw [readInt64?, readSigned?_repr (Int64.le_iff_toInt_le.mp (Int64.minValue_le n))
    (Int64.le_iff_toInt_le.mp (Int64.le_maxValue n)), Option.map_some, Int64.ofInt_toInt]

end Slidewalk.Text
