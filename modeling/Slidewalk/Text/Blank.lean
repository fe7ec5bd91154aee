/-!
# Blank characters

The characters that Unicode marks as white space. Texts are trimmed of them at both ends.
-/

namespace Slidewalk.Text

def isBlank (c : Char) : Bool :=
  let n := c.toNat
  (9 ≤ n && n ≤ 13) || n == 0x20 || n == 0x85 || n == 0xa0 || n == 0x1680 ||
    (0x2000 ≤ n && n ≤ 0x200a) || n == 0x2028 || n == 0x2029 || n == 0x202f || n == 0x205f ||
    n == 0x3000

def trimStart (text : List Char) : List Char := text.dropWhile isBlank

def trimEnd (text : List Char) : List Char := (text.reverse.dropWhile isBlank).reverse

def trim (text : List Char) : List Char := trimEnd (trimStart text)

/-- A text without blanks at its ends is left alone. -/
theorem trim_eq_self {text : List Char} (hfirst : ∀ c ∈ text.head?, isBlank c = false)
    (hlast : ∀ c ∈ text.getLast?, isBlank c = false) : trim text = text := by
  have hstart : trimStart text = text := by
    cases text with
    | nil => rfl
    | cons c rest => simp [trimStart, hfirst c (by simp)]
  rw [trim, hstart, trimEnd]
  rw [List.getLast?_eq_head?_reverse] at hlast
  cases hrev : text.reverse with
  | nil => simp_all
  | cons c rest =>
    rw [hrev] at hlast
    rw [List.dropWhile_cons, if_neg (by simp [hlast c (by simp)]), ← hrev, List.reverse_reverse]

end Slidewalk.Text
