/-!
# UTF-8

Decodes bytes to characters. Bytes that are not well-formed are reported by the length of the
well-formed part in front of them.
-/

namespace Slidewalk.Text.Utf8

def isContinuation (b : UInt8) : Bool := b &&& 0xc0 == 0x80

def payload (b : UInt8) : Nat := (b &&& 0x3f).toNat

/-- The second byte of three that a first byte admits: no overlong form, no surrogate. -/
def isSecondOf3 (first second : UInt8) : Bool :=
  isContinuation second && (first != 0xe0 || 0xa0 ≤ second) && (first != 0xed || second < 0xa0)

/-- The second byte of four that a first byte admits: no overlong form, nothing past U+10FFFF. -/
def isSecondOf4 (first second : UInt8) : Bool :=
  isContinuation second && (first != 0xf0 || 0x90 ≤ second) && (first != 0xf4 || second < 0x90)

/-- The characters of well-formed bytes; otherwise how many bytes come before the first character
that is not well-formed. -/
def decode (position : Nat) : List UInt8 → Except Nat (List Char)
  | [] => .ok []
  | a :: rest =>
      -- one byte
      if a < 0x80 then (Char.ofNat a.toNat :: ·) <$> decode (position + 1) rest
      -- two bytes: the first two leads would be overlong
      else if 0xc2 ≤ a ∧ a < 0xe0 then
        match rest with
        | b :: rest =>
            if isContinuation b then
              (Char.ofNat ((a &&& 0x1f).toNat * 64 + payload b) :: ·) <$> decode (position + 2) rest
            else .error position
        | _ => .error position
      -- three bytes
      else if 0xe0 ≤ a ∧ a < 0xf0 then
        match rest with
        | b :: c :: rest =>
            if isSecondOf3 a b && isContinuation c then
              (Char.ofNat ((a &&& 0x0f).toNat * 4096 + payload b * 64 + payload c) :: ·) <$>
                decode (position + 3) rest
            else .error position
        | _ => .error position
      -- four bytes
      else if 0xf0 ≤ a ∧ a < 0xf5 then
        match rest with
        | b :: c :: d :: rest =>
            if isSecondOf4 a b && isContinuation c && isContinuation d then
              (Char.ofNat ((a &&& 0x07).toNat * 262144 + payload b * 4096 + payload c * 64 +
                payload d) :: ·) <$> decode (position + 4) rest
            else .error position
        | _ => .error position
      else .error position

@[simp] theorem decode_nil (position : Nat) : decode position [] = .ok [] := by
  unfold decode
  rfl

/-- An ASCII byte is its own character. -/
theorem decode_ascii (position : Nat) (a : UInt8) (rest : List UInt8) (h : a < 0x80) :
    decode position (a :: rest) =
      (Char.ofNat a.toNat :: ·) <$> decode (position + 1) rest := by
  conv => lhs; unfold decode
  rw [if_pos h]

end Slidewalk.Text.Utf8
