/-!
# Rounding up to powers of two

Tables and slots have lengths that are powers of two: the least one that is long enough.
-/

namespace Slidewalk

/-- The exponent of the least power of two that is at least `n`. -/
def ceilLog2 (n : Nat) : Nat := if n ≤ 1 then 0 else (n - 1).log2 + 1

theorem le_two_pow_ceilLog2 (n : Nat) : n ≤ Nat.pow 2 (ceilLog2 n) := by
  unfold ceilLog2
  split
  · assumption
  · have : n - 1 < Nat.pow 2 ((n - 1).log2 + 1) := Nat.lt_log2_self
    omega

theorem ceilLog2_le {n bits : Nat} (h : n ≤ Nat.pow 2 bits) : ceilLog2 n ≤ bits := by
  unfold ceilLog2
  split
  · exact Nat.zero_le bits
  · have hlog : (n - 1).log2 < bits := by
      rw [Nat.log2_lt (by omega)]
      change n - 1 < Nat.pow 2 bits
      omega
    omega

theorem ceilLog2_le_iff {n bits : Nat} : ceilLog2 n ≤ bits ↔ n ≤ Nat.pow 2 bits :=
  ⟨fun h => Nat.le_trans (le_two_pow_ceilLog2 n) (Nat.pow_le_pow_right (by decide) h), ceilLog2_le⟩

end Slidewalk
