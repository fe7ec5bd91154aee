/-!
# Room in chunks

Pools lay out their arrays in whole chunks, so what fits is the asked size rounded up to chunks.
-/

namespace Slidewalk

/-- Entries per chunk, where a single slot does not need more. -/
def chunkEntries : Nat := 4096

/-- The least multiple of `chunk` that is at least `size`. -/
def roundUp (size chunk : Nat) : Nat := (size + (chunk - 1)) / chunk * chunk

/-- How many nodes fit where `maxNodes` were asked for. -/
def nodeRoom (maxNodes : Nat) : Nat := roundUp maxNodes (min chunkEntries maxNodes)

theorem le_roundUp (size chunk : Nat) (h : 0 < chunk) : size ≤ roundUp size chunk := by
  unfold roundUp
  have := Nat.div_add_mod (size + (chunk - 1)) chunk
  have := Nat.mod_lt (size + (chunk - 1)) h
  rw [Nat.mul_comm]
  omega

theorem le_nodeRoom (maxNodes : Nat) (h : 0 < maxNodes) : maxNodes ≤ nodeRoom maxNodes :=
  le_roundUp _ _ (by unfold chunkEntries; omega)

/-- A bound within one chunk is exact. -/
theorem nodeRoom_of_le_chunk (maxNodes : Nat) (h : 0 < maxNodes) (hle : maxNodes ≤ chunkEntries) :
    nodeRoom maxNodes = maxNodes := by
  unfold nodeRoom roundUp
  rw [Nat.min_eq_right hle, show maxNodes + (maxNodes - 1) = (maxNodes - 1) + maxNodes by omega,
    Nat.add_div_right _ h, Nat.div_eq_of_lt (by omega)]
  omega

end Slidewalk
