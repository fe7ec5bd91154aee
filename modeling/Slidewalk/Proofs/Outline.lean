import Slidewalk.Segment

/-!
# Outlines of segments

The window depends on little of a segment: its id, how many edges it holds of how many it takes, and
whether it is sealed and repacked. Whatever the packing of entries does, a refused edge leaves the
outline as it is and a taken edge counts once.
-/

namespace Slidewalk

structure Outline where
  id : Nat
  edgeCapacity : Nat
  codec : EdgeCodec
  edgeCount : Nat
  isSealed : Bool
  isRepacked : Bool

namespace Outline

def closed (outline : Outline) : Outline := { outline with isSealed := true }

/-- One more edge, and the seal that comes with the last one. -/
def counted (outline : Outline) : Outline :=
  { outline with
    edgeCount := outline.edgeCount + 1
    isSealed := outline.isSealed || decide (outline.edgeCapacity ≤ outline.edgeCount + 1) }

/-- The outline once an edge was offered. -/
def offered (outline : Outline) : Except Fault Unit → Outline
  | .ok () => outline.counted
  | .error _ => outline

def repacked (outline : Outline) : Outline := { outline with isRepacked := true }

@[simp] theorem id_offered (outline : Outline) (result : Except Fault Unit) :
    (outline.offered result).id = outline.id := by
  cases result <;> rfl

@[simp] theorem isRepacked_offered (outline : Outline) (result : Except Fault Unit) :
    (outline.offered result).isRepacked = outline.isRepacked := by
  cases result <;> rfl

end Outline

/-- The faults of a store whose window is out of order: an unsealed segment would have to leave it,
or an edge is offered to a sealed one. -/
def Fault.breaksOrder : Fault → Bool
  | .configuration .evictingUnsealed => true
  | .sealed (.segment _) => true
  | _ => false

/-- The faults of the parts of a segment: there is no room, a value cannot be packed, or a pool is
sealed. -/
def Fault.isLocal : Fault → Bool
  | .configuration _ => false
  | .sealed (.segment _) => false
  | _ => true

theorem Fault.not_isLocal_of_breaksOrder {fault : Fault} (h : fault.breaksOrder = true) :
    fault.isLocal = false := by
  unfold breaksOrder at h
  split at h
  · rfl
  · rfl
  · contradiction

theorem Fault.not_isLocal_of_isConfiguration {fault : Fault} (h : fault.isConfiguration = true) :
    fault.isLocal = false := by
  unfold isConfiguration at h
  split at h
  · rfl
  · contradiction

/-! ## Faults of the parts of a segment -/

section Faults

theorem error_of_bind {ε α β : Type} {first : Except ε α} {next : α → Except ε β} {error : ε}
    (h : first >>= next = .error error) :
    first = .error error ∨ ∃ value, first = .ok value ∧ next value = .error error := by
  cases first with
  | error found => exact .inl (congrArg Except.error (Except.error.inj h))
  | ok value => exact .inr ⟨value, rfl, h⟩

variable {fault : Fault} {node number : Nat} {entry : UInt32} {id : NodeId}

theorem PowerLawPool.isLocal_of_listRefusal {pool : PowerLawPool}
    (h : pool.listRefusal node = some fault) : fault.isLocal = true := by
  unfold listRefusal slotRefusal at h
  grind [Fault.isLocal]

namespace Pool

variable {pool : Pool}

theorem isLocal_of_check (h : pool.check node = .error fault) : fault.isLocal = true := by
  cases pool with
  | uniform pool =>
    simp only [check, UniformPool.check] at h
    grind [Fault.isLocal]
  | powerLaw pool =>
    simp only [check, PowerLawPool.check] at h
    grind [Fault.isLocal, PowerLawPool.isLocal_of_listRefusal]
  | exactFit pool =>
    simp only [check] at h
    grind [Fault.isLocal]

theorem isLocal_of_add (h : (pool.add node entry).2 = .error fault) :
    fault.isLocal = true := by
  cases pool with
  | uniform pool =>
    simp only [add, UniformPool.add, UniformPool.refusal] at h
    grind [Fault.isLocal]
  | powerLaw pool =>
    simp only [add, PowerLawPool.add, PowerLawPool.refusal] at h
    grind [Fault.isLocal, PowerLawPool.isLocal_of_listRefusal]
  | exactFit pool =>
    simp only [add] at h
    grind [Fault.isLocal]

end Pool

theorem NodeIndex.isLocal_of_intern {index : NodeIndex}
    (h : (index.intern id).2 = .error fault) : fault.isLocal = true := by
  unfold intern at h
  grind [Fault.isLocal]

theorem Shore.isLocal_of_prospect {shore : Shore} {codec : EdgeCodec}
    (h : shore.prospect codec id = .error fault) : fault.isLocal = true := by
  unfold prospect at h
  grind [Fault.isLocal]

end Faults

namespace Segment

variable {segment repacked : Segment} {edge : Edge} {fault : Fault}

def outline (segment : Segment) : Outline where
  id := segment.id
  edgeCapacity := segment.edgeCapacity
  codec := segment.codec
  edgeCount := segment.edgeCount
  isSealed := segment.isSealed
  isRepacked := segment.isRepacked

theorem outline_count (segment : Segment) : segment.count.outline = segment.outline.counted := by
  unfold count Outline.counted outline
  dsimp only
  split <;> rename_i hfull
  · simp [sealed, hfull]
  · simp [hfull]

theorem outline_link (segment : Segment) (leftNumber rightNumber : Nat) (toRight toLeft : UInt32) :
    (segment.link leftNumber rightNumber toRight toLeft).1.outline =
      segment.outline.offered (segment.link leftNumber rightNumber toRight toLeft).2 := by
  obtain ⟨id, edgeCapacity, codec, ⟨leftIndex, leftPool⟩, ⟨rightIndex, rightPool⟩, edgeCount,
    isSealed, isRepacked, oldest, newest⟩ := segment
  unfold link
  dsimp only
  rcases leftPool.add leftNumber toRight with ⟨leftPool, fault | _⟩
  · rfl
  dsimp only
  rcases rightPool.add rightNumber toLeft with ⟨rightPool, fault | _⟩
  · rfl
  · exact outline_count _

/-- Linking fails only in a pool. -/
theorem isLocal_of_link {leftNumber rightNumber : Nat} {toRight toLeft : UInt32}
    (h : (segment.link leftNumber rightNumber toRight toLeft).2 = .error fault) :
    fault.isLocal = true := by
  obtain ⟨id, edgeCapacity, codec, ⟨leftIndex, leftPool⟩, ⟨rightIndex, rightPool⟩, edgeCount,
    isSealed, isRepacked, oldest, newest⟩ := segment
  unfold link at h
  dsimp only at h
  cases hleft : leftPool.add leftNumber toRight with | mk grown answer
  rw [hleft] at h
  cases answer with
  | error refusal =>
    obtain rfl := Except.error.inj h
    exact Pool.isLocal_of_add (congrArg Prod.snd hleft)
  | ok _ =>
    cases hright : rightPool.add rightNumber toLeft with | mk grown answer
    rw [hright] at h
    cases answer with
    | error refusal =>
      obtain rfl := Except.error.inj h
      exact Pool.isLocal_of_add (congrArg Prod.snd hright)
    | ok _ => contradiction

theorem outline_write (segment : Segment) (edge : Edge) :
    (segment.write edge).1.outline = segment.outline.offered (segment.write edge).2 := by
  obtain ⟨id, edgeCapacity, codec, ⟨leftIndex, leftPool⟩, ⟨rightIndex, rightPool⟩, edgeCount,
    isSealed, isRepacked, oldest, newest⟩ := segment
  unfold write
  dsimp only
  -- a fault on the way leaves nodes numbered, which the outline does not show
  rcases leftIndex.intern edge.left with ⟨leftIndex, fault | leftNumber⟩
  · rfl
  dsimp only
  rcases rightIndex.intern edge.right with ⟨rightIndex, fault | rightNumber⟩
  · rfl
  dsimp only
  rcases codec.encode rightNumber edge.kind with fault | toRight
  · rfl
  rcases codec.encode leftNumber edge.kind with fault | toLeft
  · rfl
  · exact outline_link _ leftNumber rightNumber toRight toLeft

/-- Only the packing can fail to write an edge for a reason that no part of the segment has. -/
theorem exists_encode_of_write (h : (segment.write edge).2 = .error fault)
    (hlocal : fault.isLocal = false) :
    ∃ number, segment.codec.encode number edge.kind = .error fault := by
  obtain ⟨id, edgeCapacity, codec, ⟨leftIndex, leftPool⟩, ⟨rightIndex, rightPool⟩, edgeCount,
    isSealed, isRepacked, oldest, newest⟩ := segment
  unfold write at h
  dsimp only at h ⊢
  cases hleft : leftIndex.intern edge.left with | mk leftIndex answer
  rw [hleft] at h
  cases answer with
  | error refusal =>
    obtain rfl := Except.error.inj h
    rw [NodeIndex.isLocal_of_intern (congrArg Prod.snd hleft)] at hlocal
    contradiction
  | ok leftNumber =>
    dsimp only at h
    cases hright : rightIndex.intern edge.right with | mk rightIndex answer
    rw [hright] at h
    cases answer with
    | error refusal =>
      obtain rfl := Except.error.inj h
      rw [NodeIndex.isLocal_of_intern (congrArg Prod.snd hright)] at hlocal
      contradiction
    | ok rightNumber =>
      dsimp only at h
      cases htoRight : codec.encode rightNumber edge.kind with
      | error refusal =>
        rw [htoRight] at h
        obtain rfl := Except.error.inj h
        exact ⟨rightNumber, htoRight⟩
      | ok toRight =>
        cases htoLeft : codec.encode leftNumber edge.kind with
        | error refusal =>
          rw [htoRight, htoLeft] at h
          obtain rfl := Except.error.inj h
          exact ⟨leftNumber, htoLeft⟩
        | ok toLeft =>
          rw [htoRight, htoLeft] at h
          rw [isLocal_of_link h] at hlocal
          contradiction

theorem isLocal_of_verdict (h : segment.verdict edge = .error fault) :
    fault.isLocal = true := by
  unfold verdict at h
  split at h
  · obtain rfl := Except.error.inj h
    rfl
  rcases error_of_bind h with hleft | ⟨leftNumber, -, h⟩
  · exact Shore.isLocal_of_prospect hleft
  rcases error_of_bind h with hright | ⟨rightNumber, -, h⟩
  · exact Shore.isLocal_of_prospect hright
  rcases error_of_bind h with hcheck | ⟨-, -, hcheck⟩
  · exact Pool.isLocal_of_check hcheck
  · exact Pool.isLocal_of_check hcheck

/-! ## Adding, sealing and repacking -/

/-- What adding does to a segment that takes edges. -/
theorem outline_add (hopen : segment.isSealed = false)
    (hroom : segment.edgeCount < segment.edgeCapacity) (edge : Edge) :
    (segment.add edge).1.outline = segment.outline.offered (segment.add edge).2 := by
  unfold add
  rw [hopen, if_neg (by decide), if_neg (by omega)]
  cases segment.verdict edge with
  | error fault => rfl
  | ok _ => exact outline_write segment edge

/-- A segment that takes edges does not complain of order, unless its packing does. -/
theorem exists_encode_of_add (hopen : segment.isSealed = false)
    (hroom : segment.edgeCount < segment.edgeCapacity)
    (h : (segment.add edge).2 = .error fault) (hlocal : fault.isLocal = false) :
    ∃ number, segment.codec.encode number edge.kind = .error fault := by
  unfold add at h
  rw [hopen, if_neg (by decide), if_neg (by omega)] at h
  cases hverdict : segment.verdict edge with
  | error refusal =>
    rw [hverdict] at h
    obtain rfl := Except.error.inj h
    rw [isLocal_of_verdict hverdict] at hlocal
    contradiction
  | ok _ =>
    rw [hverdict] at h
    exact exists_encode_of_write h hlocal

theorem repack_outline (h : segment.repack = .ok repacked) :
    segment.isSealed = true ∧ repacked.outline = segment.outline.repacked := by
  obtain ⟨hsealed, leftPool, rightPool, -, -, rfl⟩ := repack_cases h
  exact ⟨hsealed, by simp [outline, Outline.repacked, hsealed]⟩

end Segment

end Slidewalk
