import Slidewalk.Proofs.Renaming.Pairing
import Slidewalk.Proofs.Segment

/-!
# Segments under renamed ids

An index gives paired ids the same number, wherever its table puts them. A segment keeps ids nowhere
else, so two segments with paired indices have equal pools and counts, and refuse the same edges.
-/

namespace Slidewalk

variable {names : Renaming} {side : Side}

structure Edge.Pairs (names : Renaming) (edge edge' : Edge) : Prop where
  left : names.Pairs .left edge.left edge'.left
  right : names.Pairs .right edge.right edge'.right
  kind : edge'.kind = edge.kind
  time : edge'.time = edge.time

structure Neighbor.Pairs (names : Renaming) (side : Side) (neighbor neighbor' : Neighbor) :
    Prop where
  node : names.Pairs side neighbor.node neighbor'.node
  kind : neighbor'.kind = neighbor.kind
  engagedAt : neighbor'.engagedAt = neighbor.engagedAt

/-! ## Indices -/

namespace NodeIndex

structure Pairs (names : Renaming) (side : Side) (index index' : NodeIndex) : Prop where
  sound : index.Sound
  sound' : index'.Sound
  maxNodes : index'.maxNodes = index.maxNodes
  ids : List.Forall₂ (names.Pairs side) index.ids.toList index'.ids.toList

variable {index index' : NodeIndex} {id id' : NodeId}

namespace Pairs

theorem external (h : Pairs names side index index') (number : Nat) :
    Option.Rel (names.Pairs side) (index.external number) (index'.external number) := by
  unfold NodeIndex.external
  rw [← Array.getElem?_toList, ← Array.getElem?_toList]
  exact rel_getElem?_of_forall₂ h.ids number

theorem size (h : Pairs names side index index') : index'.size = index.size := by
  have hlength := h.ids.length_eq
  rw [Array.length_toList, Array.length_toList] at hlength
  exact hlength.symm

theorem symm (h : Pairs names side index index') : Pairs names.symm side index' index :=
  ⟨h.sound', h.sound, h.maxNodes.symm, h.ids.flip⟩

theorem lookup_of_some (h : Pairs names side index index') (hid : names.Pairs side id id')
    {number : Nat} (hlookup : index.lookup id = some number) : index'.lookup id' = some number := by
  have hnumber : index.external number = some id := (lookup_eq_some_iff h.sound).mp hlookup
  have hpair := h.external number
  rw [hnumber] at hpair
  cases hfound : index'.external number with
  | none =>
    rw [hfound] at hpair
    cases hpair
  | some found =>
    rw [hfound] at hpair
    -- the id under this number in the other index is paired with the one looked for
    have hsame := (Renaming.eq_iff hid (Option.rel_some_some.mp hpair)).mp rfl
    exact (lookup_eq_some_iff h.sound').mpr (hfound.trans (congrArg some hsame.symm))

theorem lookup (h : Pairs names side index index') (hid : names.Pairs side id id') :
    index'.lookup id' = index.lookup id := by
  cases hlookup : index.lookup id with
  | some number => exact h.lookup_of_some hid hlookup
  | none =>
    cases hlookup' : index'.lookup id' with
    | none => rfl
    | some number =>
      -- the renaming the other way round would find it too
      have hsymm : Pairs names.symm side index' index := h.symm
      have hfound := hsymm.lookup_of_some hid hlookup'
      rw [hlookup] at hfound
      contradiction

theorem intern (h : Pairs names side index index') (hid : names.Pairs side id id') :
    Lockstep (Pairs names side) (index.intern id) (index'.intern id') := by
  have hsize : index'.ids.size = index.ids.size := h.size
  cases hlookup : index.lookup id with
  | some number =>
    have hknown := (lookup_eq_some_iff h.sound).mp hlookup
    have hknown' := (lookup_eq_some_iff h.sound').mp (h.lookup_of_some hid hlookup)
    rw [intern_of_known h.sound hknown, intern_of_known h.sound' hknown']
    exact ⟨h, rfl⟩
  | none =>
    have hnew := (lookup_eq_none_iff h.sound).mp hlookup
    have hnew' := (lookup_eq_none_iff h.sound').mp ((h.lookup hid).trans hlookup)
    -- a new id gets the next number, which is the same one in both
    by_cases hroom : index.ids.size < index.maxNodes
    · have hroom' : index'.ids.size < index'.maxNodes := by
        rw [hsize, h.maxNodes]
        exact hroom
      obtain ⟨grown, hgrown, hsound, hids, hmax⟩ := intern_of_new h.sound hnew hroom
      obtain ⟨grown', hgrown', hsound', hids', hmax'⟩ := intern_of_new h.sound' hnew' hroom'
      rw [hgrown, hgrown']
      refine ⟨⟨hsound, hsound', by rw [hmax, hmax', h.maxNodes], ?_⟩, by rw [hsize]⟩
      rw [hids, hids', Array.toList_push, Array.toList_push]
      exact List.rel_append h.ids (.cons hid .nil)
    · have hfull' : index'.maxNodes ≤ index'.ids.size := by
        rw [hsize, h.maxNodes]
        omega
      rw [intern_of_full h.sound hnew (by omega), intern_of_full h.sound' hnew' hfull', h.maxNodes]
      exact ⟨h, rfl⟩

end Pairs

theorem withPlacement_pairs {placement : Placement} {initial maxNodes : Nat}
    (h : withPlacement placement initial maxNodes = .ok index) : Pairs names side index index := by
  obtain ⟨hsound, hids, -⟩ := withPlacement_sound h
  refine ⟨hsound, hsound, rfl, ?_⟩
  rw [hids]
  exact .nil

end NodeIndex

/-! ## Segments -/

namespace Segment

structure Pairs (names : Renaming) (segment segment' : Segment) : Prop where
  left : NodeIndex.Pairs names .left segment.left.index segment'.left.index
  right : NodeIndex.Pairs names .right segment.right.index segment'.right.index
  leftPool : segment'.left.pool = segment.left.pool
  rightPool : segment'.right.pool = segment.right.pool
  id : segment'.id = segment.id
  edgeCapacity : segment'.edgeCapacity = segment.edgeCapacity
  codec : segment'.codec = segment.codec
  edgeCount : segment'.edgeCount = segment.edgeCount
  isSealed : segment'.isSealed = segment.isSealed
  isRepacked : segment'.isRepacked = segment.isRepacked
  oldest : segment'.oldest = segment.oldest
  newest : segment'.newest = segment.newest

variable {segment segment' : Segment} {edge edge' : Edge}

theorem create_pairs {id : Nat} {options : Options} (h : create id options = .ok segment) :
    segment.Pairs names segment := by
  obtain ⟨codec, index, pool, -, hindex, -, rfl, -⟩ := exists_of_create h
  exact ⟨NodeIndex.withPlacement_pairs hindex, NodeIndex.withPlacement_pairs hindex, rfl, rfl, rfl,
    rfl, rfl, rfl, rfl, rfl, rfl, rfl⟩

namespace Pairs

theorem shore (h : segment.Pairs names segment') (side : Side) :
    NodeIndex.Pairs names side (segment.shore side).index (segment'.shore side).index ∧
      (segment'.shore side).pool = (segment.shore side).pool := by
  cases side with
  | left => exact ⟨h.left, h.leftPool⟩
  | right => exact ⟨h.right, h.rightPool⟩

theorem sealed (h : segment.Pairs names segment') : segment.sealed.Pairs names segment'.sealed :=
  ⟨h.left, h.right, congrArg Pool.sealed h.leftPool, congrArg Pool.sealed h.rightPool, h.id,
    h.edgeCapacity, h.codec, h.edgeCount, rfl, h.isRepacked, h.oldest, h.newest⟩

theorem count (h : segment.Pairs names segment') : segment.count.Pairs names segment'.count := by
  have hcounted : Pairs names { segment with edgeCount := segment.edgeCount + 1 }
      { segment' with edgeCount := segment'.edgeCount + 1 } :=
    ⟨h.left, h.right, h.leftPool, h.rightPool, h.id, h.edgeCapacity, h.codec,
      congrArg (· + 1) h.edgeCount, h.isSealed, h.isRepacked, h.oldest, h.newest⟩
  unfold Segment.count
  dsimp only
  rw [h.edgeCapacity, h.edgeCount]
  rw [h.edgeCapacity, h.edgeCount] at hcounted
  split
  · exact hcounted.sealed
  · exact hcounted

theorem touch (h : segment.Pairs names segment') (time : Time) :
    (segment.touch time).Pairs names (segment'.touch time) :=
  ⟨h.left, h.right, h.leftPool, h.rightPool, h.id, h.edgeCapacity, h.codec, h.edgeCount, h.isSealed,
    h.isRepacked, congrArg (min · time) h.oldest, congrArg (max · time) h.newest⟩

theorem link (h : segment.Pairs names segment') (leftNumber rightNumber : Nat)
    (toRight toLeft : UInt32) :
    Lockstep (Pairs names) (segment.link leftNumber rightNumber toRight toLeft)
      (segment'.link leftNumber rightNumber toRight toLeft) := by
  unfold Segment.link
  dsimp only
  rw [h.leftPool, h.rightPool]
  generalize segment.left.pool.add leftNumber toRight = answer
  obtain ⟨leftPool, result⟩ := answer
  cases result with
  | error fault => exact ⟨⟨h.left, h.right, rfl, rfl, h.id, h.edgeCapacity, h.codec, h.edgeCount,
      h.isSealed, h.isRepacked, h.oldest, h.newest⟩, rfl⟩
  | ok _ =>
    dsimp only
    generalize segment.right.pool.add rightNumber toLeft = answer
    obtain ⟨rightPool, result⟩ := answer
    have hlinked : Pairs names
        { segment with
          left := ⟨segment.left.index, leftPool⟩
          right := ⟨segment.right.index, rightPool⟩ }
        { segment' with
          left := ⟨segment'.left.index, leftPool⟩
          right := ⟨segment'.right.index, rightPool⟩ } :=
      ⟨h.left, h.right, rfl, rfl, h.id, h.edgeCapacity, h.codec, h.edgeCount, h.isSealed,
        h.isRepacked, h.oldest, h.newest⟩
    cases result with
    | error fault => exact ⟨hlinked, rfl⟩
    | ok _ => exact ⟨hlinked.count, rfl⟩

theorem write (h : segment.Pairs names segment') (hedge : Edge.Pairs names edge edge') :
    Lockstep (Pairs names) (segment.write edge) (segment'.write edge') := by
  have hleft := h.left.intern hedge.left
  have hright := h.right.intern hedge.right
  unfold Segment.write
  dsimp only
  generalize segment.left.index.intern edge.left = answer at hleft
  generalize segment'.left.index.intern edge'.left = answer' at hleft
  obtain ⟨leftIndex, _⟩ := answer
  obtain ⟨leftIndex', result⟩ := answer'
  obtain ⟨hleftIndex, rfl⟩ := hleft
  cases result with
  | error fault => exact ⟨⟨hleftIndex, h.right, h.leftPool, h.rightPool, h.id, h.edgeCapacity,
      h.codec, h.edgeCount, h.isSealed, h.isRepacked, h.oldest, h.newest⟩, rfl⟩
  | ok leftNumber =>
    dsimp only
    generalize segment.right.index.intern edge.right = answer at hright
    generalize segment'.right.index.intern edge'.right = answer' at hright
    obtain ⟨rightIndex, _⟩ := answer
    obtain ⟨rightIndex', result⟩ := answer'
    obtain ⟨hrightIndex, rfl⟩ := hright
    have hnumbered : Pairs names
        { segment with
          left := ⟨leftIndex, segment.left.pool⟩
          right := ⟨rightIndex, segment.right.pool⟩ }
        { segment' with
          left := ⟨leftIndex', segment'.left.pool⟩
          right := ⟨rightIndex', segment'.right.pool⟩ } :=
      ⟨hleftIndex, hrightIndex, h.leftPool, h.rightPool, h.id, h.edgeCapacity, h.codec, h.edgeCount,
        h.isSealed, h.isRepacked, h.oldest, h.newest⟩
    cases result with
    | error fault => exact ⟨hnumbered, rfl⟩
    | ok rightNumber =>
      dsimp only
      rw [h.codec, hedge.kind, hedge.time]
      rw [h.codec] at hnumbered
      cases segment.codec.encode rightNumber edge.kind with
      | error fault => exact ⟨hnumbered, rfl⟩
      | ok toRight =>
        cases segment.codec.encode leftNumber edge.kind with
        | error fault => exact ⟨hnumbered, rfl⟩
        | ok toLeft =>
          exact (hnumbered.touch edge.time).link leftNumber rightNumber toRight toLeft

theorem verdict (h : segment.Pairs names segment') (hedge : Edge.Pairs names edge edge') :
    segment'.verdict edge' = segment.verdict edge := by
  -- the number that a node has or would get does not depend on its id
  have hprospect {side : Side} {shore shore' : Shore} {id id' : NodeId}
      (hindex : NodeIndex.Pairs names side shore.index shore'.index)
      (hid : names.Pairs side id id') :
      shore'.prospect segment.codec id' = shore.prospect segment.codec id := by
    unfold Shore.prospect
    rw [hindex.lookup hid, hindex.size, hindex.maxNodes]
  unfold Segment.verdict
  rw [h.codec, hedge.kind, hprospect h.left hedge.left, hprospect h.right hedge.right, h.leftPool,
    h.rightPool]

theorem add (h : segment.Pairs names segment') (hedge : Edge.Pairs names edge edge') :
    Lockstep (Pairs names) (segment.add edge) (segment'.add edge') := by
  unfold Segment.add
  rw [h.isSealed, h.edgeCapacity, h.edgeCount, h.id, h.verdict hedge]
  split
  · exact ⟨h, rfl⟩
  split
  · exact ⟨h.sealed, rfl⟩
  cases segment.verdict edge with
  | error fault => exact ⟨h, rfl⟩
  | ok _ => exact h.write hedge

/-! ### Reading -/

theorem entries (h : segment.Pairs names segment') {node node' : NodeId}
    (hnode : names.Pairs side node node') :
    (segment'.shore side).entries node' = (segment.shore side).entries node := by
  obtain ⟨hindex, hpool⟩ := h.shore side
  unfold Shore.entries
  rw [hindex.lookup hnode, hpool]

theorem degree (h : segment.Pairs names segment') {node node' : NodeId}
    (hnode : names.Pairs side node node') :
    segment'.degree node' side = segment.degree node side := by
  obtain ⟨hindex, hpool⟩ := h.shore side
  unfold Segment.degree Shore.degree
  rw [hindex.lookup hnode, hpool]

theorem neighbor? (h : segment.Pairs names segment') (side : Side) (packed : UInt32) :
    Option.Rel (Neighbor.Pairs names side.opposite) (segment.neighbor? side packed)
      (segment'.neighbor? side packed) := by
  have hexternal := (h.shore side.opposite).1.external (segment.codec.index packed)
  unfold Segment.neighbor?
  rw [h.codec, h.newest]
  generalize (segment.shore side.opposite).index.external (segment.codec.index packed) = node
    at hexternal
  generalize (segment'.shore side.opposite).index.external (segment.codec.index packed) = node'
    at hexternal
  cases hexternal with
  | none => exact .none
  | some hnode => exact .some ⟨hnode, rfl, rfl⟩

theorem neighbors (h : segment.Pairs names segment') {node node' : NodeId}
    (hnode : names.Pairs side node node') :
    List.Forall₂ (Neighbor.Pairs names side.opposite) (segment.neighbors node side)
      (segment'.neighbors node' side) := by
  unfold Segment.neighbors
  rw [h.entries hnode]
  have hsame := List.forall₂_same.mpr fun packed (_ : packed ∈
    ((segment.shore side).entries node).toList) => Eq.refl packed
  exact List.rel_filterMap (fun packed _ heq => heq ▸ h.neighbor? side packed) hsame

/-! ### Repacking -/

theorem repack (h : segment.Pairs names segment') :
    (∃ fault, segment.repack = .error fault ∧ segment'.repack = .error fault) ∨
    ∃ repacked repacked', segment.repack = .ok repacked ∧ segment'.repack = .ok repacked' ∧
      repacked.Pairs names repacked' := by
  unfold Segment.repack
  rw [h.isSealed, h.id, h.leftPool, h.rightPool]
  cases segment.isSealed with
  | false => exact .inl ⟨_, rfl, rfl⟩
  | true =>
    cases segment.left.pool.repack with
    | error fault => exact .inl ⟨fault, rfl, rfl⟩
    | ok leftPool =>
      cases segment.right.pool.repack with
      | error fault => exact .inl ⟨fault, rfl, rfl⟩
      | ok rightPool =>
        exact .inr ⟨_, _, rfl, rfl, h.left, h.right, rfl, rfl, rfl, h.edgeCapacity, h.codec,
          h.edgeCount, rfl, rfl, h.oldest, h.newest⟩

end Pairs

end Segment

end Slidewalk
