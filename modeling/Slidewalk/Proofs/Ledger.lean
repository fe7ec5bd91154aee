import Slidewalk.Proofs.Bucket
import Slidewalk.Proofs.Run

/-!
# What a window stands for

A ledger lists the buckets of all segments ever opened, those that left the window and those that
are in it. It does what a graph does with nothing but lists of edges.
-/

namespace Slidewalk

structure Ledger where
  /-- The buckets that left the window, oldest first. -/
  dropped : List Bucket
  window : List Bucket
  /-- Whether the newest bucket takes edges. -/
  isOpen : Bool

namespace Ledger

def empty : Ledger := { dropped := [], window := [], isOpen := false }

def buckets (ledger : Ledger) : List Bucket := ledger.dropped ++ ledger.window

def newest (ledger : Ledger) : Bucket := ledger.window.getLastD []

/-- The buckets of the window that take no more edges. -/
def settled (ledger : Ledger) : List Bucket :=
  if ledger.isOpen then ledger.window.dropLast else ledger.window

/-- Opens a bucket if none is open, and drops the oldest ones beyond the limit. -/
def opened (limits : Limits) (ledger : Ledger) : Ledger :=
  if ledger.isOpen then ledger
  else
    -- the new bucket counts towards the limit, so a full window loses its oldest one
    let window := ledger.window ++ [[]]
    let excess := window.length - limits.maxSegments
    { dropped := ledger.dropped ++ window.take excess
      window := window.drop excess
      isOpen := true }

/-- Puts an edge into the newest bucket, which closes when it is full. -/
def append (limits : Limits) (ledger : Ledger) (edge : Edge) : Ledger :=
  { ledger with
    window := ledger.window.dropLast ++ [ledger.newest ++ [edge]]
    isOpen := !decide (limits.segmentEdgeCapacity ≤ ledger.newest.length + 1) }

/-- The ledger once an edge was offered to its newest bucket. -/
def offered (limits : Limits) (ledger : Ledger) (edge : Edge) : Except Fault Unit → Ledger
  | .ok () => ledger.append limits edge
  | .error _ => ledger

def add (limits : Limits) (maxKind : EdgeType) (ledger : Ledger) (edge : Edge) :
    Ledger × Except Fault Unit :=
  let opened := ledger.opened limits
  let result := opened.newest.verdict limits maxKind edge
  (opened.offered limits edge result, result)

/-- Closes the newest bucket if it is open and not empty; says whether it did. -/
def sealCurrent (ledger : Ledger) : Ledger × Bool :=
  if ledger.isOpen ∧ ledger.newest ≠ [] then ({ ledger with isOpen := false }, true)
  else (ledger, false)

/-- The ledger after a run, and what is answered to operations that can change it. -/
def run (limits : Limits) (maxKind : EdgeType) (ledger : Ledger) :
    List Operation → Ledger × List Answer
  | [] => (ledger, [])
  | .add edge :: rest =>
      let (ledger, result) := ledger.add limits maxKind edge
      let (ledger, answers) := ledger.run limits maxKind rest
      (ledger, .added result :: answers)
  | .sealCurrent :: rest =>
      let (ledger, changed) := ledger.sealCurrent
      let (ledger, answers) := ledger.run limits maxKind rest
      (ledger, .sealed changed :: answers)
  | .optimizeSealed :: rest => ledger.run limits maxKind rest

theorem run_filter (limits : Limits) (maxKind : EdgeType) (ledger : Ledger)
    (operations : List Operation) :
    ledger.run limits maxKind (operations.filter (!·.isMaintenance)) =
      ledger.run limits maxKind operations := by
  induction operations generalizing ledger with
  | nil => rfl
  | cons operation rest ih =>
    cases operation with
    | add edge =>
      show ledger.run limits maxKind (.add edge :: rest.filter _) = _
      simp only [run, ih]
    | sealCurrent =>
      show ledger.run limits maxKind (.sealCurrent :: rest.filter _) = _
      simp only [run, ih]
    | optimizeSealed => exact ih ledger

/-! ## Reading -/

def neighbors (ledger : Ledger) (node : NodeId) (side : Side) : List Neighbor :=
  ledger.window.flatMap (·.neighbors node side)

/-- Whether a time range reaches a point in time. -/
def reaches (time : Time) : Option (Time × Time) → Bool
  | some (_, newest) => time ≤ newest
  | none => false

def neighborsSince (ledger : Ledger) (node : NodeId) (side : Side) (time : Time) :
    List Neighbor :=
  (ledger.window.filter fun bucket => reaches time bucket.timeRange).flatMap (·.neighbors node side)

def degree (ledger : Ledger) (node : NodeId) (side : Side) : Nat :=
  total (·.degree node side) ledger.window

def edgeCount (ledger : Ledger) : Nat := total List.length ledger.window

def timeRange (ledger : Ledger) : Option (Time × Time) :=
  ledger.window.foldl (fun range bucket => View.joinRanges range bucket.timeRange) none

/-! ## Invariant -/

/-- What every operation keeps: the window is not too long, an open bucket is there and has room,
and no other bucket is empty. -/
structure Valid (limits : Limits) (ledger : Ledger) : Prop where
  length_le : ledger.window.length ≤ limits.maxSegments
  open_ne_nil : ledger.isOpen = true → ledger.window ≠ []
  room : ledger.isOpen = true → ledger.newest.length < limits.segmentEdgeCapacity
  settled_ne_nil : ∀ bucket ∈ ledger.settled, bucket ≠ []

variable {limits : Limits} {ledger : Ledger}

theorem empty_valid (limits : Limits) : empty.Valid limits := by
  refine ⟨by simp [empty], ?_, ?_, ?_⟩
  · intro hopen
    contradiction
  · intro hopen
    contradiction
  · intro bucket hbucket
    contradiction

theorem window_eq (hwindow : ledger.window ≠ []) :
    ledger.window = ledger.window.dropLast ++ [ledger.newest] := by
  rw [newest, List.getLastD_eq_getLast?, List.getLast?_eq_some_getLast hwindow, Option.getD_some,
    List.dropLast_concat_getLast]

theorem opened_of_open (hopen : ledger.isOpen = true) : ledger.opened limits = ledger := by
  rw [opened, if_pos hopen]

theorem isOpen_opened (limits : Limits) (ledger : Ledger) :
    (ledger.opened limits).isOpen = true := by
  unfold opened
  split
  · assumption
  · rfl

theorem buckets_opened (hopen : ledger.isOpen = false) :
    (ledger.opened limits).buckets = ledger.buckets ++ [[]] := by
  rw [opened, hopen, if_neg (by decide)]
  dsimp only [buckets]
  rw [List.append_assoc, List.take_append_drop, List.append_assoc]

theorem window_opened_eq (hopen : ledger.isOpen = false) (hpos : 0 < limits.maxSegments) :
    (ledger.opened limits).window =
      ledger.window.drop (ledger.window.length + 1 - limits.maxSegments) ++ [[]] := by
  rw [opened, hopen, if_neg (by decide)]
  dsimp only
  rw [List.length_append, List.length_singleton, List.drop_append_of_le_length (by omega)]

theorem opened_valid (h : ledger.Valid limits) (hpos : 0 < limits.maxSegments)
    (hroom : 0 < limits.segmentEdgeCapacity) : (ledger.opened limits).Valid limits := by
  cases hopen : ledger.isOpen with
  | true =>
    rw [opened_of_open hopen]
    exact h
  | false =>
    have hwindow := window_opened_eq hopen hpos
    have hlength := h.length_le
    refine ⟨?_, ?_, ?_, ?_⟩
    · rw [hwindow, List.length_append, List.length_drop, List.length_singleton]
      omega
    · intro _
      rw [hwindow]
      simp
    -- the newest bucket is empty and the capacity is not zero
    · intro _
      rw [newest, hwindow, List.getLastD_concat]
      exact hroom
    · intro bucket hbucket
      -- the settled buckets are what is left of a window that was settled as a whole
      rw [settled, isOpen_opened, if_pos rfl, hwindow, List.dropLast_concat] at hbucket
      apply h.settled_ne_nil
      rw [settled, hopen, if_neg (by decide)]
      exact List.mem_of_mem_drop hbucket

theorem append_valid (h : ledger.Valid limits) (hopen : ledger.isOpen = true) (edge : Edge) :
    (ledger.append limits edge).Valid limits := by
  have hwindow := window_eq (h.open_ne_nil hopen)
  have hlength : ledger.window.length = ledger.window.dropLast.length + 1 := by
    rw [congrArg List.length hwindow, List.length_append, List.length_singleton]
  have hold : ∀ bucket ∈ ledger.window.dropLast, bucket ≠ [] := by
    have hsettled := h.settled_ne_nil
    rw [settled, if_pos hopen] at hsettled
    exact hsettled
  refine ⟨?_, ?_, ?_, ?_⟩
  · show (ledger.window.dropLast ++ [_]).length ≤ _
    rw [List.length_append, List.length_singleton, ← hlength]
    exact h.length_le
  · intro _
    show ledger.window.dropLast ++ [_] ≠ []
    simp
  · intro hstill
    have hroom : ¬limits.segmentEdgeCapacity ≤ ledger.newest.length + 1 := by
      simpa [append] using hstill
    show ((ledger.window.dropLast ++ [_]).getLastD []).length < _
    rw [List.getLastD_concat, List.length_append, List.length_singleton]
    omega
  · intro bucket hbucket
    have hmem : bucket ∈ ledger.window.dropLast ++ [ledger.newest ++ [edge]] := by
      unfold settled at hbucket
      split at hbucket
      · exact List.dropLast_subset _ hbucket
      · exact hbucket
    -- full or not, every bucket is an old one or the one that has just got an edge
    rcases List.mem_append.mp hmem with hmem | hmem
    · exact hold bucket hmem
    · rw [List.mem_singleton.mp hmem]
      simp

theorem close_valid (h : ledger.Valid limits) (hnewest : ledger.newest ≠ []) :
    Valid limits { ledger with isOpen := false } := by
  refine ⟨h.length_le, ?_, ?_, ?_⟩
  · intro hopen
    contradiction
  · intro hopen
    contradiction
  · intro bucket hbucket
    have hbucket : bucket ∈ ledger.window := hbucket
    cases hopen : ledger.isOpen with
    | false =>
      apply h.settled_ne_nil
      rw [settled, hopen, if_neg (by decide)]
      exact hbucket
    -- the bucket that is closed joins the settled ones, and it is not empty
    | true =>
      rw [window_eq (h.open_ne_nil hopen)] at hbucket
      rcases List.mem_append.mp hbucket with hmem | hmem
      · apply h.settled_ne_nil
        rw [settled, if_pos hopen]
        exact hmem
      · rw [List.mem_singleton.mp hmem]
        exact hnewest

end Ledger

end Slidewalk
