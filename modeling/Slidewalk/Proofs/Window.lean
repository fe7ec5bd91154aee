import Slidewalk.Proofs.Ledger
import Slidewalk.Proofs.Segment

/-!
# A graph follows its ledger

`Follows` relates a graph to the ledger it stands for: each segment that was ever opened, as written
and as repacked, keeps the bucket under its id, and the window lists the last of them in order.
Repacking changes neither what is kept nor what is listed.
-/

namespace Slidewalk

/-- Whether the bucket under an id takes no more edges. -/
def Ledger.isSealed (ledger : Ledger) (id : Nat) : Bool :=
  !(ledger.isOpen && id + 1 == ledger.buckets.length)

/-- Both versions of a segment keep a bucket, and only a sealed segment has been repacked. -/
structure Holding.Records (limits : Limits) (codec : EdgeCodec) (id : Nat) (isSealed : Bool)
    (bucket : Bucket) (holding : Holding) : Prop where
  written : holding.written.Records limits codec bucket
  id_eq : holding.written.id = id
  isSealed_eq : holding.written.isSealed = isSealed
  repacked : ∀ segment, holding.repacked = some segment →
    segment.Records limits codec bucket ∧ segment.id = id ∧ segment.isSealed = true ∧
      isSealed = true

/-- What a listed segment shows of a ledger: the bucket under its id. -/
structure Segment.Shows (limits : Limits) (codec : EdgeCodec) (ledger : Ledger)
    (segment : Segment) (entry : Bucket × Nat) : Prop where
  records : segment.Records limits codec entry.1
  id_eq : segment.id = entry.2
  isSealed_eq : segment.isSealed = ledger.isSealed entry.2

namespace Graph

variable {options : Options} {codec : EdgeCodec} {ledger : Ledger} {graph : Graph}

/-- A version that is listed as repacked has been repacked. -/
def Keeps (graph : Graph) (version : Version) : Prop :=
  version.repacked = true → ∃ holding segment, graph.holdings[version.segment]? = some holding ∧
    holding.repacked = some segment

structure Follows (options : Options) (codec : EdgeCodec) (ledger : Ledger) (graph : Graph) :
    Prop where
  options_eq : graph.options = options
  valid : ledger.Valid options.limits
  size : graph.holdings.size = ledger.buckets.length
  holdings : ∀ (id : Nat) (holding : Holding) (bucket : Bucket),
    graph.holdings[id]? = some holding → ledger.buckets[id]? = some bucket →
    holding.Records options.limits codec id (ledger.isSealed id) bucket
  window : graph.window.map (·.segment) =
    List.range' ledger.dropped.length ledger.window.length
  listed : ∀ version ∈ graph.window, graph.Keeps version

/-! ## Reading -/

namespace Follows

theorem exists_holding (h : graph.Follows options codec ledger) {id : Nat}
    (hlt : id < ledger.buckets.length) : ∃ holding, graph.holdings[id]? = some holding :=
  ⟨_, Array.getElem?_eq_getElem (h.size ▸ hlt)⟩

theorem segment?_eq (h : graph.Follows options codec ledger) {version : Version} {bucket : Bucket}
    (hkeeps : graph.Keeps version) (hbucket : ledger.buckets[version.segment]? = some bucket) :
    ∃ segment, graph.segment? version = some segment ∧
      segment.Shows options.limits codec ledger (bucket, version.segment) := by
  obtain ⟨holding, hholding⟩ := h.exists_holding (List.getElem?_eq_some_iff.mp hbucket).1
  have hrecords := h.holdings _ _ _ hholding hbucket
  unfold segment?
  rw [hholding]
  cases hversion : version.repacked with
  | false => exact ⟨_, rfl, hrecords.written, hrecords.id_eq, hrecords.isSealed_eq⟩
  -- only sealed segments are repacked, so both versions are sealed
  | true =>
    obtain ⟨kept, segment, hkept, hsegment⟩ := hkeeps hversion
    obtain rfl := Option.some.inj (hholding.symm.trans hkept)
    obtain ⟨hsame, hid, hsealed, hledger⟩ := hrecords.repacked segment hsegment
    exact ⟨segment, hsegment, hsame, hid, hsealed.trans hledger.symm⟩

theorem length_window (h : graph.Follows options codec ledger) :
    graph.window.length = ledger.window.length := by
  rw [← List.length_map (·.segment), h.window, List.length_range']

theorem getElem_window (h : graph.Follows options codec ledger) {i : Nat}
    (hi : i < graph.window.length) : graph.window[i].segment = ledger.dropped.length + i := by
  have hmap : (graph.window.map (·.segment))[i]? = some (ledger.dropped.length + 1 * i) := by
    rw [h.window, List.getElem?_range' (by rw [← h.length_window]; exact hi)]
  rw [List.getElem?_map, List.getElem?_eq_getElem hi, Option.map_some, Nat.one_mul] at hmap
  exact Option.some.inj hmap

theorem segment_lt (h : graph.Follows options codec ledger) {version : Version}
    (hversion : version ∈ graph.window) : version.segment < ledger.buckets.length := by
  have hmem : version.segment ∈ graph.window.map (·.segment) := List.mem_map_of_mem hversion
  rw [h.window, List.mem_range'_1] at hmem
  rw [Ledger.buckets, List.length_append]
  omega

/-- The listed segments show the buckets of the window, each under its id. -/
theorem shows (h : graph.Follows options codec ledger) :
    List.Forall₂ (Segment.Shows options.limits codec ledger) graph.view.segments
      (ledger.window.zipIdx ledger.dropped.length) := by
  have hshown : List.Forall₂ (fun version entry => ∃ segment,
      graph.segment? version = some segment ∧ segment.Shows options.limits codec ledger entry)
      graph.window (ledger.window.zipIdx ledger.dropped.length) := by
    rw [List.forall₂_iff_get]
    refine ⟨by rw [List.length_zipIdx, h.length_window], fun i hi hentry => ?_⟩
    have hlt : i < ledger.window.length := by rw [← h.length_window]; exact hi
    have hsegment := h.getElem_window hi
    -- the i-th listed id counts on from the buckets that have left
    have hbucket : ledger.buckets[graph.window[i].segment]? = some ledger.window[i] := by
      rw [hsegment, Ledger.buckets, List.getElem?_append_right (by omega), Nat.add_sub_cancel_left,
        List.getElem?_eq_getElem hlt]
    have hfound := h.segment?_eq (h.listed _ (List.getElem_mem hi)) hbucket
    rw [List.get_eq_getElem, List.get_eq_getElem, List.getElem_zipIdx]
    rw [hsegment] at hfound
    exact hfound
  exact forall₂_filterMap hshown

/-! ## Rearranging -/

theorem recount (h : graph.Follows options codec ledger) (counters : Counters) :
    Follows options codec ledger { graph with counters } :=
  ⟨h.options_eq, h.valid, h.size, h.holdings, h.window, h.listed⟩

/-- The window may list other versions of the same segments. -/
theorem relist (h : graph.Follows options codec ledger) {window : List Version}
    (hids : window.map (·.segment) = graph.window.map (·.segment))
    (hlisted : ∀ version ∈ window, graph.Keeps version) :
    Follows options codec ledger { graph with window } :=
  ⟨h.options_eq, h.valid, h.size, h.holdings, hids.trans h.window, hlisted⟩

end Follows

theorem keeps_keepRepacked {version : Version} (h : graph.Keeps version) (id : Nat)
    (segment : Segment) : (graph.keepRepacked id segment).Keeps version := by
  intro hrepacked
  obtain ⟨holding, kept, hholding, hkept⟩ := h hrepacked
  unfold keepRepacked
  dsimp only
  rw [Array.getElem?_modify, hholding]
  split
  · exact ⟨_, segment, rfl, rfl⟩
  · exact ⟨holding, kept, rfl, hkept⟩

theorem Follows.keepRepacked (h : graph.Follows options codec ledger) {id : Nat} {bucket : Bucket}
    {segment : Segment} (hbucket : ledger.buckets[id]? = some bucket)
    (hshows : segment.Shows options.limits codec ledger (bucket, id))
    (hsealed : segment.isSealed = true) :
    (graph.keepRepacked id segment).Follows options codec ledger := by
  refine ⟨h.options_eq, h.valid, ?_, ?_, h.window, fun version hversion =>
    keeps_keepRepacked (h.listed version hversion) id segment⟩
  · show (graph.holdings.modify id _).size = _
    rw [Array.size_modify]
    exact h.size
  · intro other holding found hholding hfound
    unfold Graph.keepRepacked at hholding
    dsimp only at hholding
    rw [Array.getElem?_modify] at hholding
    split at hholding
    · rename_i hsame
      subst hsame
      obtain ⟨old, hold, rfl⟩ := Option.map_eq_some_iff.mp hholding
      obtain rfl := Option.some.inj (hbucket.symm.trans hfound)
      have hrecords := h.holdings _ _ _ hold hbucket
      -- the segment as written is not touched
      refine ⟨hrecords.written, hrecords.id_eq, hrecords.isSealed_eq, ?_⟩
      intro kept hkept
      obtain rfl := Option.some.inj hkept
      exact ⟨hshows.records, hshows.id_eq, hsealed, hshows.isSealed_eq.symm.trans hsealed⟩
    · exact h.holdings _ _ _ hholding hfound

end Graph

end Slidewalk
