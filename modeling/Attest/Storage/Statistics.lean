import Attest.Library.DepthFirst
import Attest.Storage.LedgerOrder

/-! The statistics of a ledger, as `storage/causal_ledger.rs` counts them.

The chains are counted by marking the ancestors of each event that is not marked yet, in the
order in which the hash map of the events happens to be gone over; the leaves by taking the
number of the mentioned parents from the number of the events. `counts_iff` says when the first
is the number of components and the second the number of leaves, for one order, and
`counts_always_iff` when they are for each. -/
namespace Attest.Storage
open Library Library.Fallible Library.Kahn Library.DepthFirst
open Relation (reflTransGen_swap)
open Executor (fetchRecord buildRecord unnamed)

structure CausalLedgerStats where
  totalEvents : Nat
  totalChains : Nat
  rootEvents : Nat
  leafEvents : Nat
  avgChainLength : Nat
deriving DecidableEq

section Counting
variable (maps : LedgerMaps)

/-- The ids under which events are recorded. -/
def indexed : List String := maps.eventsIndex.keys

/-- Every id that is some event's parent, once. -/
def hasChildren : List String := (maps.dependencyGraph.entries.flatMap Prod.snd).dedup

/-- `count_chains`. No marking goes deeper than there are ids. -/
def countChains (listing : Listing (indexed maps)) : Except Fault Nat :=
  (sweep maps.parents (indexed maps ++ hasChildren maps).length listing.order).map Prod.snd

def countRootEvents : Nat :=
  (maps.eventsIndex.entries.filter fun entry => entry.2.causalParents.isEmpty).length

def countLeafEvents : Except Fault Nat :=
  if maps.eventsIndex.entries.length < (hasChildren maps).length then .error .underflow
  else .ok (maps.eventsIndex.entries.length - (hasChildren maps).length)

def getStatistics (listing : Listing (indexed maps)) : Except Fault CausalLedgerStats := do
  let totalEvents := maps.eventsIndex.entries.length
  let totalChains ← countChains maps listing
  let rootEvents := countRootEvents maps
  let leafEvents ← countLeafEvents maps
  return ⟨totalEvents, totalChains, rootEvents, leafEvents,
    if totalChains = 0 then 0 else totalEvents / totalChains⟩

end Counting

/-! ### What the numbers are to be -/

section Meaning
variable (maps : LedgerMaps)

/-- The recorded events that are no recorded event's parent. -/
def leaves : List String := (indexed maps).filter fun id => ∀ child ∈ indexed maps, id ∉ maps.parents child

/-- The statistics are given, and count components and leaves. -/
def CountsWhatItNames (listing : Listing (indexed maps)) : Prop :=
  ∃ stats, getStatistics maps listing = .ok stats ∧
    stats.totalChains = Nat.card (Component (indexed maps) maps.parents) ∧
    stats.leafEvents = (leaves maps).length

/-- Every event's parents are recorded too. -/
def ParentsRecorded : Prop := ∀ id ∈ indexed maps, ∀ parent ∈ maps.parents id, parent ∈ indexed maps

end Meaning

section Counted
variable {maps : LedgerMaps} {listing : Listing (indexed maps)}

theorem mem_indexed {id : String} : id ∈ indexed maps ↔ maps.eventsIndex.lookup id ≠ none := by
  rw [indexed, SortedMap.mem_keys, Option.ne_none_iff_exists']

theorem nodup_indexed : (indexed maps).Nodup := maps.eventsIndex.nodup_keys

theorem parents_of_not_indexed {id : String} (h : id ∉ indexed maps) : maps.parents id = [] :=
  LedgerMaps.parents_of_absent (not_not.mp (mt mem_indexed.mpr h))

theorem mem_hasChildren {parent : String} :
    parent ∈ hasChildren maps ↔ ∃ id ∈ indexed maps, parent ∈ maps.parents id := by
  rw [hasChildren, List.mem_dedup, List.mem_flatMap]
  constructor
  · intro h
    obtain ⟨⟨id, parents⟩, hentry, hparent⟩ := h
    have hlookup := SortedMap.lookup_eq_some.mpr hentry
    have hparents : maps.parents id = parents := by
      rw [LedgerMaps.parents, hlookup]
      rfl
    refine ⟨id, ?_, hparents ▸ hparent⟩
    by_contra hid
    rw [hparents.symm.trans (parents_of_not_indexed hid)] at hparent
    cases hparent
  · intro h
    obtain ⟨id, _, hparent⟩ := h
    rw [LedgerMaps.parents] at hparent
    cases hlookup : maps.dependencyGraph.lookup id with
    | none =>
      rw [hlookup] at hparent
      cases hparent
    | some parents =>
      rw [hlookup] at hparent
      exact ⟨(id, parents), SortedMap.lookup_eq_some.mp hlookup, hparent⟩

theorem perm_listing : listing.order.Perm (indexed maps) := by
  have hperm := listing.perm
  rwa [nodup_indexed.dedup] at hperm

theorem countChains_eq :
    countChains maps listing = .ok (starts maps.parents listing.order).length := by
  have hedges : ∀ id, ∀ parent ∈ maps.parents id, parent ∈ indexed maps ++ hasChildren maps := by
    intro id parent hparent
    refine List.mem_append_right _ (mem_hasChildren.mpr ⟨id, ?_, hparent⟩)
    by_contra hid
    rw [parents_of_not_indexed hid] at hparent
    cases hparent
  have horder : ∀ id ∈ listing.order, id ∈ indexed maps ++ hasChildren maps := by
    intro id hid
    exact List.mem_append_left _ (perm_listing.mem_iff.mp hid)
  obtain ⟨marked, hsweep, _⟩ := sweep_eq hedges horder le_rfl
  rw [countChains, hsweep]
  rfl

/-- The events are leaves, or they are mentioned as parents. -/
theorem length_leaves : (leaves maps).length +
    ((hasChildren maps).filter (· ∈ indexed maps)).length = (indexed maps).length := by
  have hleaves : leaves maps = (indexed maps).filter fun id => !decide (id ∈ hasChildren maps) := by
    refine List.filter_congr ?_
    intro id _
    rw [← decide_not, decide_eq_decide, mem_hasChildren]
    exact ⟨fun h hfound => hfound.elim fun child hchild => h child hchild.1 hchild.2,
      fun h child hchild hparent => h ⟨child, hchild, hparent⟩⟩
  have hmentioned : ((hasChildren maps).filter (· ∈ indexed maps)).Perm
      ((indexed maps).filter (· ∈ hasChildren maps)) := by
    have hnodup : (hasChildren maps).Nodup := List.nodup_dedup _
    refine (List.perm_ext_iff_of_nodup (hnodup.filter _) (nodup_indexed.filter _)).mpr ?_
    intro id
    simp only [List.mem_filter, decide_eq_true_eq, and_comm]
  rw [hleaves, hmentioned.length_eq, Nat.add_comm]
  exact (List.length_eq_length_filter_add fun id => decide (id ∈ hasChildren maps)).symm

/-- The number of leaves is right when no parent is missing; otherwise it is too small, and where
more are missing than there are leaves the subtraction fails. -/
theorem countLeafEvents_iff :
    countLeafEvents maps = .ok (leaves maps).length ↔ ParentsRecorded maps := by
  have htotal : maps.eventsIndex.entries.length = (indexed maps).length := (List.length_map _).symm
  have hsum := @length_leaves maps
  have hle := List.length_filter_le (· ∈ indexed maps) (hasChildren maps)
  have hall : ((hasChildren maps).filter (· ∈ indexed maps)).length = (hasChildren maps).length ↔
      ParentsRecorded maps := by
    rw [List.length_filter_eq_length_iff]
    simp only [mem_hasChildren, decide_eq_true_eq, ParentsRecorded]
    exact ⟨fun h id hid parent hparent => h parent ⟨id, hid, hparent⟩,
      fun h parent hfound => hfound.elim fun id hid => h id hid.1 parent hid.2⟩
  rw [← hall, countLeafEvents, htotal]
  split
  next hlt =>
    constructor
    · intro h
      cases h
    · intro h
      omega
  next hnot =>
    rw [Except.ok.injEq]
    omega

theorem getStatistics_eq : getStatistics maps listing =
    (countLeafEvents maps).map fun leafEvents =>
      ⟨maps.eventsIndex.entries.length, (starts maps.parents listing.order).length,
        countRootEvents maps, leafEvents,
        if (starts maps.parents listing.order).length = 0 then 0
        else maps.eventsIndex.entries.length / (starts maps.parents listing.order).length⟩ := by
  rw [getStatistics, countChains_eq]
  cases countLeafEvents maps with
  | error fault => rfl
  | ok leafEvents => rfl

theorem counts_iff : CountsWhatItNames maps listing ↔
    ParentsRecorded maps ∧ Leads (indexed maps) maps.parents listing.order := by
  rw [← countLeafEvents_iff, ← length_starts_iff (fun _ => parents_of_not_indexed) perm_listing
    nodup_indexed, CountsWhatItNames, getStatistics_eq]
  constructor
  · intro h
    obtain ⟨stats, hstats, hchains, hleaves⟩ := h
    cases hcount : countLeafEvents maps with
    | error fault =>
      rw [hcount] at hstats
      cases hstats
    | ok leafEvents =>
      rw [hcount] at hstats
      cases hstats
      exact ⟨congrArg Except.ok hleaves, hchains⟩
  · intro h
    rw [h.1]
    exact ⟨_, rfl, h.2, rfl⟩

theorem counts_always_iff : (∀ listing : Listing (indexed maps), CountsWhatItNames maps listing) ↔
    ∀ id ∈ indexed maps, ∀ parent ∈ maps.parents id,
      parent ∈ indexed maps ∧ Reach maps.parents parent id := by
  have hlisting : ∀ order : List String, order.Perm (indexed maps) →
      order.Perm (indexed maps).dedup := by
    intro order horder
    rwa [nodup_indexed.dedup]
  constructor
  · intro h id hid parent hparent
    have hrecorded := (counts_iff.mp (h ⟨indexed maps, hlisting _ (List.Perm.refl _)⟩)).1
    refine ⟨hrecorded id hid parent hparent, ?_⟩
    refine leads_iff.mp ?_ id hid parent hparent (hrecorded id hid parent hparent)
    intro order horder
    exact (counts_iff.mp (h ⟨order, hlisting order horder⟩)).2
  · intro h listing
    refine counts_iff.mpr ⟨fun id hid parent hparent => (h id hid parent hparent).1, ?_⟩
    refine leads_iff.mpr ?_ listing.order perm_listing
    intro id hid parent hparent _
    exact (h id hid parent hparent).2

/-- Where parents go round in no circle, as they do not among events that are named by what they
commit to, the numbers are right for each order only when no event has parents at all. -/
theorem counts_always_of_acyclic (h : TopologicalSort.Acyclic maps.parents) :
    (∀ listing : Listing (indexed maps), CountsWhatItNames maps listing) ↔
      ∀ id, maps.parents id = [] := by
  rw [counts_always_iff]
  constructor
  · intro hback id
    by_contra hne
    obtain ⟨parent, hparent⟩ := List.exists_mem_of_ne_nil _ hne
    have hid : id ∈ indexed maps := by
      by_contra hnot
      exact hne (parents_of_not_indexed hnot)
    exact h id (.tail' (reflTransGen_swap.mp (hback id hid parent hparent).2) hparent)
  · intro hnone id _ parent hparent
    rw [hnone] at hparent
    cases hparent

end Counted

/-- **When the statistics count what they name.** For one order of the events: when every parent
is recorded and the first event of each component in this order leads to all of it. For each
order: when every parent is recorded and leads back to its child. -/
theorem statistics_iff (maps : LedgerMaps) :
    (∀ listing : Listing (indexed maps), CountsWhatItNames maps listing ↔
      ParentsRecorded maps ∧ Leads (indexed maps) maps.parents listing.order) ∧
    ((∀ listing : Listing (indexed maps), CountsWhatItNames maps listing) ↔
      ∀ id ∈ indexed maps, ∀ parent ∈ maps.parents id,
        parent ∈ indexed maps ∧ Reach maps.parents parent id) :=
  ⟨fun _ => counts_iff, counts_always_iff⟩

/-! ### Numbers that are not what they name -/

/-- Two events in one component. -/
def linkedMaps : LedgerMaps := (LedgerMaps.empty.insert fetchRecord).insert buildRecord

theorem indexed_linkedMaps : indexed linkedMaps = [fetchRecord.eventId, buildRecord.eventId] := by
  decide +kernel

def parentFirst : Listing (indexed linkedMaps) :=
  ⟨[fetchRecord.eventId, buildRecord.eventId],
    perm_dedup (SortedMap.nodup_keys _) (.of_eq indexed_linkedMaps.symm)⟩

def childFirst : Listing (indexed linkedMaps) :=
  ⟨[buildRecord.eventId, fetchRecord.eventId],
    perm_dedup (SortedMap.nodup_keys _)
      ((List.Perm.swap ..).trans (.of_eq indexed_linkedMaps.symm))⟩

/-- An event that follows both. -/
def packRecord : CausalEvent :=
  { unnamed buildRecord with
    stepName := "pack"
    causalParents := [fetchRecord.eventId, buildRecord.eventId]
    eventId := "7e2d7c7470a735a9610fbc244b1639c62d5c14115486c39d3410d2c88cd270e8" }

/-- A copy of a ledger with only its last event. -/
def partialMaps : LedgerMaps := LedgerMaps.empty.insert packRecord

def packAlone : Listing (indexed partialMaps) := ⟨[packRecord.eventId], perm_dedup (SortedMap.nodup_keys _) (List.Perm.refl _)⟩

theorem card_component_linked :
    Nat.card (Component (indexed linkedMaps) linkedMaps.parents) = 1 := by
  have hfetch : fetchRecord.eventId ∈ indexed linkedMaps := by
    rw [indexed_linkedMaps]
    exact List.mem_cons_self
  have hall : ∀ id ∈ indexed linkedMaps,
      id = fetchRecord.eventId ∨ fetchRecord.eventId ∈ linkedMaps.parents id := by
    rw [indexed_linkedMaps]
    decide +kernel
  have hone : ∀ q : Component (indexed linkedMaps) linkedMaps.parents,
      q = componentOf linkedMaps.parents ⟨fetchRecord.eventId, hfetch⟩ := by
    intro q
    obtain ⟨⟨id, hid⟩, rfl⟩ := Quot.exists_rep q
    rcases hall id hid with heq | hparent
    · subst heq
      rfl
    · exact Quot.sound hparent
  rw [Nat.card_eq_one_iff_unique]
  exact ⟨⟨fun q q' => (hone q).trans (hone q').symm⟩, ⟨componentOf _ ⟨_, hfetch⟩⟩⟩

/-- One component counts as two chains when the parent comes first, and as one when the child
does. The last event of a copy is a leaf, and the statistics of the copy are not given. -/
theorem statistics_miscount :
    getStatistics linkedMaps parentFirst = .ok ⟨2, 2, 1, 1, 1⟩ ∧
      getStatistics linkedMaps childFirst = .ok ⟨2, 1, 1, 1, 2⟩ ∧
      Nat.card (Component (indexed linkedMaps) linkedMaps.parents) = 1 ∧
      getStatistics partialMaps packAlone = .error .underflow ∧
      leaves partialMaps = [packRecord.eventId] := by
  refine ⟨?_, ?_, card_component_linked, ?_, ?_⟩
  · decide +kernel
  · decide +kernel
  · decide +kernel
  · decide +kernel

end Attest.Storage
