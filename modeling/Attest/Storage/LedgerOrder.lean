import Attest.Library.Kahn
import Attest.Storage.CausalPaths

/-! The order of causal events, as `storage/causal_ledger.rs` sorts them.

The ledger keeps two maps in step: the events by their ids, and the parents of each. The sort
lists the events of a request after the parents that are requested too. It keeps its degrees and
edges in hash maps, starts from the events without open parents in the order in which one of
these maps happens to be gone over, and takes the event it queued last.
`topological_sort_events_correct` holds for each such order. -/
namespace Attest.Storage
open Library Library.Fallible Library.Kahn Library.TopologicalSort

/-! ### The maps of a ledger -/

/-- `events_index` and `dependency_graph`. -/
structure LedgerMaps where
  eventsIndex : SortedMap String CausalEvent
  dependencyGraph : SortedMap String (List String)
  agree : ∀ id, dependencyGraph.lookup id = (eventsIndex.lookup id).map CausalEvent.causalParents
  named : ∀ id event, eventsIndex.lookup id = some event → event.eventId = id

namespace LedgerMaps

def empty : LedgerMaps where
  eventsIndex := SortedMap.empty
  dependencyGraph := SortedMap.empty
  agree _ := rfl
  named := by
    intro id event h
    cases h

/-- What recording an event and loading one do to both maps. -/
def insert (maps : LedgerMaps) (event : CausalEvent) : LedgerMaps where
  eventsIndex := maps.eventsIndex.insert event.eventId event
  dependencyGraph := maps.dependencyGraph.insert event.eventId event.causalParents
  agree := by
    intro id
    rw [SortedMap.lookup_insert, SortedMap.lookup_insert]
    split
    next => rfl
    next => exact maps.agree id
  named := by
    intro id found h
    rw [SortedMap.lookup_insert] at h
    split at h
    next hid =>
      cases h
      exact hid.symm
    next => exact maps.named id found h

/-- The parents of an event; what is not in the ledger has none. -/
def parents (maps : LedgerMaps) (id : String) : List String :=
  (maps.dependencyGraph.lookup id).getD []

theorem parents_eq (maps : LedgerMaps) (id : String) :
    maps.parents id = parentsOf maps.eventsIndex id := by
  rw [parents, maps.agree, parentsOf]
  cases maps.eventsIndex.lookup id with
  | none => rfl
  | some event => rfl

theorem parents_of_absent {maps : LedgerMaps} {id : String} (h : maps.eventsIndex.lookup id = none) :
    maps.parents id = [] := by
  rw [parents_eq, parentsOf, h]
  rfl

end LedgerMaps

/-! ### The sort -/

section Algorithm
variable (maps : LedgerMaps) (ids : List String)

/-- The edges in the order in which the loops put them in: from a parent that is requested to
each event. -/
def listedEdges : List (String × String) :=
  ids.flatMap fun id => ((maps.parents id).filter (· ∈ ids)).map fun parent => (parent, id)

def connect (tables : Tables String) (edge : String × String) : Except Fault (Tables String) := do
  let edges ← modify "`parent` was inserted into `graph` above since it is in event_ids"
    (· ++ [edge.2]) tables.edges edge.1
  let degree ← modify "`event_id` was inserted into `in_degree` above" (· + 1) tables.degree edge.2
  return ⟨degree, edges⟩

/-- `topological_sort_events`, with the order in which `in_degree` is gone over. -/
def topologicalSortEvents (listing : Listing ids) : Except Fault (Except String (List String)) := do
  let tables ← (listedEdges maps ids).foldlM connect (emptyTables ids)
  let queue := readyNodes tables.degree listing.order
  let result ←
    run "`neighbor` is always present in `in_degree`, built from the same event_ids" popBack
      tables.edges ids.length [] ⟨queue, tables.degree⟩
  return if result.length ≠ ids.length then
    .error "Circular dependency detected in causal events"
  else .ok result

/-- The parents of a requested event that are requested too. -/
def listedParents (id : String) : List String :=
  if id ∈ ids then (maps.parents id).filter (· ∈ ids) else []

end Algorithm

section Sorted
variable {maps : LedgerMaps} {ids : List String}

theorem mem_listedEdges {parent id : String} :
    (parent, id) ∈ listedEdges maps ids ↔ id ∈ ids ∧ parent ∈ ids ∧ parent ∈ maps.parents id := by
  simp only [listedEdges, List.mem_flatMap, List.mem_map, List.mem_filter, decide_eq_true_eq,
    Prod.mk.injEq]
  constructor
  · intro h
    obtain ⟨event, hevent, found, ⟨hparent, hlisted⟩, rfl, rfl⟩ := h
    exact ⟨hevent, hlisted, hparent⟩
  · intro h
    obtain ⟨hid, hlisted, hparent⟩ := h
    exact ⟨id, hid, parent, ⟨hparent, hlisted⟩, rfl, rfl⟩

theorem mem_listedParents {parent id : String} :
    parent ∈ listedParents maps ids id ↔ id ∈ ids ∧ parent ∈ ids ∧ parent ∈ maps.parents id := by
  unfold listedParents
  split
  next h => simp [h, and_comm]
  next h => simp [h]

theorem listed_edges : ∀ edge ∈ listedEdges maps ids, edge.1 ∈ ids ∧ edge.2 ∈ ids := by
  intro edge hedge
  obtain ⟨hid, hparent, _⟩ := mem_listedEdges.mp hedge
  exact ⟨hparent, hid⟩

/-- The edges to an event come from its parents. -/
theorem mem_sources_listed {parent id : String} :
    parent ∈ sources (listedEdges maps ids) id ↔ parent ∈ listedParents maps ids id := by
  rw [mem_sources, mem_listedEdges, mem_listedParents]

theorem ordered_listed {result : List String} :
    Ordered (sources (listedEdges maps ids)) result ↔ Ordered (listedParents maps ids) result := by
  simp only [Ordered, mem_sources_listed]

theorem acyclic_listed :
    Acyclic (sources (listedEdges maps ids)) ↔ Acyclic (listedParents maps ids) := by
  simp only [Acyclic, mem_sources_listed]

/-- The two loops that fill the tables are not stopped. -/
theorem foldlM_connect_listed : (listedEdges maps ids).foldlM connect (emptyTables ids) =
    .ok ⟨tabulate ids fun n => (sources (listedEdges maps ids) n).length,
      tabulate ids (targets (listedEdges maps ids))⟩ := by
  apply foldlM_connect
  · intro degree edges a ha b hb
    rw [connect, modify_tabulate ha, modify_tabulate hb]
    rfl
  · exact listed_edges

/-- What the sort starts from. -/
def startOf (maps : LedgerMaps) (ids : List String) (listing : Listing ids) : Pending String :=
  ⟨readyNodes (tabulate ids fun n => (sources (listedEdges maps ids) n).length) listing.order,
    fun n => (sources (listedEdges maps ids) n).length⟩

/-- The sort as a loop over functions: it is not stopped, whatever ids are requested. -/
theorem topologicalSortEvents_eq (listing : Listing ids) :
    Drained ids (sources (listedEdges maps ids)) [] (startOf maps ids listing) ∧
    ∃ final degree,
      drainBy popBack (targets (listedEdges maps ids)) ids.length [] (startOf maps ids listing) =
        some final ∧
      topologicalSortEvents maps ids listing =
        .ok (if final.length ≠ ids.length then
          .error "Circular dependency detected in causal events" else .ok final) ∧
      Drained ids (sources (listedEdges maps ids)) final ⟨[], degree⟩ := by
  obtain ⟨hstart, final, degree, hdrain, hrun, hdrained⟩ :=
    @run_edges _ _ _ _ "`neighbor` is always present in `in_degree`, built from the same event_ids"
      _ _ _ pops_back listed_edges listing.perm (le_refl ids.length)
  refine ⟨hstart, final, degree, hdrain, ?_, hdrained⟩
  simp only [topologicalSortEvents, foldlM_connect_listed]
  show (run _ popBack _ ids.length [] _ >>= _) = _
  rw [hrun]
  rfl

/-- A result that is as long as the request lists it once. -/
theorem perm_of_length {final : List String} {degree : String → Nat} {needs : String → List String}
    (h : Drained ids needs final ⟨[], degree⟩) (hlength : final.length = ids.length) :
    final.Perm ids := by
  have hnodup : final.Nodup := by simpa using h.nodup
  have hknown : ∀ n ∈ final, n ∈ ids := by simpa using h.known
  exact (List.subperm_of_subset hnodup hknown).perm_of_length_le hlength.ge

end Sorted

/-- **The sort of the events is a correct one.** It ends and meets none of its `expect`s, whatever
ids are requested; of distinct ids it lists each after its parents that are requested too, and it
does so exactly when these go round in no circle. -/
theorem topological_sort_events_correct (maps : LedgerMaps) (ids : List String)
    (listing : Listing ids) :
    ∃ outcome, topologicalSortEvents maps ids listing = .ok outcome ∧
      (ids.Nodup →
        ((∃ sorted, outcome = .ok sorted) ↔ Acyclic (listedParents maps ids)) ∧
        ∀ sorted, outcome = .ok sorted →
          sorted.Perm ids ∧ Ordered (listedParents maps ids) sorted) := by
  obtain ⟨_, final, degree, _, hsort, hdrained⟩ := @topologicalSortEvents_eq maps ids listing
  refine ⟨_, hsort, ?_⟩
  intro hnodup
  have hordered : Ordered (listedParents maps ids) final := ordered_listed.mp hdrained.ordered
  by_cases hlength : final.length = ids.length
  · have hperm := perm_of_length hdrained hlength
    rw [if_neg (not_not.mpr hlength)]
    refine ⟨⟨fun _ => ?_, fun _ => ⟨final, rfl⟩⟩, ?_⟩
    · apply acyclic_of_ordered hordered
      intro n hn
      obtain ⟨parent, hparent⟩ := List.exists_mem_of_ne_nil _ hn
      exact hperm.mem_iff.mpr (mem_listedParents.mp hparent).1
    · intro sorted hsorted
      cases hsorted
      exact ⟨hperm, hordered⟩
  · rw [if_pos hlength]
    refine ⟨⟨?_, ?_⟩, ?_⟩
    · intro h
      obtain ⟨sorted, hsorted⟩ := h
      cases hsorted
    · intro hacyclic
      have hall := hdrained.complete (inverse_edges listed_edges) (acyclic_listed.mpr hacyclic)
      exact absurd (hdrained.perm hnodup hall).length_eq hlength
    · intro sorted hsorted
      cases hsorted

end Attest.Storage
