import Attest.Executor.Causal
import Attest.Library.BreadthFirst
import Attest.Library.SortedMap

/-! Paths between events of a ledger, as `storage/causal_ledger.rs` finds and checks them.

The search goes from an event to its parents and is breadth first, so the path it finds is a
shortest one (`findCausalPath_shortest`). The check that a query makes of this path asks of
each event that the one before it is among its parents, which is the other way round.
`paths_valid_iff` is when the two agree. -/
namespace Attest.Storage
open Library Library.BreadthFirst Library.Fallible
open Trust (Bytes Crates SigningKey utf8 hexEncode hexDecode toVector sampleSeedA)
open Executor (fetchRecord buildRecord fetchSignature buildSignature sampleRecorder
  recordedSignature)

/-- The ledger in memory: the events by their ids, and the key, where one is loaded. -/
structure CausalLedger where
  eventsIndex : SortedMap String CausalEvent
  keypair : Option SigningKey

structure CausalPath where
  fromEvent : String
  toEvent : String
  path : List String
deriving DecidableEq

/-- A query without its metadata, which is always empty. -/
structure CausalQuery where
  fromEvent : String
  toEvent : String
  causalPath : List String
  isValid : Bool
deriving DecidableEq

/-! ### The search -/

section Search
variable (index : SortedMap String CausalEvent)

/-- The parents of an event of the index; what is not indexed leads nowhere. -/
def parentsOf (id : String) : List String := (index.lookup id).elim [] CausalEvent.causalParents

/-- Everything the index mentions as a parent. -/
def mentioned : List String := index.entries.flatMap fun entry => entry.2.causalParents

/-- The rounds the queue can last, with one to find it empty. -/
def searchRounds : Nat := (mentioned index).length + 2

def findCausalPath (fromEvent toEvent : String) : Option CausalPath :=
  if index.lookup fromEvent = none ∨ index.lookup toEvent = none then none
  else if fromEvent = toEvent then some ⟨fromEvent, toEvent, [fromEvent]⟩
  else
    ((search (parentsOf index) toEvent (searchRounds index) (start fromEvent)).getD none).map
      (CausalPath.mk fromEvent toEvent)

end Search

section Found
variable {index : SortedMap String CausalEvent} {fromEvent toEvent : String}

theorem mem_parentsOf {id parent : String} : parent ∈ parentsOf index id ↔
    ∃ event, index.lookup id = some event ∧ parent ∈ event.causalParents := by
  unfold parentsOf
  cases index.lookup id with
  | none => simp
  | some event => simp

theorem mem_mentioned {id parent : String} (h : parent ∈ parentsOf index id) :
    parent ∈ mentioned index := by
  obtain ⟨event, hevent, hparent⟩ := mem_parentsOf.mp h
  exact List.mem_flatMap.mpr ⟨_, SortedMap.lookup_eq_some.mp hevent, hparent⟩

/-- However many rounds are given from there on, the search ends, and with the same result. -/
theorem search_ends_within : ∃ result, ∀ rounds, searchRounds index ≤ rounds →
    search (parentsOf index) toEvent rounds (start fromEvent) = some result := by
  have hends : search (parentsOf index) toEvent (searchRounds index) (start fromEvent) ≠ none := by
    apply @search_terminates _ _ _ _ _ _ (fromEvent :: mentioned index).toFinset
    · simp
    · intro id parent hparent
      simp [mem_mentioned hparent]
    · calc (fromEvent :: mentioned index).toFinset.card
          ≤ (fromEvent :: mentioned index).length := List.toFinset_card_le _
        _ < searchRounds index := by
          rw [List.length_cons, searchRounds]
          omega
  obtain ⟨result, hresult⟩ := Option.ne_none_iff_exists'.mp hends
  refine ⟨result, ?_⟩
  intro rounds hrounds
  obtain ⟨more, rfl⟩ := Nat.exists_eq_add_of_le hrounds
  exact search_stable more hresult

theorem findCausalPath_of_search {result : Option (List String)} (hne : fromEvent ≠ toEvent)
    (hfrom : index.lookup fromEvent ≠ none) (hto : index.lookup toEvent ≠ none)
    (h : search (parentsOf index) toEvent (searchRounds index) (start fromEvent) = some result) :
    findCausalPath index fromEvent toEvent = result.map (CausalPath.mk fromEvent toEvent) := by
  rw [findCausalPath, if_neg (not_or.mpr ⟨hfrom, hto⟩), if_neg hne, h, Option.getD_some]

/-- What a path that is found is. -/
theorem of_findCausalPath {found : CausalPath}
    (h : findCausalPath index fromEvent toEvent = some found) :
    found.fromEvent = fromEvent ∧ found.toEvent = toEvent ∧
      IsPath (parentsOf index) fromEvent toEvent found.path ∧
      ∀ other, IsPath (parentsOf index) fromEvent toEvent other →
        found.path.length ≤ other.length := by
  unfold findCausalPath at h
  split at h
  next => cases h
  next =>
    split at h
    next heq =>
      subst heq
      cases h
      refine ⟨rfl, rfl, isPath_single, ?_⟩
      intro other hother
      cases other with
      | nil => cases hother.head
      | cons first rest => simp
    next =>
      obtain ⟨path, hpath, rfl⟩ := Option.map_eq_some_iff.mp h
      cases hsearch : search (parentsOf index) toEvent (searchRounds index) (start fromEvent) with
      | none =>
        rw [hsearch] at hpath
        cases hpath
      | some result =>
        rw [hsearch, Option.getD_some] at hpath
        subst hpath
        obtain ⟨hwalk, hshortest⟩ := path_of_search hsearch
        exact ⟨rfl, rfl, hwalk, hshortest⟩

theorem findCausalPath_isSome_iff (hfrom : index.lookup fromEvent ≠ none)
    (hto : index.lookup toEvent ≠ none) :
    (findCausalPath index fromEvent toEvent).isSome = true ↔
      Relation.ReflTransGen (fun id parent => parent ∈ parentsOf index id) fromEvent toEvent := by
  constructor
  · intro h
    obtain ⟨found, hfound⟩ := Option.isSome_iff_exists.mp h
    exact (of_findCausalPath hfound).2.2.1.reachable
  · intro hreach
    by_cases heq : fromEvent = toEvent
    · rw [findCausalPath, if_neg (not_or.mpr ⟨hfrom, hto⟩), if_pos heq]
      rfl
    · obtain ⟨result, hsearch⟩ := @search_ends_within index fromEvent toEvent
      rw [findCausalPath_of_search heq hfrom hto (hsearch _ le_rfl)]
      cases result with
      | none => exact absurd hreach (unreachable_of_search (hsearch _ le_rfl))
      | some path => rfl

end Found

/-- **The search for a causal path is a correct breadth-first search.** It ends on every
index, whatever cycles, dangling or repeated parents are in it; it finds a path exactly when
the one event is reached from the other over parents; and the path starts at the one, ends at
the other, goes from an event to a recorded parent, and is no longer than any other. -/
theorem findCausalPath_shortest (index : SortedMap String CausalEvent) (fromEvent toEvent : String)
    (hfrom : index.lookup fromEvent ≠ none) (hto : index.lookup toEvent ≠ none) :
    (∃ result, ∀ rounds, searchRounds index ≤ rounds →
      search (parentsOf index) toEvent rounds (start fromEvent) = some result) ∧
    ((findCausalPath index fromEvent toEvent).isSome = true ↔
      Relation.ReflTransGen (fun id parent => parent ∈ parentsOf index id) fromEvent toEvent) ∧
    ∀ found, findCausalPath index fromEvent toEvent = some found →
      found.fromEvent = fromEvent ∧ found.toEvent = toEvent ∧
      IsPath (parentsOf index) fromEvent toEvent found.path ∧
      ∀ other, IsPath (parentsOf index) fromEvent toEvent other →
        found.path.length ≤ other.length := by
  refine ⟨search_ends_within, findCausalPath_isSome_iff hfrom hto, ?_⟩
  intro found hfound
  exact of_findCausalPath hfound

/-! The two events of a run that fetches and then builds. -/

def linkedLedger : CausalLedger where
  eventsIndex := (SortedMap.empty.insert fetchRecord.eventId fetchRecord).insert
    buildRecord.eventId buildRecord
  keypair := some sampleSeedA

theorem buildId_ne_fetchId : buildRecord.eventId ≠ fetchRecord.eventId :=
  Executor.facts_fetchBuild.2.2.2.2.2.2.1

theorem lookup_linked (id : String) : linkedLedger.eventsIndex.lookup id =
    if id = buildRecord.eventId then some buildRecord
    else if id = fetchRecord.eventId then some fetchRecord else none := by
  rw [linkedLedger, SortedMap.lookup_insert, SortedMap.lookup_insert, SortedMap.lookup_empty]

theorem lookup_build : linkedLedger.eventsIndex.lookup buildRecord.eventId = some buildRecord := by
  rw [lookup_linked, if_pos rfl]

theorem lookup_fetch : linkedLedger.eventsIndex.lookup fetchRecord.eventId = some fetchRecord := by
  rw [lookup_linked, if_neg buildId_ne_fetchId.symm, if_pos rfl]

theorem findCausalPath_linked :
    (findCausalPath linkedLedger.eventsIndex buildRecord.eventId fetchRecord.eventId).isSome = true ∧
      (findCausalPath linkedLedger.eventsIndex fetchRecord.eventId buildRecord.eventId).isSome =
        false := by
  have hbuild : linkedLedger.eventsIndex.lookup buildRecord.eventId ≠ none := by simp [lookup_build]
  have hfetch : linkedLedger.eventsIndex.lookup fetchRecord.eventId ≠ none := by simp [lookup_fetch]
  constructor
  · apply (findCausalPath_shortest linkedLedger.eventsIndex _ _ hbuild hfetch).2.1.mpr
    apply Relation.ReflTransGen.single
    exact mem_parentsOf.mpr ⟨buildRecord, lookup_build, List.mem_singleton_self _⟩
  · rw [← Bool.not_eq_true,
      (findCausalPath_shortest linkedLedger.eventsIndex _ _ hfetch hbuild).2.1]
    intro hreach
    rcases Relation.ReflTransGen.cases_head hreach with heq | ⟨parent, hparent, _⟩
    · exact buildId_ne_fetchId heq.symm
    · obtain ⟨event, hevent, hmem⟩ := mem_parentsOf.mp hparent
      cases lookup_fetch.symm.trans hevent
      cases hmem

/-! ### The check of a path -/

/-- `AttestKeypair::verify`. -/
def keypairVerify (c : Crates) (key : SigningKey) (message : Bytes) (signatureHex : String) :
    Except String Bool :=
  match hexDecode signatureHex with
  | none => .error "Invalid signature hex"
  | some signatureBytes =>
    match toVector 64 signatureBytes with
    | none => .error "Invalid signature length"
    | some signature => .ok (c.verify (c.verifyingKey key) message signature)

section Query
variable (c : Crates) (ledger : CausalLedger)

def verifyEventSignature (event : CausalEvent) : Except String Bool :=
  match event.signature, ledger.keypair with
  | some signature, some key => keypairVerify c key (utf8 (eventSigningData event)) signature
  | _, _ => .ok false

/-- Every event of the path is there, with a signature that holds. -/
def eventsVerified : List String → Except String Bool
  | [] => .ok true
  | id :: rest =>
    match ledger.eventsIndex.lookup id with
    | none => .ok false
    | some event => do
      let holds ← verifyEventSignature c ledger event
      if holds then eventsVerified rest else .ok false

/-- Each event of the path has the one before it among its parents. -/
def causallyOrdered : List String → Bool
  | previous :: current :: rest =>
    decide (previous ∈ parentsOf ledger.eventsIndex current) && causallyOrdered (current :: rest)
  | _ => true

def verifyCausalPath (path : List String) : Except String Bool :=
  if path = [] then .ok false
  else do
    let verified ← eventsVerified c ledger path
    if verified then .ok (causallyOrdered ledger path) else .ok false

def queryCausalPath (fromEvent toEvent : String) : Except String CausalQuery :=
  match findCausalPath ledger.eventsIndex fromEvent toEvent with
  | some found => do
    let isValid ← verifyCausalPath c ledger found.path
    return ⟨fromEvent, toEvent, found.path, isValid⟩
  | none => .ok ⟨fromEvent, toEvent, [], false⟩

end Query

/-! ### When the two agree -/

/-- Every event is named by its content and signed with the key that is loaded. -/
def AllSigned (c : Crates) (ledger : CausalLedger) : Prop :=
  ∀ id event, ledger.eventsIndex.lookup id = some event →
    eventIdIsAuthentic c event = true ∧ verifyEventSignature c ledger event = .ok true

/-- A query answers that its path is valid exactly where a path is found. -/
def PathsValid (c : Crates) (ledger : CausalLedger) : Prop :=
  ∀ fromEvent toEvent, ∃ query, queryCausalPath c ledger fromEvent toEvent = .ok query ∧
    (query.isValid = true ↔ (findCausalPath ledger.eventsIndex fromEvent toEvent).isSome = true)

/-- An event and another one of the ledger that is its parent are parents of each other. -/
def MutualParents (ledger : CausalLedger) : Prop :=
  ∀ id parent, parent ∈ parentsOf ledger.eventsIndex id →
    ledger.eventsIndex.lookup parent ≠ none → parent ≠ id →
    id ∈ parentsOf ledger.eventsIndex parent

section Agree
variable {c : Crates} {ledger : CausalLedger} {path : List String}

/-- Every event of a path to an indexed one is indexed. -/
theorem indexed_of_isPath {fromEvent toEvent : String}
    (hpath : IsPath (parentsOf ledger.eventsIndex) fromEvent toEvent path)
    (hto : ledger.eventsIndex.lookup toEvent ≠ none) :
    ∀ id ∈ path, ledger.eventsIndex.lookup id ≠ none := by
  have hchain := hpath.chain
  have hlast := hpath.last
  clear hpath
  induction path with
  | nil => simp
  | cons first rest ih =>
    cases rest with
    | nil =>
      cases hlast
      simpa using hto
    | cons second rest =>
      rw [List.isChain_cons_cons] at hchain
      rw [List.getLast?_cons_cons] at hlast
      intro id hid
      rcases List.mem_cons.mp hid with rfl | hid
      · obtain ⟨event, hevent, _⟩ := mem_parentsOf.mp hchain.1
        rw [hevent]
        simp
      · exact ih hchain.2 hlast id hid

theorem eventsVerified_of_signed (hsigned : AllSigned c ledger)
    (h : ∀ id ∈ path, ledger.eventsIndex.lookup id ≠ none) :
    eventsVerified c ledger path = .ok true := by
  induction path with
  | nil => rfl
  | cons id rest ih =>
    obtain ⟨event, hevent⟩ := Option.ne_none_iff_exists'.mp (h id (List.mem_cons_self ..))
    rw [eventsVerified, hevent]
    simp only [(hsigned id event hevent).2]
    exact ih fun other hother => h other (List.mem_cons_of_mem _ hother)

/-- Where all is signed, the check of a found path is that of its order. -/
theorem query_of_found {fromEvent toEvent : String} {found : CausalPath}
    (hsigned : AllSigned c ledger)
    (h : findCausalPath ledger.eventsIndex fromEvent toEvent = some found) :
    queryCausalPath c ledger fromEvent toEvent =
      .ok ⟨fromEvent, toEvent, found.path, causallyOrdered ledger found.path⟩ := by
  have hpath := (of_findCausalPath h).2.2.1
  have hto : ledger.eventsIndex.lookup toEvent ≠ none := by
    intro hnone
    rw [findCausalPath, if_pos (.inr hnone)] at h
    cases h
  have hne : found.path ≠ [] := by
    intro hnil
    rw [hnil] at hpath
    cases hpath.head
  rw [queryCausalPath, h]
  simp only [verifyCausalPath, if_neg hne,
    eventsVerified_of_signed hsigned (indexed_of_isPath hpath hto)]
  rfl

theorem causallyOrdered_of_mutual (hmutual : MutualParents ledger)
    (hchain : path.IsChain fun id parent => parent ∈ parentsOf ledger.eventsIndex id)
    (hindexed : ∀ id ∈ path, ledger.eventsIndex.lookup id ≠ none) :
    causallyOrdered ledger path = true := by
  induction path with
  | nil => rfl
  | cons first rest ih =>
    cases rest with
    | nil => rfl
    | cons second rest =>
      rw [List.isChain_cons_cons] at hchain
      have hback : first ∈ parentsOf ledger.eventsIndex second := by
        by_cases heq : second = first
        · rw [heq] at hchain ⊢
          exact hchain.1
        · exact hmutual first second hchain.1 (hindexed second (by simp)) heq
      rw [causallyOrdered, Bool.and_eq_true, decide_eq_true_eq]
      exact ⟨hback, ih hchain.2 fun id hid => hindexed id (List.mem_cons_of_mem _ hid)⟩

/-- The shortest path to a parent is the parent itself. -/
theorem findCausalPath_parent {id parent : String}
    (hparent : parent ∈ parentsOf ledger.eventsIndex id)
    (hindexed : ledger.eventsIndex.lookup parent ≠ none) (hne : parent ≠ id) :
    findCausalPath ledger.eventsIndex id parent = some ⟨id, parent, [id, parent]⟩ := by
  obtain ⟨event, hevent, _⟩ := mem_parentsOf.mp hparent
  have hfrom : ledger.eventsIndex.lookup id ≠ none := by simp [hevent]
  have hsome := (findCausalPath_isSome_iff hfrom hindexed).mpr (.single hparent)
  obtain ⟨⟨fromEvent, toEvent, path⟩, hfound⟩ := Option.isSome_iff_exists.mp hsome
  obtain ⟨hfromEvent, htoEvent, hpath, hshortest⟩ := of_findCausalPath hfound
  have htwo : IsPath (parentsOf ledger.eventsIndex) id parent [id, parent] :=
    isPath_single.snoc hparent
  have hlength : path.length ≤ 2 := hshortest _ htwo
  rw [hfound, ← hfromEvent, ← htoEvent]
  rw [← hfromEvent, ← htoEvent] at hpath hne
  obtain ⟨_, hhead, hlast⟩ := hpath
  match path with
  | [] => cases hhead
  | [only] =>
    rw [List.head?_cons, Option.some.injEq] at hhead
    rw [List.getLast?_singleton, Option.some.injEq] at hlast
    exact absurd (hlast.symm.trans hhead) hne
  | [first, second] =>
    rw [List.head?_cons, Option.some.injEq] at hhead
    rw [List.getLast?_cons_cons, List.getLast?_singleton, Option.some.injEq] at hlast
    rw [hhead, hlast]
  | _ :: _ :: _ :: _ => simp at hlength

end Agree

/-- **A query says that a path it found is valid on every pair of events exactly when parents
are mutual.** The search goes to the parents and the check asks for the parents the other way
round, so a ledger whose events are linked at all, and not in both directions, has a path that
is found and called invalid. -/
theorem paths_valid_iff (c : Crates) (ledger : CausalLedger) (hsigned : AllSigned c ledger) :
    PathsValid c ledger ↔ MutualParents ledger := by
  constructor
  · intro hvalid id parent hparent hindexed hne
    have hfound := findCausalPath_parent hparent hindexed hne
    obtain ⟨query, hquery, hiff⟩ := hvalid id parent
    rw [query_of_found hsigned hfound] at hquery
    cases hquery
    have hordered : causallyOrdered ledger [id, parent] = true := hiff.mpr (by rw [hfound]; rfl)
    rw [causallyOrdered, Bool.and_eq_true, decide_eq_true_eq] at hordered
    exact hordered.1
  · intro hmutual fromEvent toEvent
    cases hfound : findCausalPath ledger.eventsIndex fromEvent toEvent with
    | none =>
      refine ⟨⟨fromEvent, toEvent, [], false⟩, ?_, by simp⟩
      rw [queryCausalPath, hfound]
    | some found =>
      have hpath := (of_findCausalPath hfound).2.2.1
      have hto : ledger.eventsIndex.lookup toEvent ≠ none := by
        intro hnone
        rw [findCausalPath, if_pos (.inr hnone)] at hfound
        cases hfound
      have hordered := causallyOrdered_of_mutual hmutual hpath.chain (indexed_of_isPath hpath hto)
      exact ⟨_, query_of_found hsigned hfound, by simp [hordered]⟩

/-- What the recorder names and signs with the loaded key, the ledger verifies with it. -/
theorem verifyEventSignature_named {ledger : CausalLedger} {event : CausalEvent}
    (hkeypair : ledger.keypair = some sampleSeedA) {signature : Vector UInt8 64}
    (hsignature : event.signature = some (hexEncode signature.toList))
    (hsigned : recordedSignature (utf8 (eventSigningData event)) = signature) :
    verifyEventSignature sampleRecorder.crates ledger event = .ok true := by
  have hverify := Executor.signsCorrectly_sample.verifies (utf8 (eventSigningData event))
  rw [Executor.sign_sample, hsigned] at hverify
  simp only [verifyEventSignature, hsignature, hkeypair, keypairVerify, Trust.hexDecode_hexEncode,
    Trust.toVector_toList, hverify]

theorem signed_fetch (ledger : CausalLedger) (hkeypair : ledger.keypair = some sampleSeedA) :
    eventIdIsAuthentic sampleRecorder.crates fetchRecord = true ∧
      verifyEventSignature sampleRecorder.crates ledger fetchRecord = .ok true :=
  ⟨eventIdIsAuthentic_iff.mpr Executor.eventIdOf_fetchRecord.symm,
    @verifyEventSignature_named ledger fetchRecord hkeypair fetchSignature rfl (if_pos rfl)⟩

theorem signed_build : eventIdIsAuthentic sampleRecorder.crates buildRecord = true ∧
    verifyEventSignature sampleRecorder.crates linkedLedger buildRecord = .ok true :=
  ⟨eventIdIsAuthentic_iff.mpr Executor.eventIdOf_buildRecord.symm,
    @verifyEventSignature_named linkedLedger buildRecord rfl buildSignature rfl
      ((if_neg Executor.signingData_ne).trans (if_pos rfl))⟩

theorem allSigned_linked : AllSigned sampleRecorder.crates linkedLedger := by
  intro id event hevent
  rw [lookup_linked] at hevent
  split at hevent
  next =>
    cases hevent
    exact signed_build
  next =>
    split at hevent
    next =>
      cases hevent
      exact signed_fetch linkedLedger rfl
    next => cases hevent

/-- A ledger of one event. -/
def fetchLedger : CausalLedger where
  eventsIndex := SortedMap.empty.insert fetchRecord.eventId fetchRecord
  keypair := some sampleSeedA

theorem paths_valid_fetch : PathsValid sampleRecorder.crates fetchLedger := by
  have hlookup : ∀ id event, fetchLedger.eventsIndex.lookup id = some event →
      event = fetchRecord := by
    intro id event hevent
    rw [fetchLedger, SortedMap.lookup_insert, SortedMap.lookup_empty] at hevent
    split at hevent
    next => exact (Option.some.inj hevent).symm
    next => cases hevent
  have hsigned : AllSigned sampleRecorder.crates fetchLedger := by
    intro id event hevent
    rw [hlookup id event hevent]
    exact signed_fetch fetchLedger rfl
  apply (paths_valid_iff sampleRecorder.crates fetchLedger hsigned).mpr
  intro id parent hparent
  obtain ⟨event, hevent, hmem⟩ := mem_parentsOf.mp hparent
  rw [hlookup id event hevent] at hmem
  cases hmem

/-- The path from the build to its fetch is found and called invalid. -/
theorem found_path_invalid : AllSigned sampleRecorder.crates linkedLedger ∧
    (findCausalPath linkedLedger.eventsIndex buildRecord.eventId fetchRecord.eventId).isSome = true ∧
    queryCausalPath sampleRecorder.crates linkedLedger buildRecord.eventId fetchRecord.eventId =
      .ok ⟨buildRecord.eventId, fetchRecord.eventId,
        [buildRecord.eventId, fetchRecord.eventId], false⟩ := by
  have hfound := @findCausalPath_parent linkedLedger buildRecord.eventId fetchRecord.eventId
    (mem_parentsOf.mpr ⟨buildRecord, lookup_build, List.mem_singleton_self _⟩)
    (by simp [lookup_fetch]) buildId_ne_fetchId.symm
  have hordered : causallyOrdered linkedLedger [buildRecord.eventId, fetchRecord.eventId] = false := by
    rw [causallyOrdered, Bool.and_eq_false_iff]
    left
    rw [parentsOf, lookup_fetch, decide_eq_false_iff_not]
    exact List.not_mem_nil
  refine ⟨allSigned_linked, by rw [hfound]; rfl, ?_⟩
  rw [query_of_found allSigned_linked hfound, hordered]

end Attest.Storage
