import Attest.Storage.LedgerOrder
import Mathlib.Data.List.Permutation

/-! Chains of causal events, as `storage/causal_ledger.rs` builds them.

The hash of a chain is a function of its events in their order, by design: a verifier takes the
order from the receipt, since a sort that is made again could differ. A chain that is built from
a request takes the order of the sort, and that order differs with the iteration of a hash map
and with the order of the request. `chains_determined` says which requests have one hash and one
id all the same: those whose recorded events are in one line. -/
namespace Attest.Storage
open Library Library.Fallible Library.Kahn Library.TopologicalSort Relation
open Trust (Bytes Crates DateTime utf8 hexEncode sampleCrates)
open Evidence (eventPreimage hashOf)
open Executor (fetchRecord buildRecord unnamed)

structure CausalChain where
  chainId : String
  events : List CausalEvent
  createdAt : DateTime
  chainHash : String
  chainSignature : Option String

section Building
variable (c : Crates)

/-- The id of a chain: the digest of the ids of its first and its last event. -/
def chainIdOf (events : List CausalEvent) : String :=
  let first := (events.head?.map CausalEvent.eventId).getD ""
  let last := (events.getLast?.map CausalEvent.eventId).getD ""
  hexEncode (c.blake3 (utf8 ("chain:" ++ first ++ ":" ++ last))).toList

/-- A chain of events in their order, as it is before it is signed. -/
def chainOf (now : DateTime) (events : List CausalEvent) : CausalChain where
  chainId := chainIdOf c events
  events := events
  createdAt := now
  chainHash := chainHash c events
  chainSignature := none

/-- `build_causal_chain`, up to the file the chain is written to. `sign` signs the text of a
chain with the key of the ledger, where there is one. -/
def buildCausalChain (sign : Option (CausalChain → String)) (now : DateTime) (maps : LedgerMaps)
    (ids : List String) (listing : Listing ids) : Except Fault (Except String CausalChain) := do
  let sorted ← topologicalSortEvents maps ids listing
  return do
    let chain := chainOf c now ((← sorted).filterMap maps.eventsIndex.lookup)
    return { chain with chainSignature := sign.map (· chain) }

end Building

/-! ### What a request can come to -/

/-- Where a chain is built, whatever the order of the request and of the hash map. -/
def Builds (c : Crates) (maps : LedgerMaps) (ids : List String) (chain : CausalChain) : Prop :=
  ∃ sign now request, ∃ listing : Listing request, request.Perm ids ∧
    buildCausalChain c sign now maps request listing = .ok (.ok chain)

/-- Every chain of a request has the same hash and the same id. -/
def Determined (c : Crates) (maps : LedgerMaps) (ids : List String) : Prop :=
  ∀ chain chain', Builds c maps ids chain → Builds c maps ids chain' →
    chain.chainHash = chain'.chainHash ∧ chain.chainId = chain'.chainId

/-- The requested ids that are recorded. -/
def recordedIds (maps : LedgerMaps) (ids : List String) : List String :=
  ids.filter fun id => (maps.eventsIndex.lookup id).isSome

theorem mem_recordedIds {maps : LedgerMaps} {ids : List String} {id : String} :
    id ∈ recordedIds maps ids ↔ id ∈ ids ∧ maps.eventsIndex.lookup id ≠ none := by
  rw [recordedIds, List.mem_filter, Option.isSome_iff_ne_none]

/-- The recorded events of a request can be put in a line, each with the one before it among its
parents. -/
def InLine (maps : LedgerMaps) (ids : List String) : Prop :=
  ∃ line : List String, line.Perm (recordedIds maps ids) ∧
    line.IsChain fun parent id => parent ∈ maps.parents id

section Order
variable {maps : LedgerMaps} {ids request sorted : List String} {listing : Listing request}

theorem mem_listedParents_of_perm (h : request.Perm ids) {parent id : String} :
    parent ∈ listedParents maps request id ↔ parent ∈ listedParents maps ids id := by
  rw [mem_listedParents, mem_listedParents, h.mem_iff, h.mem_iff]

theorem ordered_of_perm (h : request.Perm ids) {list : List String} :
    Ordered (listedParents maps request) list ↔ Ordered (listedParents maps ids) list := by
  simp only [Ordered, mem_listedParents_of_perm h]

theorem acyclic_of_perm (h : request.Perm ids) :
    Acyclic (listedParents maps request) ↔ Acyclic (listedParents maps ids) := by
  simp only [Acyclic, mem_listedParents_of_perm h]

/-- A request that names an event twice has no order. -/
theorem nodup_of_sorted (h : topologicalSortEvents maps request listing = .ok (.ok sorted)) :
    request.Nodup := by
  obtain ⟨_, final, degree, _, hsort, hdrained⟩ := @topologicalSortEvents_eq maps request listing
  rw [hsort] at h
  by_cases hlength : final.length = request.length
  · have hnodup : final.Nodup := by simpa using hdrained.nodup
    exact (perm_of_length hdrained hlength).nodup_iff.mp hnodup
  · rw [if_pos hlength] at h
    cases h

/-- A request has an order exactly where it names no event twice and the parents among its events
go round in no circle. -/
theorem exists_sorted_iff (hperm : request.Perm ids) :
    (∃ sorted, topologicalSortEvents maps request listing = .ok (.ok sorted)) ↔
      ids.Nodup ∧ Acyclic (listedParents maps ids) := by
  obtain ⟨outcome, houtcome, hcorrect⟩ := topological_sort_events_correct maps request listing
  constructor
  · intro h
    obtain ⟨sorted, hsorted⟩ := h
    have hnodup := nodup_of_sorted hsorted
    rw [houtcome, Except.ok.injEq] at hsorted
    exact ⟨hperm.nodup_iff.mp hnodup,
      (acyclic_of_perm hperm).mp ((hcorrect hnodup).1.mp ⟨sorted, hsorted⟩)⟩
  · intro h
    have hnodup := hperm.nodup_iff.mpr h.1
    obtain ⟨sorted, hsorted⟩ := (hcorrect hnodup).1.mpr ((acyclic_of_perm hperm).mpr h.2)
    exact ⟨sorted, by rw [houtcome, hsorted]⟩

/-- What an order is: the requested ids, each after its parents. -/
theorem sorted_facts (hperm : request.Perm ids)
    (h : topologicalSortEvents maps request listing = .ok (.ok sorted)) :
    ids.Nodup ∧ sorted.Perm ids ∧ Ordered (listedParents maps ids) sorted := by
  have hnodup := nodup_of_sorted h
  obtain ⟨outcome, houtcome, hcorrect⟩ := topological_sort_events_correct maps request listing
  rw [houtcome, Except.ok.injEq] at h
  obtain ⟨hsorted, hordered⟩ := (hcorrect hnodup).2 sorted h
  exact ⟨hperm.nodup_iff.mp hnodup, hsorted.trans hperm, (ordered_of_perm hperm).mp hordered⟩

/-- The chains of a request, by the orders of the sort. -/
theorem builds_iff {c : Crates} {chain : CausalChain} : Builds c maps ids chain ↔
    ∃ request, ∃ listing : Listing request, ∃ sorted now signature, request.Perm ids ∧
      topologicalSortEvents maps request listing = .ok (.ok sorted) ∧
      chain = { chainOf c now (sorted.filterMap maps.eventsIndex.lookup) with
        chainSignature := signature } := by
  constructor
  · intro h
    obtain ⟨sign, now, request, listing, hperm, hbuild⟩ := h
    obtain ⟨outcome, houtcome, hbuild⟩ := except_bind_eq_ok.mp hbuild
    obtain ⟨sorted, rfl, hchain⟩ := except_bind_eq_ok.mp (Except.ok.inj hbuild)
    exact ⟨request, listing, sorted, now, _, hperm, houtcome, (Except.ok.inj hchain).symm⟩
  · intro h
    obtain ⟨request, listing, sorted, now, signature, hperm, hsort, rfl⟩ := h
    refine ⟨signature.map fun text _ => text, now, request, listing, hperm, ?_⟩
    rw [buildCausalChain, hsort]
    cases signature with
    | none => rfl
    | some text => rfl

/-! ### Events in a line -/

/-- Events in a line come in the order of the line. -/
theorem recorded_of_line {line : List String} (hnodup : ids.Nodup) (hsorted : sorted.Perm ids)
    (hordered : Ordered (listedParents maps ids) sorted)
    (hline : line.Perm (recordedIds maps ids))
    (hchain : line.IsChain fun parent id => parent ∈ maps.parents id) :
    recordedIds maps sorted = line := by
  have hsame : (recordedIds maps sorted).Perm line := (hsorted.filter _).trans hline.symm
  have hlisted : line.IsChain fun parent id => parent ∈ listedParents maps ids id := by
    refine List.IsChain.imp_of_mem_imp ?_ hchain
    intro parent id hparent hid hmem
    exact mem_listedParents.mpr ⟨List.mem_of_mem_filter (hline.mem_iff.mp hid),
      List.mem_of_mem_filter (hline.mem_iff.mp hparent), hmem⟩
  have hpairwise := pairwise_of_ordered hordered (hsorted.nodup_iff.mpr hnodup)
  exact eq_of_isChain hlisted (hline.nodup_iff.mpr (hnodup.filter _)) hsame (hpairwise.filter _)

theorem filterMap_recorded (sorted : List String) :
    sorted.filterMap maps.eventsIndex.lookup =
      (recordedIds maps sorted).filterMap maps.eventsIndex.lookup := by
  induction sorted with
  | nil => rfl
  | cons id sorted ih =>
    rw [recordedIds] at ih ⊢
    cases hid : maps.eventsIndex.lookup id with
    | none => simp [hid, ih]
    | some event => simp [hid, ih]

theorem map_eventId_recorded (sorted : List String) :
    (sorted.filterMap maps.eventsIndex.lookup).map CausalEvent.eventId = recordedIds maps sorted := by
  induction sorted with
  | nil => rfl
  | cons id sorted ih =>
    rw [recordedIds] at ih ⊢
    cases hid : maps.eventsIndex.lookup id with
    | none => simp [hid, ih]
    | some event => simp [hid, ih, maps.named id event hid]

theorem determined_of_line {c : Crates}
    (h : ids.Nodup → Acyclic (listedParents maps ids) → InLine maps ids) : Determined c maps ids := by
  have hevents : ∀ chain, Builds c maps ids chain → ∀ line : List String,
      line.Perm (recordedIds maps ids) →
      line.IsChain (fun parent id => parent ∈ maps.parents id) →
      chain.chainHash = chainHash c (line.filterMap maps.eventsIndex.lookup) ∧
        chain.chainId = chainIdOf c (line.filterMap maps.eventsIndex.lookup) := by
    intro chain hbuild line hline hchain
    obtain ⟨request, listing, sorted, now, signature, hperm, hsort, rfl⟩ := builds_iff.mp hbuild
    obtain ⟨hnodup, hsorted, hordered⟩ := sorted_facts hperm hsort
    rw [← recorded_of_line hnodup hsorted hordered hline hchain, ← filterMap_recorded]
    exact ⟨rfl, rfl⟩
  intro chain chain' hbuild hbuild'
  obtain ⟨request, listing, sorted, _, _, hperm, hsort, _⟩ := builds_iff.mp hbuild
  obtain ⟨hnodup, hacyclic⟩ := (exists_sorted_iff hperm).mp ⟨sorted, hsort⟩
  obtain ⟨line, hline, hchain⟩ := h hnodup hacyclic
  obtain ⟨hhash, hid⟩ := hevents chain hbuild line hline hchain
  obtain ⟨hhash', hid'⟩ := hevents chain' hbuild' line hline hchain
  exact ⟨hhash.trans hhash'.symm, hid.trans hid'.symm⟩

end Order

/-! ### Events that are not in a line

Two recorded events that always come one right after the other, and the second without the first
among its parents: this section makes the request and the order of the hash map in which the
second comes first. It is requested last, so that it lies on top of the stack as soon as it is
ready, and an event without parents from which the first descends lies at the bottom, so that
nothing else without parents is left when the first is taken. -/

section Crossing
variable {maps : LedgerMaps} {ids sorted : List String} {top bottom : String}

/-- A request with one event at its end. -/
def requestLast (ids : List String) (top : String) : List String := ids.erase top ++ [top]

theorem requestLast_perm (h : top ∈ ids) : (requestLast ids top).Perm ids :=
  (List.perm_append_singleton _ _).trans (List.perm_cons_erase h).symm

/-- An order of the hash map from one event to another. -/
theorem exists_listing (hnodup : ids.Nodup) (hbottom : bottom ∈ ids) (htop : top ∈ ids)
    (hne : bottom ≠ top) : ∃ listing : Listing (requestLast ids top), ∃ between,
      listing.order = bottom :: (between ++ [top]) := by
  have hrest : top ∈ ids.erase bottom := (List.mem_erase_of_ne (Ne.symm hne)).mpr htop
  have hperm : (bottom :: ((ids.erase bottom).erase top ++ [top])).Perm ids :=
    (((List.perm_append_singleton _ _).trans (List.perm_cons_erase hrest).symm).cons bottom).trans
      (List.perm_cons_erase hbottom).symm
  have hdedup : (requestLast ids top).dedup = requestLast ids top :=
    ((requestLast_perm htop).nodup_iff.mpr hnodup).dedup
  refine ⟨⟨bottom :: ((ids.erase bottom).erase top ++ [top]), ?_⟩, _, rfl⟩
  rw [hdedup]
  exact hperm.trans (requestLast_perm htop).symm

/-- The event that is requested last is the last of the successors of any other. -/
theorem endsWith_requestLast (hnodup : ids.Nodup) (n : String) :
    EndsWith top (targets (listedEdges maps (requestLast ids top)) n) := by
  let edgesTo : String → List (String × String) := fun id =>
    ((maps.parents id).filter (· ∈ requestLast ids top)).map fun parent => (parent, id)
  have hedges : listedEdges maps (requestLast ids top) =
      (ids.erase top).flatMap edgesTo ++ edgesTo top := by
    rw [listedEdges, requestLast, List.flatMap_append, List.flatMap_singleton]
    rfl
  refine ⟨targets ((ids.erase top).flatMap edgesTo) n, (targets (edgesTo top) n).length, ?_, ?_⟩
  · have hsplit : targets (listedEdges maps (requestLast ids top)) n =
        targets ((ids.erase top).flatMap edgesTo) n ++ targets (edgesTo top) n := by
      rw [hedges, targets, List.filter_append, List.map_append]
      rfl
    rw [hsplit, ← List.eq_replicate_length.mpr]
    intro m hm
    obtain ⟨parent, _, heq⟩ := List.mem_map.mp (mem_targets.mp hm)
    exact (Prod.mk.inj heq).2.symm
  · intro hmem
    obtain ⟨id, hid, hedge⟩ := List.mem_flatMap.mp (mem_targets.mp hmem)
    obtain ⟨parent, _, heq⟩ := List.mem_map.mp hedge
    rw [(Prod.mk.inj heq).2] at hid
    exact hnodup.not_mem_erase hid

/-- What such a request starts from. -/
theorem stacked_start {request between : List String} {listing : Listing request}
    (horder : listing.order = bottom :: (between ++ [top])) (hbottom : bottom ∈ request)
    (hroot : listedParents maps request bottom = []) :
    Stacked request (sources (listedEdges maps request)) bottom top []
      (startOf maps request listing) := by
  have hnone : sources (listedEdges maps request) bottom = [] := by
    apply List.eq_nil_iff_forall_not_mem.mpr
    intro parent hparent
    rw [mem_sources_listed, hroot] at hparent
    cases hparent
  refine ⟨(topologicalSortEvents_eq listing).1, .inr ?_, ?_⟩
  · rw [startOf, readyNodes, horder, List.filter_cons_of_pos]
    · rfl
    · simp [tabulate_of_mem hbottom, hnone]
  · intro htop
    rw [startOf, readyNodes] at htop ⊢
    have hready := List.of_mem_filter htop
    simp only [horder]
    rw [← List.cons_append, List.filter_append, List.filter_singleton, hready, cond_true,
      List.getLast?_concat]

/-- Two recorded events in a row, and what stands between them in the whole order. -/
theorem split_recorded {l₁ l₂ : List String} {x y : String}
    (h : recordedIds maps sorted = l₁ ++ x :: y :: l₂) : ∃ before between after,
      sorted = before ++ x :: (between ++ y :: after) ∧ recordedIds maps before = l₁ ∧
        ∀ id ∈ between, maps.eventsIndex.lookup id = none := by
  obtain ⟨left, right, rfl, hleft, hright⟩ := List.filter_eq_append_iff.mp h
  obtain ⟨skipped, rest, rfl, hskipped, _, hrest⟩ := List.filter_eq_cons_iff.mp hright
  obtain ⟨between, after, rfl, hbetween, _, _⟩ := List.filter_eq_cons_iff.mp hrest
  refine ⟨left ++ skipped, between, after, by rw [List.append_assoc], ?_, ?_⟩
  · rw [recordedIds, List.filter_append, List.filter_eq_nil_iff.mpr hskipped, List.append_nil]
    exact hleft
  · intro id hid
    simpa using hbetween id hid

/-- Two recorded events that come in a row in every order: the first is a parent of the second. -/
theorem parent_of_always {l₁ l₂ : List String} {x y : String} (hnodup : ids.Nodup)
    (hacyclic : Acyclic (listedParents maps ids))
    (h : ∀ request, ∀ listing : Listing request, ∀ sorted, request.Perm ids →
      topologicalSortEvents maps request listing = .ok (.ok sorted) →
      recordedIds maps sorted = l₁ ++ x :: y :: l₂) : x ∈ maps.parents y := by
  by_contra hparent
  -- Any order shows that both are requested and recorded, and that they are two.
  obtain ⟨sorted, hsorted⟩ := (@exists_sorted_iff maps ids ids ⟨ids.dedup, List.Perm.refl _⟩
    (List.Perm.refl ids)).mpr ⟨hnodup, hacyclic⟩
  have hrow := h _ _ _ (List.Perm.refl ids) hsorted
  obtain ⟨_, hperm, hordered⟩ := sorted_facts (List.Perm.refl ids) hsorted
  have hrecorded : ∀ id ∈ l₁ ++ x :: y :: l₂, id ∈ ids ∧ maps.eventsIndex.lookup id ≠ none := by
    intro id hid
    rw [← hrow] at hid
    obtain ⟨hmem, hfound⟩ := mem_recordedIds.mp hid
    exact ⟨hperm.mem_iff.mp hmem, hfound⟩
  obtain ⟨hx, hxrecorded⟩ := hrecorded x (by simp)
  obtain ⟨hy, hyrecorded⟩ := hrecorded y (by simp)
  have hrownodup : (l₁ ++ x :: y :: l₂).Nodup := by
    rw [← hrow]
    exact (hperm.nodup_iff.mpr hnodup).filter _
  have hylater : y ∉ l₁ := by
    intro hmem
    exact (List.nodup_append.mp hrownodup).2.2 y hmem y (by simp) rfl
  have hne : x ≠ y := by
    intro heq
    have := (List.nodup_cons.mp (List.nodup_append.mp hrownodup).2.1).1
    exact this (heq ▸ List.mem_cons_self)
  have hnotBefore : ∀ {before : List String}, recordedIds maps before = l₁ → y ∉ before := by
    intro before hbefore hmem
    exact hylater (hbefore ▸ mem_recordedIds.mpr ⟨hmem, hyrecorded⟩)
  have hneeded : ∀ n ∈ ids, ∀ d ∈ listedParents maps ids n, d ∈ ids := by
    intro n _ d hd
    exact (mem_listedParents.mp hd).2.1
  obtain ⟨root, hroot, hnone, hreach⟩ := exists_root hacyclic hneeded hx
  have hbefore : ∀ {list before after : List String}, Ordered (listedParents maps ids) list →
      list = before ++ x :: after → root = x ∨ root ∈ before := by
    intro list before after hordered hsplit
    rcases reflTransGen_iff_eq_or_transGen.mp hreach with heq | htrans
    · exact .inl heq.symm
    · exact .inr (before_of_transGen hordered htrans hsplit)
  have hrootne : root ≠ y := by
    intro heq
    obtain ⟨before, between, after, hsplit, hleft, _⟩ := split_recorded hrow
    rcases hbefore hordered hsplit with hrootx | hmem
    · exact hne (hrootx.symm.trans heq)
    · exact hnotBefore hleft (heq ▸ hmem)
  -- The order in which `y` is on top as soon as it can be.
  have hrequest := requestLast_perm hy
  obtain ⟨listing, between, horder⟩ := exists_listing hnodup hroot hy hrootne
  have hnone' : listedParents maps (requestLast ids y) root = [] := by
    apply List.eq_nil_iff_forall_not_mem.mpr
    intro parent hmem
    rw [mem_listedParents_of_perm hrequest, hnone] at hmem
    cases hmem
  have hstart := stacked_start horder (hrequest.mem_iff.mpr hroot) hnone'
  obtain ⟨_, final, degree, hdrain, hsort, hdrained⟩ :=
    @topologicalSortEvents_eq maps (requestLast ids y) listing
  obtain ⟨sorted', hsorted'⟩ :=
    (@exists_sorted_iff maps ids _ listing hrequest).mpr ⟨hnodup, hacyclic⟩
  have hfinal : final = sorted' := by
    rw [hsort, Except.ok.injEq] at hsorted'
    split at hsorted'
    next => cases hsorted'
    next => exact Except.ok.inj hsorted'
  subst hfinal
  obtain ⟨_, _, hordered'⟩ := sorted_facts hrequest hsorted'
  obtain ⟨before, mid, after, hsplit, hleft, hmid⟩ := split_recorded (h _ _ _ hrequest hsorted')
  have hinverse := @inverse_edges _ _ (listedEdges maps (requestLast ids y)) (requestLast ids y)
    listed_edges
  -- What has no parents comes before `x`, for the bottom does.
  have hroots : ∀ n ∈ ids, listedParents maps ids n = [] → n ≠ x → n ∈ before := by
    intro n hn hnoparents hnx
    have hsources : sources (listedEdges maps (requestLast ids y)) n = [] := by
      apply List.eq_nil_iff_forall_not_mem.mpr
      intro parent hmem
      rw [mem_sources_listed, mem_listedParents_of_perm hrequest, hnoparents] at hmem
      cases hmem
    rcases hbefore hordered' hsplit with hrootx | hmem
    · rw [← hrootx] at hsplit hnx
      exact roots_before hinverse (endsWith_requestLast hnodup) hstart hdrain hsplit n
        (hrequest.mem_iff.mpr hn) hsources hnx
    · by_cases heq : n = root
      · exact heq ▸ hmem
      · obtain ⟨first, second, hfirst⟩ := List.append_of_mem hmem
        rw [hfirst, List.append_assoc, List.cons_append] at hsplit
        rw [hfirst]
        exact List.mem_append_left _ (roots_before hinverse (endsWith_requestLast hnodup) hstart
          hdrain hsplit n (hrequest.mem_iff.mpr hn) hsources heq)
  have hneeds : ∀ d ∈ sources (listedEdges maps (requestLast ids y)) y, d ∈ before := by
    intro d hd
    rw [mem_sources_listed, mem_listedParents_of_perm hrequest] at hd
    obtain ⟨_, hdids, hdparent⟩ := mem_listedParents.mp hd
    have hdx : d ≠ x := fun heq => hparent (heq ▸ hdparent)
    have hd' := hordered' (before ++ x :: mid) y after (by rw [hsplit, List.append_assoc]; rfl) d hd
    rcases List.mem_append.mp hd' with hmem | hmem
    · exact hmem
    · rcases List.mem_cons.mp hmem with heq | hmem
      · exact absurd heq hdx
      · refine hroots d hdids ?_ hdx
        rw [listedParents, if_pos hdids, LedgerMaps.parents_of_absent (hmid d hmem)]
        rfl
  exact hnotBefore hleft (top_before hinverse (endsWith_requestLast hnodup) hstart hdrain hsplit hne
    (hrequest.mem_iff.mpr hy) hneeds)

end Crossing

/-! ### Which requests have one chain -/

/-- What a request must be for its chains to be one: it has no order at all, or its recorded
events are in one line. -/
def Settled (maps : LedgerMaps) (ids : List String) : Prop :=
  ids.Nodup → Acyclic (listedParents maps ids) → InLine maps ids

/-- The recorded events of a request, in whatever order. -/
def reorderings (maps : LedgerMaps) (ids : List String) : Set (List CausalEvent) :=
  {events | ∃ order : List String, order.Perm ids ∧
    events = order.filterMap maps.eventsIndex.lookup}

section Settled
variable {c : Crates} {maps : LedgerMaps} {ids request request' sorted sorted' : List String}
  {listing : Listing request} {listing' : Listing request'}

/-- One hash means one sequence of events, when these carry their own ids. -/
theorem recorded_of_determined
    (hauthentic : ∀ id event, maps.eventsIndex.lookup id = some event →
      eventIdIsAuthentic c event = true)
    (hcollision : Set.InjOn c.blake3 (Set.image (chainBytes c) (reorderings maps ids)))
    (hdetermined : Determined c maps ids) (hperm : request.Perm ids) (hperm' : request'.Perm ids)
    (hsort : topologicalSortEvents maps request listing = .ok (.ok sorted))
    (hsort' : topologicalSortEvents maps request' listing' = .ok (.ok sorted')) :
    recordedIds maps sorted = recordedIds maps sorted' := by
  obtain ⟨_, hsorted, _⟩ := sorted_facts hperm hsort
  obtain ⟨_, hsorted', _⟩ := sorted_facts hperm' hsort'
  obtain ⟨hhash, _⟩ := hdetermined _ _
    (builds_iff.mpr ⟨request, listing, sorted, .minUtc, none, hperm, hsort, rfl⟩)
    (builds_iff.mpr ⟨request', listing', sorted', .minUtc, none, hperm', hsort', rfl⟩)
  have hbytes : chainBytes c (sorted.filterMap maps.eventsIndex.lookup) =
      chainBytes c (sorted'.filterMap maps.eventsIndex.lookup) := by
    refine chainBytes_of_chainHash (hcollision.mono ?_) hhash
    exact Set.pair_subset ⟨_, ⟨sorted, hsorted, rfl⟩, rfl⟩ ⟨_, ⟨sorted', hsorted', rfl⟩, rfl⟩
  have hlength : (sorted.filterMap maps.eventsIndex.lookup).length =
      (sorted'.filterMap maps.eventsIndex.lookup).length :=
    ((hsorted.trans hsorted'.symm).filterMap _).length_eq
  have hids : ∀ order : List String, (order.filterMap maps.eventsIndex.lookup).map (eventIdOf c) =
      recordedIds maps order := by
    intro order
    rw [← map_eventId_recorded]
    refine List.map_congr_left ?_
    intro event hevent
    obtain ⟨id, _, hid⟩ := List.mem_filterMap.mp hevent
    exact (eventIdIsAuthentic_iff.mp (hauthentic id event hid)).symm
  rw [← hids, ← hids]
  exact map_eventIdOf_of_chainBytes hlength hbytes

theorem settled_of_determined
    (hauthentic : ∀ id event, maps.eventsIndex.lookup id = some event →
      eventIdIsAuthentic c event = true)
    (hcollision : Set.InjOn c.blake3 (Set.image (chainBytes c) (reorderings maps ids)))
    (hdetermined : Determined c maps ids) : Settled maps ids := by
  intro hnodup hacyclic
  obtain ⟨sorted, hsorted⟩ := (@exists_sorted_iff maps ids ids ⟨ids.dedup, List.Perm.refl _⟩
    (List.Perm.refl ids)).mpr ⟨hnodup, hacyclic⟩
  obtain ⟨_, hperm, _⟩ := sorted_facts (List.Perm.refl ids) hsorted
  refine ⟨recordedIds maps sorted, hperm.filter _, ?_⟩
  rw [List.isChain_iff_forall_rel_of_append_cons_cons]
  intro x y l₁ l₂ hrow
  refine @parent_of_always maps ids l₁ l₂ x y hnodup hacyclic ?_
  intro request listing sorted' hrequest hsorted'
  rw [← hrow]
  exact recorded_of_determined hauthentic hcollision hdetermined hrequest (List.Perm.refl ids)
    hsorted' hsorted

end Settled

/-- **Which requests have one chain hash and one chain id.** Both are functions of the events of
the chain, which are the recorded ones of the request, parents first. Whatever the order of the
request and of the hash map, it is built or refused alike. Hash and id are the same for all these
orders if the request is settled, and, where the events carry their own ids and no two of their
orders have one digest, only if it is. -/
theorem chains_determined (c : Crates) (maps : LedgerMaps) (ids : List String) :
    (∀ chain, Builds c maps ids chain →
      chain.chainHash = chainHash c chain.events ∧ chain.chainId = chainIdOf c chain.events ∧
        ∃ order : List String, order.Perm ids ∧ Ordered (listedParents maps ids) order ∧
          chain.events = order.filterMap maps.eventsIndex.lookup) ∧
    (∀ sign now request, ∀ listing : Listing request, request.Perm ids →
      ∃ outcome, buildCausalChain c sign now maps request listing = .ok outcome ∧
        ((∃ chain, outcome = .ok chain) ↔ ids.Nodup ∧ Acyclic (listedParents maps ids))) ∧
    (Settled maps ids → Determined c maps ids) ∧
    ((∀ id event, maps.eventsIndex.lookup id = some event → eventIdIsAuthentic c event = true) →
      Set.InjOn c.blake3 (Set.image (chainBytes c) (reorderings maps ids)) →
      Determined c maps ids → Settled maps ids) := by
  refine ⟨?_, ?_, determined_of_line, settled_of_determined⟩
  · intro chain hbuild
    obtain ⟨request, listing, sorted, now, signature, hperm, hsort, rfl⟩ := builds_iff.mp hbuild
    obtain ⟨_, hsorted, hordered⟩ := sorted_facts hperm hsort
    exact ⟨rfl, rfl, sorted, hsorted, hordered, rfl⟩
  · intro sign now request listing hperm
    obtain ⟨outcome, houtcome, _⟩ := topological_sort_events_correct maps request listing
    rw [buildCausalChain, houtcome]
    refine ⟨_, rfl, ?_⟩
    rw [← @exists_sorted_iff maps ids request listing hperm, houtcome]
    cases outcome with
    | error message => simp [bind, Except.bind]
    | ok sorted => simp [bind, Except.bind, pure, Except.pure]

/-! ### Two events that do not depend on each other -/

/-- An event without parents, as `fetchRecord` is one. -/
def lintRecord : CausalEvent :=
  { unnamed buildRecord with
    stepName := "lint"
    causalParents := []
    eventId := "be3ad493f29df209c6dd3267b11540f6bf4e638c976373ab19354e29320cbbdc" }

/-- The digests of what is hashed for the two events and for their chains. -/
def unrelatedDigests : List (Bytes × Vector UInt8 32) :=
  let fetchContent := hashOf 0x0aaf2859a40b726689fada0ddddc94fd3d0cacbbb4e09bc838661f5f527f1176
  let lintContent := hashOf 0x9b4173fabcb685ced8dbd5a44d768be388f15b76fb9420e1f3fe331fb52c84b5
  [(eventPreimage fetchRecord, fetchContent),
    (fetchContent.toList, hashOf 0xb6d394b58a2f138b9c2ef031805dae57285f2bff37388a6686d550a0880ea6cf),
    (eventPreimage lintRecord, lintContent),
    (lintContent.toList, hashOf 0xbe3ad493f29df209c6dd3267b11540f6bf4e638c976373ab19354e29320cbbdc),
    (fetchContent.toList ++ lintContent.toList,
      hashOf 0xa9827ba2362ed85e7085470e380252a43b0f4c55ad24441c322aede21ef5fc0c),
    (lintContent.toList ++ fetchContent.toList,
      hashOf 0xd6caef78fd2f85ae47a4e389695f90933cb50f6758e6c56ac9a7b2871a9dbc26),
    (utf8 ("chain:" ++ fetchRecord.eventId ++ ":" ++ lintRecord.eventId),
      hashOf 0x2a10e195910787279e268bd2419866ba6d6dc6632eca343d5dddf04e25f54c98),
    (utf8 ("chain:" ++ lintRecord.eventId ++ ":" ++ fetchRecord.eventId),
      hashOf 0x825bd408e956cc2a97678379cc984cb04d86256ad4a91b4ba21baba50448c9d8)]

def unrelatedCrates : Crates :=
  { sampleCrates [] with
    blake3 := fun bytes => (unrelatedDigests.lookup bytes).getD (Vector.replicate 32 0) }

def unrelatedMaps : LedgerMaps := (LedgerMaps.empty.insert fetchRecord).insert lintRecord

def unrelatedIds : List String := [fetchRecord.eventId, lintRecord.eventId]

theorem ids_unrelated_differ : fetchRecord.eventId ≠ lintRecord.eventId := by
  decide +kernel

theorem nodup_unrelatedIds : unrelatedIds.Nodup :=
  List.nodup_cons.mpr
    ⟨fun h => ids_unrelated_differ (List.mem_singleton.mp h), List.nodup_singleton _⟩

/-- The two orders in which the hash map can be gone over. -/
def fetchFirst : Listing unrelatedIds :=
  ⟨[fetchRecord.eventId, lintRecord.eventId], perm_dedup nodup_unrelatedIds (List.Perm.refl _)⟩

def lintFirst : Listing unrelatedIds :=
  ⟨[lintRecord.eventId, fetchRecord.eventId], perm_dedup nodup_unrelatedIds (List.Perm.swap ..)⟩

/-- What is queued last is taken first. -/
theorem sorted_unrelated :
    topologicalSortEvents unrelatedMaps unrelatedIds fetchFirst =
        .ok (.ok [lintRecord.eventId, fetchRecord.eventId]) ∧
      topologicalSortEvents unrelatedMaps unrelatedIds lintFirst =
        .ok (.ok [fetchRecord.eventId, lintRecord.eventId]) := by
  decide +kernel

/-- The two sequences of the events, and what is hashed for them. -/
theorem hashed_unrelated :
    chainHash unrelatedCrates [lintRecord, fetchRecord] ≠
        chainHash unrelatedCrates [fetchRecord, lintRecord] ∧
      chainIdOf unrelatedCrates [lintRecord, fetchRecord] ≠
        chainIdOf unrelatedCrates [fetchRecord, lintRecord] ∧
      unrelatedCrates.blake3 (chainBytes unrelatedCrates [lintRecord, fetchRecord]) ≠
        unrelatedCrates.blake3 (chainBytes unrelatedCrates [fetchRecord, lintRecord]) ∧
      ∀ entry ∈ unrelatedMaps.eventsIndex.entries, eventIdIsAuthentic unrelatedCrates entry.2 := by
  decide +kernel

theorem lookup_unrelated (id : String) :
    unrelatedMaps.eventsIndex.lookup id =
      if id = lintRecord.eventId then some lintRecord
      else if id = fetchRecord.eventId then some fetchRecord else none := by
  simp only [unrelatedMaps, LedgerMaps.insert, SortedMap.lookup_insert]
  rfl

theorem filterMap_unrelated :
    [lintRecord.eventId, fetchRecord.eventId].filterMap unrelatedMaps.eventsIndex.lookup =
        [lintRecord, fetchRecord] ∧
      [fetchRecord.eventId, lintRecord.eventId].filterMap unrelatedMaps.eventsIndex.lookup =
        [fetchRecord, lintRecord] := by
  have hlint : unrelatedMaps.eventsIndex.lookup lintRecord.eventId = some lintRecord := by
    rw [lookup_unrelated, if_pos rfl]
  have hfetch : unrelatedMaps.eventsIndex.lookup fetchRecord.eventId = some fetchRecord := by
    rw [lookup_unrelated, if_neg ids_unrelated_differ, if_pos rfl]
  simp only [List.filterMap_cons, hlint, hfetch, List.filterMap_nil, and_self]

/-- One request of two events that do not depend on each other has a chain for each order of the
hash map, with a hash and an id of its own. -/
theorem chains_of_unrelated_events_differ :
    ∃ chain chain', ∃ listing listing' : Listing unrelatedIds,
      buildCausalChain unrelatedCrates none .minUtc unrelatedMaps unrelatedIds listing =
          .ok (.ok chain) ∧
        buildCausalChain unrelatedCrates none .minUtc unrelatedMaps unrelatedIds listing' =
          .ok (.ok chain') ∧
        chain.chainHash ≠ chain'.chainHash ∧ chain.chainId ≠ chain'.chainId := by
  refine ⟨chainOf unrelatedCrates .minUtc [lintRecord, fetchRecord],
    chainOf unrelatedCrates .minUtc [fetchRecord, lintRecord], fetchFirst, lintFirst, ?_, ?_,
    hashed_unrelated.1, hashed_unrelated.2.1⟩
  · rw [buildCausalChain, sorted_unrelated.1, ← filterMap_unrelated.1]
    rfl
  · rw [buildCausalChain, sorted_unrelated.2, ← filterMap_unrelated.2]
    rfl

theorem mem_reorderings_unrelated {events : List CausalEvent}
    (h : events ∈ reorderings unrelatedMaps unrelatedIds) :
    events = [lintRecord, fetchRecord] ∨ events = [fetchRecord, lintRecord] := by
  obtain ⟨order, hperm, rfl⟩ := h
  rw [← filterMap_unrelated.1, ← filterMap_unrelated.2]
  rcases List.perm_pair.mp hperm with rfl | rfl
  · exact .inr rfl
  · exact .inl rfl

theorem parents_unrelated (id : String) : unrelatedMaps.parents id = [] := by
  rw [LedgerMaps.parents_eq, parentsOf, lookup_unrelated]
  split_ifs
  · rfl
  · rfl
  · rfl

theorem not_settled_unrelated : ¬ Settled unrelatedMaps unrelatedIds := by
  intro hsettled
  have hacyclic : Acyclic (listedParents unrelatedMaps unrelatedIds) := by
    refine acyclic_of_rank (fun _ => 0) ?_
    intro id parent hparent
    have hmem := (mem_listedParents.mp hparent).2.2
    rw [parents_unrelated] at hmem
    cases hmem
  obtain ⟨line, hline, hchain⟩ := hsettled nodup_unrelatedIds hacyclic
  have hlength : line.length = 2 := hline.length_eq
  obtain ⟨first, second, rfl⟩ := List.length_eq_two.mp hlength
  have hparent := (List.isChain_cons_cons.mp hchain).1
  rw [parents_unrelated] at hparent
  cases hparent

theorem chains_determined_unrelated :
    ¬ Determined unrelatedCrates unrelatedMaps unrelatedIds := by
  intro hdetermined
  refine not_settled_unrelated ((chains_determined unrelatedCrates unrelatedMaps unrelatedIds).2.2.2
    ?_ ?_ hdetermined)
  · intro id event hevent
    exact hashed_unrelated.2.2.2 (id, event) (SortedMap.lookup_eq_some.mp hevent)
  · have hne := hashed_unrelated.2.2.1
    intro bytes hbytes bytes' hbytes' h
    obtain ⟨events, hevents, rfl⟩ := hbytes
    obtain ⟨events', hevents', rfl⟩ := hbytes'
    rcases mem_reorderings_unrelated hevents with rfl | rfl <;>
      rcases mem_reorderings_unrelated hevents' with rfl | rfl
    · rfl
    · exact absurd h hne
    · exact absurd h.symm hne
    · rfl

end Attest.Storage
