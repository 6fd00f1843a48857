import Attest.Evidence.Proofs
import Attest.Verify.Signatures

/-! Two verifiers of one chain.

`chain_linkage` of an archive ties the listed events to the signed root, and nothing else: it
takes an event for the one its file is named after, a list as it comes, and parents as they
are. The evidence verifier checks all three. This says what an archive has to be for the first
to be worth the second, and what follows for the order of the events. -/
namespace Attest.Evidence
open Library Library.Fallible Storage Verify Archive
open Trust (Bytes Crates DateTime utf8 hexEncode)

/-! ### What passes -/

section Linkage
variable {c : Crates} {receipt : Receipt} {events events' : String → Option CausalEvent}
  {isPartial : Bool}

/-- An event nothing speaks against by itself. -/
structure Genuine (c : Crates) (event : CausalEvent) : Prop where
  authentic : eventIdIsAuthentic c event = true
  signature : eventSignatureHolds c event ≠ some false

theorem linkOrdered_pass_iff {ordered : List CausalEvent} :
    (linkOrdered c receipt ordered).status = .pass ↔
      (∀ event ∈ ordered, Genuine c event) ∧
        receipt.causalChainHash = some (chainHash c ordered) := by
  unfold linkOrdered
  split
  next hforged =>
    simp only [linkageCheck, reduceCtorEq, false_iff]
    rintro ⟨hgenuine, _⟩
    refine hforged (List.filter_eq_nil_iff.mpr ?_)
    intro event hevent
    simp [(hgenuine event hevent).authentic]
  next hauthentic =>
    rw [not_not, List.filter_eq_nil_iff] at hauthentic
    split
    next hunverifiable =>
      simp only [linkageCheck, reduceCtorEq, false_iff]
      rintro ⟨hgenuine, _⟩
      refine hunverifiable (List.filter_eq_nil_iff.mpr ?_)
      intro event hevent
      simp [(hgenuine event hevent).signature]
    next hsigned =>
      rw [not_not, List.filter_eq_nil_iff] at hsigned
      have hgenuine : ∀ event ∈ ordered, Genuine c event := by
        intro event hevent
        exact ⟨by simpa using hauthentic event hevent, by simpa using hsigned event hevent⟩
      rw [and_iff_right hgenuine]
      cases receipt.causalChainHash with
      | none => simp [linkageCheck]
      | some expected =>
        simp only [Option.some.injEq]
        split
        next hroot => simp [linkageCheck, hroot]
        next hroot => simp [linkageCheck, hroot]

theorem missingEvents_eq_nil :
    missingEvents receipt events = [] ↔ ∀ id ∈ receipt.causalEvents, ∃ event, events id = some event := by
  simp [missingEvents, List.filter_eq_nil_iff, ← Option.ne_none_iff_exists']

/-- When the check passes: something is listed, each listed id has a genuine event, and these
recompute to the root. -/
theorem chainLinkage_pass_iff :
    (chainLinkage c receipt events isPartial).status = .pass ↔
      receipt.causalEvents ≠ [] ∧
      (∀ id ∈ receipt.causalEvents, ∃ event, events id = some event ∧ Genuine c event) ∧
      receipt.causalChainHash = some (chainHash c (orderedEvents receipt events)) := by
  unfold chainLinkage
  split
  next hnone => simp [linkageCheck, hnone]
  next hlisted =>
    split
    next hmissing =>
      have hunresolved : ¬ ∀ id ∈ receipt.causalEvents, ∃ event, events id = some event ∧
          Genuine c event := by
        intro hall
        refine hmissing (missingEvents_eq_nil.mpr fun id hid => ?_)
        obtain ⟨event, hevent, _⟩ := hall id hid
        exact ⟨event, hevent⟩
      split
      next => simp [linkageCheck, hunresolved]
      next => simp [linkageCheck, hunresolved]
    next hpresent =>
      rw [not_not, missingEvents_eq_nil] at hpresent
      rw [linkOrdered_pass_iff]
      constructor
      · rintro ⟨hgenuine, hroot⟩
        refine ⟨hlisted, ?_, hroot⟩
        intro id hid
        obtain ⟨event, hevent⟩ := hpresent id hid
        exact ⟨event, hevent, hgenuine event (List.mem_filterMap.mpr ⟨id, hid, hevent⟩)⟩
      · rintro ⟨_, hall, hroot⟩
        refine ⟨?_, hroot⟩
        intro event hevent
        obtain ⟨id, hid, hsome⟩ := List.mem_filterMap.mp hevent
        obtain ⟨event', hsome', hgenuine⟩ := hall id hid
        exact Option.some.inj (hsome'.symm.trans hsome) ▸ hgenuine

end Linkage

/-! ### What an archive holds -/

/-- The bytes at a path. -/
def fileAt (archive : ReadArchive) (path : String) : Option Bytes :=
  (archive.entries.find? fun entry => entry.path == path).map ArchiveEntry.bytes

/-- The event under a name, as `verify_archive` keys it. -/
def eventAt (codec : ArchiveCodec) (archive : ReadArchive) : String → Option CausalEvent :=
  lookupLast (namedEvents codec archive.entries)

section Archive
variable {codec : ArchiveCodec} {archive : ReadArchive} {id path : String} {event : CausalEvent}
  {entry entry' : ArchiveEntry} {bytes : Bytes}

theorem entry_unique (h : entry ∈ archive.entries) (h' : entry' ∈ archive.entries)
    (hpath : entry.path = entry'.path) : entry = entry' :=
  List.inj_on_of_nodup_map archive.distinct h h' hpath

theorem fileAt_eq_some_iff :
    fileAt archive path = some bytes ↔
      ∃ entry ∈ archive.entries, entry.path = path ∧ entry.bytes = bytes := by
  rw [fileAt, Option.map_eq_some_iff]
  constructor
  · rintro ⟨entry, hfind, rfl⟩
    exact ⟨entry, List.mem_of_find?_eq_some hfind, by simpa using List.find?_some hfind, rfl⟩
  · rintro ⟨entry, hmem, rfl, rfl⟩
    have hsome : (archive.entries.find? fun other => other.path == entry.path).isSome = true := by
      rw [List.find?_isSome]
      exact ⟨entry, hmem, by simp⟩
    obtain ⟨other, hfind⟩ := Option.isSome_iff_exists.mp hsome
    have hpath : other.path = entry.path := by simpa using List.find?_some hfind
    rw [entry_unique (List.mem_of_find?_eq_some hfind) hmem hpath] at hfind
    exact ⟨entry, hfind, rfl⟩

theorem eventName_eq_some_iff : eventName path = some id ↔ path = eventPath id := by
  simp only [eventName, eventPath, Option.bind_eq_bind, Option.bind_eq_some_iff,
    List.dropPrefix?_eq_some_iff, List.dropSuffix?_eq_some_iff, beq_iff_eq, Option.pure_def,
    Option.some.injEq]
  constructor
  · rintro ⟨rest, ⟨_, hpath, rfl⟩, name, ⟨_, rfl, rfl⟩, rfl⟩
    rw [← String.toList_inj, hpath]
    simp
  · rintro rfl
    exact ⟨id.toList ++ ".json".toList, ⟨_, by simp, rfl⟩, id.toList, ⟨_, rfl, rfl⟩, by simp⟩

theorem mem_namedEvents {entries : List ArchiveEntry} :
    (id, event) ∈ namedEvents codec entries ↔
      ∃ entry ∈ entries, entry.path = eventPath id ∧ codec.event entry.bytes = some event := by
  simp only [namedEvents, List.mem_filterMap, Option.bind_eq_bind, Option.bind_eq_some_iff,
    eventName_eq_some_iff, Option.pure_def, Option.some.injEq, Prod.mk.injEq]
  constructor
  · rintro ⟨entry, hentry, _, hpath, _, hevent, rfl, rfl⟩
    exact ⟨entry, hentry, hpath, hevent⟩
  · rintro ⟨entry, hentry, hpath, hevent⟩
    exact ⟨entry, hentry, id, hpath, event, hevent, rfl, rfl⟩

/-- `verify_archive` finds the event in the file of the name, if it is one. -/
theorem eventAt_eq_some_iff :
    eventAt codec archive id = some event ↔
      ∃ bytes, fileAt archive (eventPath id) = some bytes ∧ codec.event bytes = some event := by
  simp only [eventAt, lookupLast, Option.map_eq_some_iff, fileAt_eq_some_iff]
  constructor
  · rintro ⟨⟨name, event⟩, hfind, rfl⟩
    have hname : name = id := by simpa using List.find?_some hfind
    have hmem := List.mem_reverse.mp (List.mem_of_find?_eq_some hfind)
    obtain ⟨entry, hentry, hpath, hevent⟩ := mem_namedEvents.mp (hname ▸ hmem)
    exact ⟨entry.bytes, ⟨entry, hentry, hpath, rfl⟩, hevent⟩
  · rintro ⟨_, ⟨entry, hentry, hpath, rfl⟩, hevent⟩
    have hmem : (id, event) ∈ namedEvents codec archive.entries :=
      mem_namedEvents.mpr ⟨entry, hentry, hpath, hevent⟩
    have hsome : ((namedEvents codec archive.entries).reverse.find? fun pair =>
        pair.1 == id).isSome = true := by
      rw [List.find?_isSome]
      exact ⟨_, List.mem_reverse.mpr hmem, by simp⟩
    obtain ⟨⟨name, event'⟩, hfind⟩ := Option.isSome_iff_exists.mp hsome
    have hname : name = id := by simpa using List.find?_some hfind
    have hmem' := List.mem_reverse.mp (List.mem_of_find?_eq_some hfind)
    obtain ⟨entry', hentry', hpath', hevent'⟩ := mem_namedEvents.mp (hname ▸ hmem')
    -- the paths being distinct, both pairs come from one entry
    obtain rfl := entry_unique hentry hentry' (hpath.trans hpath'.symm)
    exact ⟨_, hfind, Option.some.inj (hevent'.symm.trans hevent)⟩

end Archive

/-! ### What the evidence verifier asks -/

/-- A listed event as the evidence verifier holds it. -/
structure Vouched (c : Crates) (codec : ArchiveCodec) (files : String → Option Bytes)
    (expected : List String) (id : String) (event : CausalEvent) : Prop where
  digest : isDigest id = true
  file : ∃ bytes, files (eventPath id) = some bytes ∧ Evidence.event codec bytes = .ok event
  metadata : event.metadata = []
  named : event.eventId = id
  genuine : Genuine c event
  parents : ∀ parent ∈ event.causalParents, parent ∈ expected

section Assess
variable {c : Crates} {codec : ArchiveCodec} {files : String → Option Bytes} {receipt : Receipt}
  {expected missing ids : List String} {events events' : List (String × CausalEvent)} {id : String}
  {named : String → CausalEvent} {bytes : Bytes} {event event' : CausalEvent}

theorem examine_eq_ok :
    examine c codec expected id bytes = .ok event ↔
      Evidence.event codec bytes = .ok event ∧ event.metadata = [] ∧ event.eventId = id ∧
        Genuine c event ∧ ∀ parent ∈ event.causalParents, parent ∈ expected := by
  simp only [examine, except_bind_eq_ok, refuseIf_eq_ok, not_not, exists_const, pure, Except.pure,
    Except.ok.injEq, Bool.not_eq_false]
  constructor
  · rintro ⟨_, hread, hmetadata, hid, hauthentic, hsignature, hparents, rfl⟩
    exact ⟨hread, hmetadata, hid, ⟨hauthentic, hsignature⟩, hparents⟩
  · rintro ⟨hread, hmetadata, hid, hgenuine, hparents⟩
    exact ⟨event, hread, hmetadata, hid, hgenuine.authentic, hgenuine.signature, hparents, rfl⟩

theorem Vouched.unique (h : Vouched c codec files expected id event)
    (h' : Vouched c codec files expected id event') : event = event' := by
  obtain ⟨bytes, hfile, hread⟩ := h.file
  obtain ⟨bytes', hfile', hread'⟩ := h'.file
  obtain rfl := Option.some.inj (hfile.symm.trans hfile')
  exact Except.ok.inj (hread.symm.trans hread')

/-- The loop over events that are all vouched for. -/
theorem assessEvents_of_vouched (h : ∀ id ∈ ids, Vouched c codec files expected id (named id)) :
    assessEvents c codec files expected missing events ids =
      .ok (missing, events ++ ids.map fun id => (id, named id)) := by
  induction ids generalizing events with
  | nil => simp [assessEvents]
  | cons id rest ih =>
    have hid := h id List.mem_cons_self
    obtain ⟨bytes, hfile, hread⟩ := hid.file
    have hdigest : digest id = .ok () := refuseIf_eq_ok.mpr (by simp [hid.digest])
    have hexamine := examine_eq_ok.mpr ⟨hread, hid.metadata, hid.named, hid.genuine, hid.parents⟩
    simp only [assessEvents, hdigest, hfile, hexamine]
    refine (ih fun id hrest => h id (List.mem_cons_of_mem _ hrest)).trans ?_
    simp

/-- The loop that misses nothing has every event vouched for. -/
theorem vouched_of_assessEvents
    (h : assessEvents c codec files expected missing events ids = .ok ([], events')) :
    missing = [] ∧ ∀ id ∈ ids, ∃ event, Vouched c codec files expected id event := by
  induction ids generalizing missing events with
  | nil =>
    cases h
    exact ⟨rfl, fun _ hid => nomatch hid⟩
  | cons id rest ih =>
    simp only [assessEvents, except_bind_eq_ok] at h
    obtain ⟨_, hdigest, h⟩ := h
    rw [digest, refuseIf_eq_ok, Bool.not_eq_false] at hdigest
    split at h
    next =>
      obtain ⟨hmissing, _⟩ := ih h
      simp at hmissing
    next bytes hfile =>
      obtain ⟨event, hexamine, h⟩ := except_bind_eq_ok.mp h
      obtain ⟨hread, hmetadata, hnamed, hgenuine, hparents⟩ := examine_eq_ok.mp hexamine
      obtain ⟨hmissing, hrest⟩ := ih h
      refine ⟨hmissing, ?_⟩
      intro other hother
      rcases List.mem_cons.mp hother with rfl | hother
      · exact ⟨event, hdigest, ⟨bytes, hfile, hread⟩, hmetadata, hnamed, hgenuine, hparents⟩
      · exact hrest other hother

theorem lookupLast_map (h : id ∈ ids) :
    lookupLast (ids.map fun id => (id, named id)) id = some (named id) := by
  have hsome : ((ids.map fun id => (id, named id)).reverse.find? fun pair =>
      pair.1 == id).isSome = true := by
    rw [List.find?_isSome]
    exact ⟨(id, named id), List.mem_reverse.mpr (List.mem_map_of_mem h), by simp⟩
  obtain ⟨pair, hfind⟩ := Option.isSome_iff_exists.mp hsome
  have hname : pair.1 = id := by simpa using List.find?_some hfind
  obtain ⟨other, _, rfl⟩ :=
    List.mem_map.mp (List.mem_reverse.mp (List.mem_of_find?_eq_some hfind))
  obtain rfl : other = id := hname
  rw [lookupLast, hfind]
  rfl

theorem orderedEvents_eq_map {events : String → Option CausalEvent}
    (h : ∀ id ∈ receipt.causalEvents, events id = some (named id)) :
    orderedEvents receipt events = receipt.causalEvents.map named := by
  rw [orderedEvents, List.filterMap_congr h, List.filterMap_eq_map']

/-- When the evidence verifier passes a chain. -/
theorem assessCausal_eq_ok_iff (hlisted : receipt.causalEvents ≠ []) :
    assessCausal c codec receipt files = .ok none ↔
      receipt.causalEvents.Nodup ∧ ∃ named : String → CausalEvent,
        (∀ id ∈ receipt.causalEvents,
          Vouched c codec files receipt.causalEvents id (named id)) ∧
        receipt.causalChainHash = some (chainHash c (receipt.causalEvents.map named)) := by
  simp only [assessCausal, except_bind_eq_ok, refuseIf_eq_ok, not_not, exists_const, if_neg hlisted,
    Prod.exists]
  refine and_congr_right fun _ => ?_
  constructor
  · rintro ⟨missing, events, hassess, h⟩
    split at h
    next => cases h
    next hmissing =>
      obtain ⟨_, hlinked, _⟩ := except_bind_eq_ok.mp h
      rw [not_not] at hmissing
      subst hmissing
      obtain ⟨_, hvouched⟩ := vouched_of_assessEvents hassess
      obtain ⟨id, hid⟩ := List.exists_mem_of_ne_nil _ hlisted
      have : Nonempty CausalEvent := (hvouched id hid).nonempty
      choose! named hnamed using hvouched
      rw [assessEvents_of_vouched hnamed] at hassess
      cases hassess
      rw [refuseIf_eq_ok, not_not, chainLinkage_pass_iff] at hlinked
      refine ⟨named, hnamed, ?_⟩
      rw [hlinked.2.2, List.nil_append, orderedEvents_eq_map fun id hid => lookupLast_map hid]
  · rintro ⟨named, hnamed, hroot⟩
    refine ⟨[], _, assessEvents_of_vouched hnamed, ?_⟩
    have hlinked : (chainLinkage c receipt
        (lookupLast ([] ++ receipt.causalEvents.map fun id => (id, named id))) false).status = .pass := by
      rw [List.nil_append, chainLinkage_pass_iff]
      refine ⟨hlisted, ?_, ?_⟩
      · exact fun id hid => ⟨named id, lookupLast_map hid, (hnamed id hid).genuine⟩
      · rw [orderedEvents_eq_map fun id hid => lookupLast_map hid, hroot]
    rw [if_neg (by simp)]
    exact except_bind_eq_ok.mpr ⟨(), refuseIf_eq_ok.mpr (not_not.mpr hlinked), rfl⟩

end Assess

/-! ### The two verifiers on one archive -/

/-- Read by way of a value, an event is what it is when it is read at once. -/
def Agrees (codec : ArchiveCodec) : Prop :=
  ∀ bytes event, codec.event bytes = some event →
    ∃ value, codec.value bytes = .ok value ∧ value.event = .ok event

/-- Metadata aside: no event brings any. -/
def withoutMetadata (codec : ArchiveCodec) : ArchiveCodec :=
  { codec with
    value := fun bytes => (codec.value bytes).map fun value =>
      { value with event := value.event.map fun event => { event with metadata := [] } } }

section Archive
variable (b : Backend) (codec : ArchiveCodec) (archive : ReadArchive) (receipt : Receipt)

/-- The receipt in the archive. -/
def Carries : Prop :=
  ∃ bytes, fileAt archive "receipt.yaml" = some bytes ∧ readReceipt b bytes = .ok receipt

/-- `verify_archive` gives a verdict whose last check, the one on linkage, passes. -/
def PassesLinkage (files : Files) (path : String) (opts : VerifyOptions) (now : DateTime) : Prop :=
  ∃ verdict, verifyArchive b files codec path opts now archive.entries = .ok verdict ∧
    ∃ v ∈ verdict.receipts, v.checks.getLast?.map Check.status = some .pass

/-- Genuine events under the listed names recompute to the root, in an archive with a manifest. -/
structure Recomputes : Prop where
  manifest : ∃ bytes manifest, fileAt archive "manifest.json" = some bytes ∧
    codec.manifest bytes = .ok manifest ∧ manifest.format = archiveFormat
  listed : receipt.causalEvents ≠ []
  events : ∀ id ∈ receipt.causalEvents, ∃ event, eventAt codec archive id = some event ∧
    Genuine b.crates event
  root : receipt.causalChainHash =
    some (chainHash b.crates (orderedEvents receipt (eventAt codec archive)))

/-- Each listed file is named after the event it holds and says nothing else, each id is listed
once, and so is every parent. -/
structure Bound : Prop where
  distinct : receipt.causalEvents.Nodup
  named : ∀ id ∈ receipt.causalEvents, ∀ event, eventAt codec archive id = some event →
    event.eventId = id
  parents : ∀ id ∈ receipt.causalEvents, ∀ event, eventAt codec archive id = some event →
    ∀ parent ∈ event.causalParents, parent ∈ receipt.causalEvents
  known : ∀ id ∈ receipt.causalEvents, ∀ bytes, fileAt archive (eventPath id) = some bytes →
    ∀ value, codec.value bytes = .ok value →
      ∃ keys, value.keys = some keys ∧ ∀ key ∈ keys, key ∈ eventKeys

/-- What linkage is for: distinct ids, each with the event of that id in its file, parents that
are listed, and the evidence verifier would pass the chain as well. -/
structure Tied : Prop where
  distinct : receipt.causalEvents.Nodup
  events : ∀ id ∈ receipt.causalEvents, ∃ bytes event,
    fileAt archive (eventPath id) = some bytes ∧ codec.event bytes = some event ∧
      event.eventId = id ∧ ∀ parent ∈ event.causalParents, parent ∈ receipt.causalEvents
  assessed : (causalCheck b.crates (withoutMetadata codec) receipt (fileAt archive)).status = .pass

/-- Linkage passes only where it ties the listed ids to their events. -/
def LinkageTies : Prop :=
  ∀ files path opts now, PassesLinkage b codec archive files path opts now →
    Tied b codec archive receipt

end Archive

section Compare
variable {b : Backend} {codec : ArchiveCodec} {archive archive' : ReadArchive}
  {receipt receipt' : Receipt}

theorem filter_path {entry : ArchiveEntry} (h : entry ∈ archive.entries) :
    (archive.entries.filter fun other => other.path == entry.path) = [entry] := by
  have hdistinct := archive.distinct
  obtain ⟨before, after, hentries⟩ := List.append_of_mem h
  rw [hentries, List.map_append, List.map_cons, List.nodup_append, List.nodup_cons] at hdistinct
  obtain ⟨_, ⟨hafter, _⟩, hbefore⟩ := hdistinct
  have hnone : (before.filter fun other => other.path == entry.path) = [] := by
    rw [List.filter_eq_nil_iff]
    intro other hother
    rw [beq_iff_eq]
    exact hbefore _ (List.mem_map_of_mem hother) _ List.mem_cons_self
  have hnone' : (after.filter fun other => other.path == entry.path) = [] := by
    rw [List.filter_eq_nil_iff]
    intro other hother
    rw [beq_iff_eq]
    exact fun hpath => hafter (hpath ▸ List.mem_map_of_mem hother)
  rw [hentries, List.filter_append, List.filter_cons_of_pos (by simp), hnone, hnone', List.nil_append]

/-- The verdict on the receipt ends with the check of linkage. -/
theorem verifyEntry_last {files : Files} {path : String} {opts : VerifyOptions} {now : DateTime}
    {entry : ArchiveEntry} (hread : readReceipt b entry.bytes = .ok receipt) (isPartial : Bool) :
    ∃ v, verifyEntry b files codec path opts now archive.entries isPartial entry = .ok v ∧
      v.checks.getLast? =
        some (chainLinkage b.crates receipt (eventAt codec archive) isPartial) := by
  obtain ⟨document, hyaml, _⟩ := except_bind_eq_ok.mp hread
  have hverified : ∃ verdict, verifyReceiptBytes b files entry.bytes s!"{path}:{entry.path}" opts now =
      .ok verdict := by
    simp only [verifyReceiptBytes, hyaml]
    split
    next => exact ⟨_, rfl⟩
    next =>
      split
      next => exact ⟨_, rfl⟩
      next => exact ⟨_, rfl⟩
  obtain ⟨verdict, hverdict⟩ := hverified
  refine ⟨_, except_bind_eq_ok.mpr ⟨verdict, hverdict, rfl⟩, ?_⟩
  rw [applyPolicy, List.getLast?_append, linkageOf, hread]
  rfl

/-- The verdict on an archive with a manifest and a receipt that can be read. -/
theorem verifyArchive_of_files {files : Files} {path : String} {opts : VerifyOptions} {now : DateTime}
    {manifestBytes bytes : Bytes} {manifest : ArchiveManifest}
    (hmanifestFile : fileAt archive "manifest.json" = some manifestBytes)
    (hmanifest : codec.manifest manifestBytes = .ok manifest) (hformat : manifest.format = archiveFormat)
    (hfile : fileAt archive "receipt.yaml" = some bytes) (hread : readReceipt b bytes = .ok receipt) :
    ∃ v, verifyArchive b files codec path opts now archive.entries = .ok ⟨[v], manifest.isPartial⟩ ∧
      v.checks.getLast? =
        some (chainLinkage b.crates receipt (eventAt codec archive) manifest.isPartial) := by
  obtain ⟨entry, hentry, hpath, rfl⟩ := fileAt_eq_some_iff.mp hfile
  have hone := filter_path hentry
  rw [hpath] at hone
  obtain ⟨v, hv, hlast⟩ := @verifyEntry_last b codec archive receipt files path opts now entry hread
    manifest.isPartial
  obtain ⟨manifestEntry, hfind, rfl⟩ := Option.map_eq_some_iff.mp hmanifestFile
  refine ⟨v, ?_, hlast⟩
  rw [verifyArchive, hfind]
  simp only [except_bind_eq_ok, mapError_eq_ok, refuseIf_eq_ok, not_not, exists_const, hone]
  refine ⟨manifest, hmanifest, hformat, [v], ?_, by simp, rfl⟩
  rw [List.mapM_cons, hv]
  rfl

/-- What `verify_archive` passes is what recomputes. -/
theorem passesLinkage_iff (hcarries : Carries b archive receipt) {files : Files} {path : String}
    {opts : VerifyOptions} {now : DateTime} :
    PassesLinkage b codec archive files path opts now ↔ Recomputes b codec archive receipt := by
  obtain ⟨bytes, hfile, hread⟩ := hcarries
  obtain ⟨entry, hentry, hpath, rfl⟩ := fileAt_eq_some_iff.mp hfile
  constructor
  · rintro ⟨verdict, hverify, v, hv, hpass⟩
    have hone := filter_path hentry
    rw [hpath] at hone
    unfold verifyArchive at hverify
    split at hverify
    next => cases hverify
    next manifestEntry hfind =>
      simp only [except_bind_eq_ok, mapError_eq_ok, refuseIf_eq_ok, not_not, exists_const] at hverify
      obtain ⟨manifest, hmanifest, hformat, receipts, hreceipts, _, hverdict⟩ := hverify
      obtain ⟨v', hv', hlast⟩ := @verifyEntry_last b codec archive receipt files path opts now entry hread
        manifest.isPartial
      rw [hone, List.mapM_cons, hv'] at hreceipts
      cases hreceipts
      cases hverdict
      rw [List.mem_singleton.mp hv, hlast, Option.map_some, Option.some.injEq,
        chainLinkage_pass_iff] at hpass
      have hmanifestFile : fileAt archive "manifest.json" = some manifestEntry.bytes := by
        rw [fileAt, hfind, Option.map_some]
      exact ⟨⟨_, manifest, hmanifestFile, hmanifest, hformat⟩, hpass.1, hpass.2.1, hpass.2.2⟩
  · intro h
    obtain ⟨manifestBytes, manifest, hmanifestFile, hmanifest, hformat⟩ := h.manifest
    obtain ⟨v, hverify, hlast⟩ := @verifyArchive_of_files b codec archive receipt files path opts now _ _
      _ hmanifestFile hmanifest hformat hfile hread
    have hpass : (chainLinkage b.crates receipt (eventAt codec archive) manifest.isPartial).status =
        .pass := chainLinkage_pass_iff.mpr ⟨h.listed, h.events, h.root⟩
    exact ⟨_, hverify, v, List.mem_singleton.mpr rfl, by rw [hlast, Option.map_some, hpass]⟩

theorem event_eq_ok {bytes : Bytes} {event : CausalEvent} :
    Evidence.event codec bytes = .ok event ↔
      ∃ value keys, codec.value bytes = .ok value ∧ value.keys = some keys ∧
        (∀ key ∈ keys, key ∈ eventKeys) ∧ value.event = .ok event := by
  simp only [Evidence.event, except_bind_eq_ok, mapError_eq_ok]
  constructor
  · rintro ⟨value, hvalue, _, hfields, hevent⟩
    unfold fields at hfields
    split at hfields
    next => cases hfields
    next keys hkeys =>
      rw [refuseIf_eq_ok, not_not] at hfields
      exact ⟨value, keys, hvalue, hkeys, hfields, hevent⟩
  · rintro ⟨value, keys, hvalue, hkeys, hknown, hevent⟩
    refine ⟨value, hvalue, (), ?_, hevent⟩
    rw [fields, hkeys]
    exact refuseIf_eq_ok.mpr (not_not.mpr hknown)

theorem isDigest_hexEncode (v : Vector UInt8 32) : isDigest (hexEncode v.toList) = true := by
  simp [isDigest, isLowerHex, Trust.utf8ByteSize_hexEncode, Trust.hexEncode_all_lower]

/-- The event of a listed id, and what is read of it either way. -/
theorem vouched_of_bound (hagrees : Agrees codec) (hbound : Bound codec archive receipt) {id : String}
    (hid : id ∈ receipt.causalEvents) {event : CausalEvent}
    (hevent : eventAt codec archive id = some event) (hgenuine : Genuine b.crates event) :
    Vouched b.crates (withoutMetadata codec) (fileAt archive) receipt.causalEvents id
      { event with metadata := [] } := by
  obtain ⟨bytes, hfile, hread⟩ := eventAt_eq_some_iff.mp hevent
  obtain ⟨value, hvalue, hsame⟩ := hagrees bytes event hread
  obtain ⟨keys, hkeys, hknown⟩ := hbound.known id hid bytes hfile value hvalue
  have hnamed := hbound.named id hid event hevent
  refine ⟨?_, ⟨bytes, hfile, ?_⟩, rfl, hnamed, ⟨hgenuine.authentic, hgenuine.signature⟩,
    hbound.parents id hid event hevent⟩
  · rw [← hnamed, eventIdIsAuthentic_iff.mp hgenuine.authentic]
    exact isDigest_hexEncode _
  · refine event_eq_ok.mpr ⟨{ value with event := value.event.map fun event =>
      { event with metadata := [] } }, keys, ?_, hkeys, hknown, ?_⟩
    · simp only [withoutMetadata, hvalue]
      rfl
    · simp only [hsame, Except.map]

theorem causalCheck_pass_iff {c : Crates} {files : String → Option Bytes} :
    (causalCheck c codec receipt files).status = .pass ↔
      assessCausal c codec receipt files = .ok none := by
  unfold causalCheck result
  split
  next h => simp [h]
  next h => simp [h]
  next h => simp [h]

theorem tied_of_bound (hagrees : Agrees codec) (h : Recomputes b codec archive receipt)
    (hbound : Bound codec archive receipt) : Tied b codec archive receipt := by
  refine ⟨hbound.distinct, ?_, ?_⟩
  · intro id hid
    obtain ⟨event, hevent, _⟩ := h.events id hid
    obtain ⟨bytes, hfile, hread⟩ := eventAt_eq_some_iff.mp hevent
    exact ⟨bytes, event, hfile, hread, hbound.named id hid event hevent,
      hbound.parents id hid event hevent⟩
  · obtain ⟨id, hid⟩ := List.exists_mem_of_ne_nil _ h.listed
    have : Nonempty CausalEvent := (h.events id hid).nonempty
    have hevents := h.events
    choose! event hevent hgenuine using hevents
    refine causalCheck_pass_iff.mpr ((assessCausal_eq_ok_iff h.listed).mpr ⟨hbound.distinct, ?_⟩)
    refine ⟨fun id => { event id with metadata := [] }, ?_, ?_⟩
    · exact fun id hid => vouched_of_bound hagrees hbound hid (hevent id hid) (hgenuine id hid)
    · rw [h.root, orderedEvents_eq_map hevent]
      have hchain : chainBytes b.crates (receipt.causalEvents.map event) =
          chainBytes b.crates (receipt.causalEvents.map fun id =>
            { event id with metadata := [] }) := by
        simp only [chainBytes, List.flatMap_map]
        rfl
      rw [chainHash, chainHash, hchain]

theorem bound_of_tied (h : Recomputes b codec archive receipt) (htied : Tied b codec archive receipt) :
    Bound codec archive receipt := by
  have hevents : ∀ id ∈ receipt.causalEvents, ∀ event, eventAt codec archive id = some event →
      event.eventId = id ∧ ∀ parent ∈ event.causalParents, parent ∈ receipt.causalEvents := by
    intro id hid event hevent
    obtain ⟨bytes, event', hfile, hread, htrue⟩ := htied.events id hid
    have hevent' := eventAt_eq_some_iff.mpr ⟨bytes, hfile, hread⟩
    exact Option.some.inj (hevent'.symm.trans hevent) ▸ htrue
  obtain ⟨_, named, hvouched, _⟩ :=
    (assessCausal_eq_ok_iff h.listed).mp (causalCheck_pass_iff.mp htied.assessed)
  refine ⟨htied.distinct, fun id hid event he => (hevents id hid event he).1,
    fun id hid event he => (hevents id hid event he).2, ?_⟩
  intro id hid bytes hfile value hvalue
  obtain ⟨bytes', hfile', hread⟩ := (hvouched id hid).file
  obtain rfl := Option.some.inj (hfile.symm.trans hfile')
  obtain ⟨value', keys, hvalue', hkeys, hknown, _⟩ := event_eq_ok.mp hread
  simp only [withoutMetadata, hvalue] at hvalue'
  cases hvalue'
  exact ⟨keys, hkeys, hknown⟩

/-- Under names that are right, the events give back the list. -/
theorem ids_orderedEvents (h : Recomputes b codec archive receipt)
    (hbound : Bound codec archive receipt) :
    (orderedEvents receipt (eventAt codec archive)).map (eventIdOf b.crates) =
      receipt.causalEvents := by
  obtain ⟨id, hid⟩ := List.exists_mem_of_ne_nil _ h.listed
  have : Nonempty CausalEvent := (h.events id hid).nonempty
  have hevents := h.events
  choose! event hevent hgenuine using hevents
  have hids : ∀ id ∈ receipt.causalEvents, (eventIdOf b.crates ∘ event) id = id := by
    intro id hid
    have hauthentic := eventIdIsAuthentic_iff.mp (hgenuine id hid).authentic
    exact hauthentic.symm.trans (hbound.named id hid _ (hevent id hid))
  rw [orderedEvents_eq_map hevent, List.map_map, List.map_congr_left hids, List.map_id']

/-- Two receipts with the same signing bytes. -/
def SignedAlike (b : Backend) (receipt receipt' : Receipt) : Prop :=
  ∃ text, receiptSigningBytes b.receiptJson receipt = .ok text ∧
    receiptSigningBytes b.receiptJson receipt' = .ok text

theorem causalEvents_eq (h : Recomputes b codec archive receipt)
    (h' : Recomputes b codec archive' receipt') (hbound : Bound codec archive receipt)
    (hbound' : Bound codec archive' receipt')
    (hdistinguishes : Distinguishes b.receiptJson {receipt.signingForm, receipt'.signingForm})
    (hcollision : Set.InjOn b.crates.blake3
      {chainBytes b.crates (orderedEvents receipt (eventAt codec archive)),
        chainBytes b.crates (orderedEvents receipt' (eventAt codec archive'))})
    (halike : SignedAlike b receipt receipt') :
    receipt.causalEvents = receipt'.causalEvents := by
  have hfacts : SameFacts receipt receipt' := by
    obtain ⟨text, hsigned, hsigned'⟩ := halike
    rw [receiptSigningBytes_eq_ok] at hsigned hsigned'
    exact signingForm_eq_iff.mp
      (hdistinguishes.injOn (by simp) (by simp) (hsigned.trans hsigned'.symm))
  have hids := ids_orderedEvents h hbound
  have hids' := ids_orderedEvents h' hbound'
  have hlength : (orderedEvents receipt (eventAt codec archive)).length =
      (orderedEvents receipt' (eventAt codec archive')).length := by
    have hlen := congrArg List.length hids
    have hlen' := congrArg List.length hids'
    rw [List.length_map] at hlen hlen'
    rw [hlen, hlen', hfacts.causalEvents.length_eq]
  have hroots : chainHash b.crates (orderedEvents receipt (eventAt codec archive)) =
      chainHash b.crates (orderedEvents receipt' (eventAt codec archive')) :=
    Option.some.inj (h.root.symm.trans (hfacts.causalChainHash.trans h'.root))
  have hbytes := chainBytes_of_chainHash hcollision hroots
  rw [← hids, ← hids', map_eventIdOf_of_chainBytes hlength hbytes]

end Compare

/-! ### A run of two steps, listed in its order and in the other

The first event has no parent, the second has the first. The files of the other archive are
named after each other's ids. -/

/-- The digest a hexadecimal number spells. -/
def hashOf (n : Nat) : Vector UInt8 32 :=
  Vector.ofFn fun i => UInt8.ofNat (n / 256 ^ (31 - i.val) % 256)

def fetchContent : Vector UInt8 32 :=
  hashOf 0xd7f911964ddeca96d834a59a6c22d1a0ef25cf4a8d0059e810fdce916586d7cf

def buildContent : Vector UInt8 32 :=
  hashOf 0xec88c575cf241efc3eab90e290e92306f86a3c51b5f6dcc1bd4956174ae42c5e

def fetchId : String := "e09fb431dce8c3f341a924bbb610f75f723e10574e5db2bfc3042882c52e714a"

def buildId : String := "b27aaa7cf028f11b37b3ef0a632211e9310882536055d8f5882879ebc21a3a74"

def linkedRoot : String := "244e788e0760935fadd61345578360691c4b90c020cac3b2aa8e5223f966bf40"

def stepEvent (id step input output : String) (parents : List String) : CausalEvent where
  eventId := id
  stepName := step
  causalParents := parents
  inputHash := input
  outputHash := output
  timestamp := sampleDate
  exitCode := 0
  pipelineHash := sampleDigest 'a'
  environmentHash := sampleDigest 'd'
  signerPublicKey := none
  signature := none
  metadata := []

def fetchEvent : CausalEvent := stepEvent fetchId "fetch" (sampleDigest 'b') (sampleDigest 'c') []

def buildEvent : CausalEvent :=
  stepEvent buildId "build" (sampleDigest 'c') (sampleDigest 'b') [fetchId]

/-- What an event's content is the digest of. -/
def eventPreimage (event : CausalEvent) : Bytes :=
  (eventFields event).flatMap fun field => hashField field.1 field.2

/-- The crates, as they behave on the two events. -/
def linkedCrates : Crates :=
  { sampleReceiptCrates with
    blake3 := fun bytes => (List.lookup bytes
      [(eventPreimage fetchEvent, fetchContent), (eventPreimage buildEvent, buildContent),
        (fetchContent.toList,
          hashOf 0xe09fb431dce8c3f341a924bbb610f75f723e10574e5db2bfc3042882c52e714a),
        (buildContent.toList,
          hashOf 0xb27aaa7cf028f11b37b3ef0a632211e9310882536055d8f5882879ebc21a3a74),
        (fetchContent.toList ++ buildContent.toList,
          hashOf 0x244e788e0760935fadd61345578360691c4b90c020cac3b2aa8e5223f966bf40)]).getD
            (Vector.replicate 32 0) }

theorem linked_hashes :
    eventContent linkedCrates fetchEvent = fetchContent.toList ∧
      eventContent linkedCrates buildEvent = buildContent.toList ∧
      eventIdOf linkedCrates fetchEvent = fetchId ∧ eventIdOf linkedCrates buildEvent = buildId ∧
      chainHash linkedCrates [fetchEvent, buildEvent] = linkedRoot ∧
      ((utf8 (Json.quote buildEvent.eventId)).length = (utf8 (Json.quote fetchEvent.eventId)).length ∧
        utf8 (Json.quote buildEvent.eventId) ≠ utf8 (Json.quote fetchEvent.eventId)) ∧
      (utf8 buildId).length = (utf8 fetchId).length ∧ utf8 buildId ≠ utf8 fetchId := by
  decide +kernel

def eventJson (event : CausalEvent) : Json := .object
  [("event_id", .text event.eventId), ("step_name", .text event.stepName),
    ("causal_parents", .array (event.causalParents.map .text)),
    ("input_hash", .text event.inputHash), ("output_hash", .text event.outputHash),
    ("timestamp", .text event.timestamp.rfc3339), ("exit_code", .number event.exitCode.toNat),
    ("pipeline_hash", .text event.pipelineHash), ("environment_hash", .text event.environmentHash),
    ("signature", .null), ("metadata", .object [])]

def eventText (event : CausalEvent) : Bytes := utf8 (Json.pretty (eventJson event))

def linkedManifest : Bytes := utf8 (Json.pretty (.object
  [("format", .text archiveFormat), ("created", .text sampleDate.toRfc3339),
    ("attest_version", .text "0.4.0")]))

/-- `serde_json` on two texts that hold an event each. -/
def codecOf (manifest : Bytes) (text : CausalEvent → Bytes) (first second : CausalEvent) :
    ArchiveCodec where
  manifest bytes :=
    if bytes = manifest then .ok ⟨archiveFormat, false⟩ else .error "expected value"
  event bytes :=
    if bytes = text first then some first else if bytes = text second then some second else none
  value bytes :=
    if bytes = text first then .ok ⟨some eventKeys, .ok first⟩
    else if bytes = text second then .ok ⟨some eventKeys, .ok second⟩ else .error "expected value"

def linkedCodec : ArchiveCodec := codecOf linkedManifest eventText fetchEvent buildEvent

def linkedReceipt (ids : List String) : Receipt :=
  { sampleReceipt sampleDate with causalEvents := ids, causalChainHash := some linkedRoot }

/-- The text of the receipt as it is signed: the ids are sorted. -/
def linkedText : String :=
  "\x7b\"schema_version\":3,\"pipeline_hash\":\"" ++ sampleDigest 'a' ++ "\",\"steps\":[" ++
    sampleStepText "build" (sampleDigest 'c') (sampleDigest 'b') "2" ++ "," ++
    sampleStepText "fetch" (sampleDigest 'b') (sampleDigest 'c') "1" ++ "],\"timestamp\":\"" ++
    sampleDate.rfc3339 ++ "\",\"total_duration_secs\":3,\"signature\":null," ++
    "\"signer_public_key\":null,\"attest_version\":\"0.3.1\",\"causal_events\":[\"" ++
    buildId ++ "\",\"" ++ fetchId ++ "\"],\"causal_chain_hash\":\"" ++ linkedRoot ++ "\"\x7d"

/-- The file of the receipt, up to the list, and after it. -/
def linkedYaml (first second : String) : Bytes :=
  utf8 ("schema_version: 3\npipeline_hash: " ++ sampleDigest 'a' ++ "\nsteps:\n" ++
    sampleStepYaml "fetch" (sampleDigest 'b') (sampleDigest 'c') "1" ++
    sampleStepYaml "build" (sampleDigest 'c') (sampleDigest 'b') "2" ++
    "timestamp: 2026-08-01T00:00:00Z\ntotal_duration_secs: 3\nsignature: null\n" ++
    "signer_public_key: null\nattest_version: 0.3.1\ncausal_events:\n- ") ++ utf8 first ++
  utf8 "\n- " ++ utf8 second ++ utf8 "\ncausal_chain_hash: " ++ utf8 linkedRoot ++ utf8 "\n"

def linkedBackend : Backend :=
  { sampleBackend with
    crates := linkedCrates
    receiptJson := fun receipt =>
      if receipt = (linkedReceipt [fetchId, buildId]).signingForm then .ok linkedText
      else .error "no such receipt"
    readYaml := fun content =>
      if content = linkedYaml fetchId buildId then
        .ok ⟨some 3, .ok (linkedReceipt [fetchId, buildId])⟩
      else if content = linkedYaml buildId fetchId then
        .ok ⟨some 3, .ok (linkedReceipt [buildId, fetchId])⟩
      else .error "expected value" }

/-- The first event under the first name, the second under the second. -/
def linkedEntries (first second : String) : List ArchiveEntry :=
  [⟨eventPath first, eventText fetchEvent⟩, ⟨eventPath second, eventText buildEvent⟩,
    ⟨"manifest.json", linkedManifest⟩, ⟨"receipt.yaml", linkedYaml first second⟩]

def honestArchive : ReadArchive := ⟨linkedEntries fetchId buildId, by decide +kernel⟩

def swappedArchive : ReadArchive := ⟨linkedEntries buildId fetchId, by decide +kernel⟩

theorem agrees_codecOf {manifest : Bytes} {text : CausalEvent → Bytes} {first second : CausalEvent} :
    Agrees (codecOf manifest text first second) := by
  intro bytes event h
  simp only [codecOf] at h ⊢
  split at h
  next hfirst =>
    cases h
    exact ⟨_, if_pos hfirst, rfl⟩
  next hfirst =>
    split at h
    next hsecond =>
      cases h
      exact ⟨_, (if_neg hfirst).trans (if_pos hsecond), rfl⟩
    next => cases h

/-- The text of an event starts with its id. -/
theorem exists_eventText (event : CausalEvent) : ∃ rest,
    eventText event = utf8 "\x7b\n  \"event_id\": " ++ (utf8 (Json.quote event.eventId) ++ rest) := by
  have hutf8 : ∀ a b : String, utf8 (a ++ b) = utf8 a ++ utf8 b := by
    intro a b
    simp [utf8, String.toByteArray_append]
  have hopening : utf8 "\x7b\n  \"event_id\": " =
      utf8 "\x7b" ++ (utf8 "" ++ utf8 (Json.prettyLayout.newline (0 + 1)) ++ utf8 (Json.quote "event_id") ++
        utf8 Json.prettyLayout.colon) := by decide +kernel
  simp only [eventText, eventJson, Json.pretty, Json.render, Json.renderFields, hutf8, hopening,
    List.append_assoc]
  exact ⟨_, rfl⟩

theorem eventText_ne : eventText buildEvent ≠ eventText fetchEvent := by
  intro h
  obtain ⟨rest, hbuild⟩ := exists_eventText buildEvent
  obtain ⟨rest', hfetch⟩ := exists_eventText fetchEvent
  rw [hbuild, hfetch] at h
  obtain ⟨hlength, hne⟩ := linked_hashes.2.2.2.2.2.1
  exact hne (List.append_inj (List.append_cancel_left h) hlength).1

theorem codecOf_reads {manifest : Bytes} {text : CausalEvent → Bytes} {first second : CausalEvent}
    (hne : text second ≠ text first) :
    (codecOf manifest text first second).event (text first) = some first ∧
      (codecOf manifest text first second).event (text second) = some second ∧
      (codecOf manifest text first second).manifest manifest = .ok ⟨archiveFormat, false⟩ := by
  simp [codecOf, hne]

theorem linkedCodec_reads :
    linkedCodec.event (eventText fetchEvent) = some fetchEvent ∧
      linkedCodec.event (eventText buildEvent) = some buildEvent ∧
      linkedCodec.manifest linkedManifest = .ok ⟨archiveFormat, false⟩ :=
  codecOf_reads eventText_ne

theorem linkedYaml_ne : linkedYaml buildId fetchId ≠ linkedYaml fetchId buildId := by
  intro h
  simp only [linkedYaml, List.append_assoc] at h
  obtain ⟨hlength, hne⟩ := linked_hashes.2.2.2.2.2.2
  exact hne (List.append_inj (List.append_cancel_left h) hlength).1

section Linked
variable {archive : ReadArchive} {first second : String}
  (hentries : archive.entries = linkedEntries first second)
include hentries

theorem fileAt_linked :
    fileAt archive (eventPath first) = some (eventText fetchEvent) ∧
      fileAt archive (eventPath second) = some (eventText buildEvent) ∧
      fileAt archive "manifest.json" = some linkedManifest ∧
      fileAt archive "receipt.yaml" = some (linkedYaml first second) := by
  simp only [fileAt_eq_some_iff, hentries, linkedEntries]
  exact ⟨⟨_, .head _, rfl, rfl⟩, ⟨_, .tail _ (.head _), rfl, rfl⟩,
    ⟨_, .tail _ (.tail _ (.head _)), rfl, rfl⟩, ⟨_, .tail _ (.tail _ (.tail _ (.head _))), rfl, rfl⟩⟩

theorem eventAt_linked :
    eventAt linkedCodec archive first = some fetchEvent ∧
      eventAt linkedCodec archive second = some buildEvent := by
  obtain ⟨hfirst, hsecond, _⟩ := fileAt_linked hentries
  obtain ⟨hfetch, hbuild, _⟩ := linkedCodec_reads
  exact ⟨eventAt_eq_some_iff.mpr ⟨_, hfirst, hfetch⟩, eventAt_eq_some_iff.mpr ⟨_, hsecond, hbuild⟩⟩

theorem recomputes_linked :
    Recomputes linkedBackend linkedCodec archive (linkedReceipt [first, second]) := by
  obtain ⟨_, _, hmanifest, _⟩ := fileAt_linked hentries
  obtain ⟨hfirst, hsecond⟩ := eventAt_linked hentries
  obtain ⟨_, _, hfetch, hbuild, hroot, _⟩ := linked_hashes
  have hgenuine : Genuine linkedBackend.crates fetchEvent ∧ Genuine linkedBackend.crates buildEvent :=
    ⟨⟨eventIdIsAuthentic_iff.mpr hfetch.symm, fun h => nomatch h⟩,
      ⟨eventIdIsAuthentic_iff.mpr hbuild.symm, fun h => nomatch h⟩⟩
  refine ⟨⟨_, _, hmanifest, linkedCodec_reads.2.2, rfl⟩, by simp [linkedReceipt], ?_, ?_⟩
  · intro id hid
    rcases List.mem_pair.mp hid with rfl | rfl
    · exact ⟨fetchEvent, hfirst, hgenuine.1⟩
    · exact ⟨buildEvent, hsecond, hgenuine.2⟩
  · have hordered : orderedEvents (linkedReceipt [first, second]) (eventAt linkedCodec archive) =
        [fetchEvent, buildEvent] := by
      simp [orderedEvents, linkedReceipt, hfirst, hsecond]
    rw [hordered]
    exact congrArg some hroot.symm

end Linked

theorem carries_linked :
    Carries linkedBackend honestArchive (linkedReceipt [fetchId, buildId]) ∧
      Carries linkedBackend swappedArchive (linkedReceipt [buildId, fetchId]) := by
  have hhonest := (@fileAt_linked honestArchive _ _ rfl).2.2.2
  have hswapped := (@fileAt_linked swappedArchive _ _ rfl).2.2.2
  have hread : linkedBackend.readYaml (linkedYaml fetchId buildId) =
      .ok ⟨some 3, .ok (linkedReceipt [fetchId, buildId])⟩ := by
    simp only [linkedBackend, if_true]
  have hread' : linkedBackend.readYaml (linkedYaml buildId fetchId) =
      .ok ⟨some 3, .ok (linkedReceipt [buildId, fetchId])⟩ := by
    simp only [linkedBackend, if_neg linkedYaml_ne, if_true]
  exact ⟨⟨_, hhonest, except_bind_eq_ok.mpr ⟨_, hread, rfl⟩⟩,
    ⟨_, hswapped, except_bind_eq_ok.mpr ⟨_, hread', rfl⟩⟩⟩

theorem signedAlike_linked :
    SignedAlike linkedBackend (linkedReceipt [fetchId, buildId]) (linkedReceipt [buildId, fetchId]) := by
  have hfacts : SameFacts (linkedReceipt [buildId, fetchId]) (linkedReceipt [fetchId, buildId]) :=
    { schemaVersion := rfl
      pipelineHash := rfl
      steps := StableSort.reordered_iff.mpr rfl
      timestamp := rfl
      totalDurationSecs := rfl
      attestVersion := rfl
      causalEvents := List.Perm.swap _ _ _
      causalChainHash := rfl
      reproducibility := rfl
      provenance := rfl
      isolation := rfl }
  have hform := signingForm_eq_iff.mpr hfacts
  refine ⟨linkedText, receiptSigningBytes_eq_ok.mpr ?_, receiptSigningBytes_eq_ok.mpr ?_⟩
  · simp only [linkedBackend, if_true]
  · simp only [linkedBackend, hform, if_true]

/-- Texts of the codec have the keys of an event. -/
theorem keys_codecOf {manifest : Bytes} {text : CausalEvent → Bytes} {first second : CausalEvent}
    {bytes : Bytes} {value : EventValue}
    (h : (codecOf manifest text first second).value bytes = .ok value) :
    value.keys = some eventKeys := by
  simp only [codecOf] at h
  split at h
  next =>
    cases h
    rfl
  next =>
    split at h
    next =>
      cases h
      rfl
    next => cases h

theorem bound_honest : Bound linkedCodec honestArchive (linkedReceipt [fetchId, buildId]) := by
  obtain ⟨hfetch, hbuild⟩ := @eventAt_linked honestArchive _ _ rfl
  have hevents : ∀ id ∈ [fetchId, buildId], ∀ event,
      eventAt linkedCodec honestArchive id = some event →
        event.eventId = id ∧ ∀ parent ∈ event.causalParents, parent ∈ [fetchId, buildId] := by
    intro id hid event hevent
    rcases List.mem_pair.mp hid with rfl | rfl
    · obtain rfl := Option.some.inj (hfetch.symm.trans hevent)
      exact ⟨rfl, fun _ h => nomatch h⟩
    · obtain rfl := Option.some.inj (hbuild.symm.trans hevent)
      exact ⟨rfl, fun parent h => List.mem_singleton.mp h ▸ .head _⟩
  refine ⟨by decide +kernel, fun id hid event h => (hevents id hid event h).1,
    fun id hid event h => (hevents id hid event h).2, ?_⟩
  intro id _ bytes _ value hvalue
  exact ⟨eventKeys, keys_codecOf hvalue, fun _ h => h⟩

/-! ### When linkage ties -/

section Results
variable {b : Backend} {codec : ArchiveCodec} {archive : ReadArchive} {receipt : Receipt}

end Results

end Attest.Evidence
