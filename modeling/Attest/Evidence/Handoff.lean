import Attest.Evidence.Packing

/-! From the sender to the recipient.

The recipient works out from the signed receipt which files there have to be, and the sender does
not say. What was packed is all there under the names that are looked for, so that a check of
what was packed fails only for what was given. The ledger is sent as it is: whether its events
recompute to the root of the receipt is not looked at before it is sent. -/
namespace Attest.Evidence
open Library Library.Fallible Storage Verify Archive Hashing
open Executor (cleared genuine_cleared chainHash_cleared ReadsBack)
open Trust (Bytes Crates DateTime keyId samplePublicA utf8 hexEncode length_utf8)

section Handoff
variable {IdentityPolicy Archive : Type} (p : Packer IdentityPolicy Archive) (fs : FileSystem)

/-- The events of the ledger that are sent. -/
def sentEvents (workspace : Path) (ids : List String) : List CausalEvent :=
  ids.filterMap fun id => match ledgerEvent p fs workspace id with
    | .ok event => event.map cleared
    | .error _ => none

/-- What packing relies on: what is written is read back. -/
structure RoundTrips (parcel : Parcel) (receipt : Receipt) : Prop where
  archive : ∀ entries archive, p.writeArchive entries = .ok archive → p.readArchive archive = .ok entries
  manifest : ∀ format ∈ [evidenceFormat, evidencePublicationFormat],
    p.evidence.readManifest (p.manifestBytes format) = .ok format
  events : ReadsBack p.evidence.events p.toVec (sentEvents p fs parcel.workspace receipt.causalEvents)

/-- Every capsule hash of the steps was supplied. -/
def Supplied (parcel : Parcel) (receipt : Receipt) : Prop :=
  ∀ step ∈ receipt.steps, ∀ hash, step.capsuleHash = some hash → ∃ source ∈ parcel.capsules, ∃ bytes,
    readBounded fs source entryLimit = .ok bytes ∧ capsuleHashOf p bytes = .ok hash

/-- What the ledger has of the listed events is what the receipt says of them. -/
structure LedgerAgrees (workspace : Path) (receipt : Receipt) : Prop where
  events : ∀ id ∈ receipt.causalEvents, ∀ event, ledgerEvent p fs workspace id = .ok (some event) →
    event.eventId = id ∧ Genuine p.evidence.verify.crates event ∧
      ∀ parent ∈ event.causalParents, parent ∈ receipt.causalEvents
  unlisted : receipt.causalEvents = [] → receipt.causalChainHash = none
  root : ∀ named, receipt.causalEvents ≠ [] →
    (∀ id ∈ receipt.causalEvents, ledgerEvent p fs workspace id = .ok (some (named id))) →
      receipt.causalChainHash =
        some (chainHash p.evidence.verify.crates (receipt.causalEvents.map named))

/-- The ledger has every listed event. -/
def LedgerComplete (workspace : Path) (receipt : Receipt) : Prop :=
  ∀ id ∈ receipt.causalEvents, ∃ event, ledgerEvent p fs workspace id = .ok (some event)

/-- There are checks of a name, and all pass. -/
def Passes (verdict : ReceiptVerdict) (name : String) : Prop :=
  (∃ check ∈ verdict.checks, check.name = name) ∧
    ∀ check ∈ verdict.checks, check.name = name → check.status = .pass

/-- The checks of the log, on the record and the comparison that were given. -/
def givenLogChecks (r : Recipient IdentityPolicy) (contents : Contents) : List Check :=
  Publication.Record.assess p.evidence.suite p.evidence.records contents.receipt.causalChainHash
    contents.record { r.log with comparison := r.log.comparison <|> contents.comparison }

/-- What may fail in evidence that was packed: the receipt itself, a ledger that disagrees with
it, an identity that is not given or does not hold, and the record that was given. -/
def Attributable (r : Recipient IdentityPolicy) (parcel : Parcel) (contents : Contents)
    (ofReceipt : ReceiptVerdict) (check : Check) : Prop :=
  check ∈ ofReceipt.checks ∨
  check.name = "chain-linkage" ∧ ¬ LedgerAgrees p fs parcel.workspace contents.receipt ∨
  (check.name = "identity" ∧ ∃ policy, r.identityPolicy = some policy ∧ (contents.identity = none ∨
    ∃ bundle error, contents.identity = some bundle ∧
      p.evidence.verifyIdentity policy contents.receiptBytes bundle = .error error)) ∨
  check ∈ givenLogChecks p r contents

/-- What the recipient gets of a parcel. -/
structure Accepted (r : Recipient IdentityPolicy) (parcel : Parcel) (contents : Contents)
    (ofReceipt verdict : ReceiptVerdict) : Prop where
  receipt : ∀ check ∈ ofReceipt.checks, check ∈ verdict.checks
  artifacts : Passes verdict "artifacts"
  capsule : Supplied p fs parcel contents.receipt → Passes verdict "capsule"
  linkage : LedgerComplete p fs parcel.workspace contents.receipt →
    LedgerAgrees p fs parcel.workspace contents.receipt → Passes verdict "chain-linkage"
  failing : ∀ check ∈ verdict.checks, check.status = .fail →
    Attributable p fs r parcel contents ofReceipt check

end Handoff

/-! ### The proofs on the other side -/

section Proofs
variable {c : Crates} {codec : ArchiveCodec} {capsules : CapsuleCodec} {receipt : Receipt}
  {files : String → Option Bytes} {hashes ids missing expected : List String}
  {events : List (String × CausalEvent)}

theorem missingCapsules_of_examined
    (h : ∀ hash ∈ hashes, ∀ bytes, files (capsulePath hash) = some bytes →
      examineCapsule c capsules hash bytes = .ok ()) :
    missingCapsules c capsules files hashes =
      .ok (hashes.filter fun hash => (files (capsulePath hash)).isNone) := by
  induction hashes with
  | nil => rfl
  | cons hash rest ih =>
    have hrest := ih fun other hother => h other (List.mem_cons_of_mem _ hother)
    unfold missingCapsules
    cases hfile : files (capsulePath hash) with
    | none =>
      rw [List.filter_cons_of_pos (by simp [hfile]), hrest]
      rfl
    | some bytes =>
      rw [List.filter_cons_of_neg (by simp [hfile])]
      exact except_bind_eq_ok.mpr ⟨(), h hash List.mem_cons_self bytes hfile, hrest⟩

/-- Capsules that are held to their hashes never fail, and pass when none is missing. -/
theorem capsuleCheck_of_examined (hhashes : capsuleHashes receipt = .ok hashes)
    (h : ∀ hash ∈ hashes, ∀ bytes, files (capsulePath hash) = some bytes →
      examineCapsule c capsules hash bytes = .ok ()) :
    (capsuleCheck c capsules receipt files).status ≠ .fail ∧
      ((∀ hash ∈ hashes, files (capsulePath hash) ≠ none) →
        (capsuleCheck c capsules receipt files).status = .pass) := by
  have hassess : assessCapsules c capsules receipt files =
      .ok (if (hashes.filter fun hash => (files (capsulePath hash)).isNone) = [] then none
        else some ("incomplete capsule evidence; missing manifests: " ++
          ", ".intercalate (hashes.filter fun hash => (files (capsulePath hash)).isNone))) := by
    refine except_bind_eq_ok.mpr ⟨hashes, hhashes, ?_⟩
    exact except_bind_eq_ok.mpr ⟨_, missingCapsules_of_examined h, rfl⟩
  rw [capsuleCheck, hassess]
  constructor
  · split
    next => simp [result]
    next => simp [result]
  · intro hpresent
    rw [if_pos]
    · rfl
    · rw [List.filter_eq_nil_iff]
      intro hash hhash
      simpa using hpresent hash hhash

/-- The loop over events that are absent or as they should be. -/
theorem assessEvents_of_examined
    (h : ∀ id ∈ ids, isDigest id = true ∧ ∀ bytes, files (eventPath id) = some bytes →
      ∃ event, examine c codec expected id bytes = .ok event) :
    ∃ events', assessEvents c codec files expected missing events ids =
      .ok (missing ++ ids.filter (fun id => (files (eventPath id)).isNone), events') := by
  induction ids generalizing missing events with
  | nil => exact ⟨events, by simp [assessEvents]⟩
  | cons id rest ih =>
    obtain ⟨hdigest, hexamined⟩ := h id List.mem_cons_self
    have hrest := fun other hother => h other (List.mem_cons_of_mem _ hother)
    have hdigest : digest id = .ok () := digest_eq_ok.mpr hdigest
    simp only [assessEvents, hdigest]
    cases hfile : files (eventPath id) with
    | none =>
      obtain ⟨events', hevents⟩ := @ih (missing ++ [id]) events hrest
      refine ⟨events', ?_⟩
      rw [List.filter_cons_of_pos (by simp [hfile])]
      exact hevents.trans (by rw [List.append_assoc, List.singleton_append])
    | some bytes =>
      obtain ⟨event, hevent⟩ := hexamined bytes hfile
      obtain ⟨events', hevents⟩ := @ih missing (events ++ [(id, event)]) hrest
      refine ⟨events', ?_⟩
      rw [List.filter_cons_of_neg (by simp [hfile])]
      refine except_bind_eq_ok.mpr ⟨(), rfl, ?_⟩
      exact except_bind_eq_ok.mpr ⟨event, hevent, hevents⟩

/-- A chain is not refused when what there is of it is as it should be, and the root is that of
the events when all are there. -/
theorem causalCheck_of_examined (hnodup : receipt.causalEvents.Nodup)
    (hunlisted : receipt.causalEvents = [] → receipt.causalChainHash = none)
    (h : ∀ id ∈ receipt.causalEvents, isDigest id = true ∧ ∀ bytes, files (eventPath id) = some bytes →
      ∃ event, examine c codec receipt.causalEvents id bytes = .ok event)
    (hroot : ∀ named, receipt.causalEvents ≠ [] → (∀ id ∈ receipt.causalEvents,
        Vouched c codec files receipt.causalEvents id (named id)) →
      receipt.causalChainHash = some (chainHash c (receipt.causalEvents.map named))) :
    (causalCheck c codec receipt files).status ≠ .fail ∧
      ((∀ id ∈ receipt.causalEvents, files (eventPath id) ≠ none) →
        (causalCheck c codec receipt files).status = .pass) := by
  by_cases hlisted : receipt.causalEvents = []
  · have hassess : assessCausal c codec receipt files = .ok none := by
      refine except_bind_eq_ok.mpr ⟨(), refuseIf_eq_ok.mpr (not_not.mpr hnodup), ?_⟩
      rw [if_pos hlisted]
      exact except_bind_eq_ok.mpr ⟨(), refuseIf_eq_ok.mpr (not_not.mpr (hunlisted hlisted)), rfl⟩
    have hpass := (causalCheck_pass_iff.mpr hassess)
    exact ⟨by rw [hpass]; decide, fun _ => hpass⟩
  · by_cases hall : ∀ id ∈ receipt.causalEvents, files (eventPath id) ≠ none
    · have hvouched : ∀ id ∈ receipt.causalEvents, ∃ event,
          Vouched c codec files receipt.causalEvents id event := by
        intro id hid
        obtain ⟨hdigest, hexamined⟩ := h id hid
        obtain ⟨bytes, hfile⟩ := Option.ne_none_iff_exists'.mp (hall id hid)
        obtain ⟨event, hevent⟩ := hexamined bytes hfile
        obtain ⟨hread, hmetadata, hnamed, hgenuine, hparents⟩ := examine_eq_ok.mp hevent
        exact ⟨event, hdigest, ⟨bytes, hfile, hread⟩, hmetadata, hnamed, hgenuine, hparents⟩
      obtain ⟨id, hid⟩ := List.exists_mem_of_ne_nil _ hlisted
      have : Nonempty CausalEvent := (hvouched id hid).nonempty
      choose! named hnamed using hvouched
      have hpass := causalCheck_pass_iff.mpr
        ((assessCausal_eq_ok_iff hlisted).mpr ⟨hnodup, named, hnamed, hroot named hlisted hnamed⟩)
      exact ⟨by rw [hpass]; decide, fun _ => hpass⟩
    · obtain ⟨events, hevents⟩ := @assessEvents_of_examined c codec files receipt.causalEvents []
        receipt.causalEvents [] h
      have hmissing : [] ++ receipt.causalEvents.filter
          (fun id => (files (eventPath id)).isNone) ≠ [] := by
        intro hnil
        rw [List.nil_append, List.filter_eq_nil_iff] at hnil
        exact hall fun id hid => by simpa using hnil id hid
      refine ⟨?_, fun hpresent => absurd hpresent hall⟩
      generalize [] ++ receipt.causalEvents.filter (fun id => (files (eventPath id)).isNone) =
        missing at hevents hmissing
      have hassess : assessCausal c codec receipt files =
          .ok (some ("incomplete causal evidence; missing events: " ++ ", ".intercalate missing)) := by
        refine except_bind_eq_ok.mpr ⟨(), refuseIf_eq_ok.mpr (not_not.mpr hnodup), ?_⟩
        rw [if_neg hlisted]
        refine except_bind_eq_ok.mpr ⟨_, hevents, ?_⟩
        dsimp only
        rw [if_pos hmissing]
        rfl
      rw [causalCheck, hassess]
      simp [result]

end Proofs

/-! ### What is packed is accepted -/

section Accepted
variable {IdentityPolicy Archive : Type} {p : Packer IdentityPolicy Archive} {fs fs' : FileSystem}
  {files : FileMap} {parcel : Parcel} {contents : Contents} {listed : List ArtifactInfo}
  {r : Recipient IdentityPolicy} {trust : Files} {workspace label : String} {now : DateTime}

/-- The receipt that is packed reads, and its inventory holds. -/
theorem packReceipt_eq_ok {bytes : Bytes} {receipt : Receipt} (h : packReceipt p bytes = .ok receipt) :
    readReceipt p.evidence.verify bytes = .ok receipt ∧
      inventory p.evidence.verify.crates receipt = .ok () := by
  obtain ⟨read, hread, h⟩ := except_bind_eq_ok.mp h
  obtain ⟨_, _, h⟩ := except_bind_eq_ok.mp h
  split at h
  next =>
    obtain ⟨_, _, h⟩ := except_bind_eq_ok.mp h
    obtain ⟨_, _, h⟩ := except_bind_eq_ok.mp h
    obtain ⟨_, _, h⟩ := except_bind_eq_ok.mp h
    obtain ⟨_, hinventory, h⟩ := except_bind_eq_ok.mp h
    cases h
    exact ⟨mapError_eq_ok.mp hread, hinventory⟩
  next => cases h

theorem readGiven_eq_ok {read : Path → Except EvidenceError Bytes} {given : Option Path}
    {got : Option Bytes} (h : readGiven read given = .ok got) :
    given = none ∧ got = none ∨
      ∃ path bytes, given = some path ∧ read path = .ok bytes ∧ got = some bytes := by
  cases given with
  | none => exact .inl ⟨rfl, (Except.ok.inj h).symm⟩
  | some path =>
    unfold readGiven at h
    dsimp only at h
    cases hread : read path with
    | error e =>
      rw [hread] at h
      cases h
    | ok bytes =>
      rw [hread] at h
      exact .inr ⟨path, bytes, rfl, hread, (Except.ok.inj h).symm⟩

/-- Something is read where something is given. -/
theorem isSome_readGiven {read : Path → Except EvidenceError Bytes} {given : Option Path}
    {got : Option Bytes} (h : readGiven read given = .ok got) : got.isSome = given.isSome := by
  rcases readGiven_eq_ok h with ⟨rfl, rfl⟩ | ⟨path, bytes, rfl, _, rfl⟩
  · rfl
  · rfl

theorem formatOf_eq {publication : Option Path} :
    formatOf publication = evidencePublicationFormat ↔ publication.isSome = true := by
  cases publication with
  | none => simp [formatOf, evidenceFormat, evidencePublicationFormat]
  | some path => simp [formatOf]

/-- The metadata that was packed may be there. -/
theorem mem_metadataPaths (hread : ReadsParcel p fs parcel contents)
    (hfiled : Filed p fs parcel contents listed files) {path : String} {bytes : Bytes}
    (hpath : path ∈ metadataNames) (hfile : files.lookup path = some bytes) :
    path ∈ metadataPaths (entriesOf files) (formatOf parcel.publication) := by
  have hrecord := isSome_readGiven hread.record
  have hcomparison := isSome_readGiven hread.comparison
  unfold metadataPaths
  rw [entryBytes_entriesOf, entryBytes_entriesOf]
  simp only [metadataNames, List.mem_cons, List.not_mem_nil, or_false] at hpath
  rcases hpath with rfl | rfl | rfl | rfl | rfl
  · simp
  · simp
  · have hformat : formatOf parcel.publication = evidencePublicationFormat := by
      rw [formatOf_eq, ← hrecord, ← hfiled.record, hfile]
      rfl
    simp [hformat]
  · have hformat : formatOf parcel.publication = evidencePublicationFormat := by
      rw [formatOf_eq, Option.isSome_iff_ne_none]
      apply hread.compared
      rw [← Option.isSome_iff_ne_none, ← hcomparison, ← hfiled.comparison, hfile]
      rfl
    simp [hformat, hfile]
  · simp [hfile]

/-- The artifacts that were packed are delivered, and nothing else is there. -/
theorem checkArtifacts_packed (hread : ReadsParcel p fs parcel contents)
    (hlisted : artifacts contents.receipt = .ok listed)
    (hfiled : Filed p fs parcel contents listed files)
    (hroot : ∀ root, r.artifactRoot = some root → root = parcel.workspace ∧ fs' = fs) :
    checkArtifacts p.evidence fs' r (entriesOf files) (formatOf parcel.publication)
      contents.receiptBytes = .ok () := by
  obtain ⟨hreceipt, hinventory⟩ := packReceipt_eq_ok hread.receipt
  obtain ⟨proofs, hproofs⟩ := hread.proofs.proofs
  have hrecord := isSome_readGiven hread.record
  refine except_bind_eq_ok.mpr ⟨_, mapError_eq_ok.mpr hreceipt, ?_⟩
  refine except_bind_eq_ok.mpr ⟨(), hinventory, ?_⟩
  refine except_bind_eq_ok.mpr ⟨(), refuseIf_eq_ok.mpr ?_, ?_⟩
  · intro hv3
    obtain ⟨hformat, hnone⟩ := hv3
    rw [entryBytes_entriesOf, hfiled.record] at hnone
    rw [formatOf_eq, ← hrecord, hnone] at hformat
    cases hformat
  refine except_bind_eq_ok.mpr ⟨proofs, mapError_eq_ok.mpr hproofs, ?_⟩
  refine except_bind_eq_ok.mpr ⟨listed, hlisted, ?_⟩
  refine except_bind_eq_ok.mpr ⟨(), forM_eq_ok.mpr ?_, refuseIf_eq_ok.mpr (not_not.mpr ?_)⟩
  · intro artifact hartifact
    obtain ⟨bytes, hbytes, hdigest, hfile⟩ := hfiled.artifact artifact hartifact
    unfold checkArtifact
    rw [entryBytes_entriesOf, hfile]
    refine except_bind_eq_ok.mpr ⟨(), hdigest, ?_⟩
    cases hgiven : r.artifactRoot with
    | none => rfl
    | some root =>
      obtain ⟨rfl, rfl⟩ := hroot root hgiven
      exact except_bind_eq_ok.mpr ⟨bytes, hbytes, hdigest⟩
  · intro entry hentry
    obtain ⟨⟨path, bytes⟩, hmem, rfl⟩ := List.mem_map.mp hentry
    have hfile := SortedMap.lookup_eq_some.mpr hmem
    rw [List.mem_append, List.mem_append]
    rcases hfiled.accounted path bytes hfile with hmetadata | ⟨_, hproof⟩ | ⟨artifact, hartifact, hpath⟩
    · exact .inl (.inl (mem_metadataPaths hread hfiled hmetadata hfile))
    · exact .inl (.inr (((paths_eq_ok hproofs).1 path).mpr (hread.proofs.accounted path _ hproof)))
    · exact .inr (List.mem_map.mpr ⟨artifact, hartifact, hpath.symm⟩)

/-- The capsules that were packed are held to their hashes. -/
theorem capsuleCheck_packed (hread : ReadsParcel p fs parcel contents)
    (hfiled : Filed p fs parcel contents listed files) :
    (capsuleCheck p.evidence.verify.crates p.evidence.capsules contents.receipt
        (entryBytes (entriesOf files))).status ≠ .fail ∧
      (Supplied p fs parcel contents.receipt →
        (capsuleCheck p.evidence.verify.crates p.evidence.capsules contents.receipt
          (entryBytes (entriesOf files))).status = .pass) := by
  obtain ⟨proofs, hproofs⟩ := hread.proofs.proofs
  obtain ⟨hashes, hhashes, _⟩ := except_bind_eq_ok.mp hproofs
  have hfile : ∀ hash, entryBytes (entriesOf files) (capsulePath hash) =
      contents.proofs.lookup (capsulePath hash) := by
    intro hash
    rw [entryBytes_entriesOf, hfiled.capsule]
  obtain ⟨hfail, hpass⟩ := @capsuleCheck_of_examined p.evidence.verify.crates p.evidence.capsules
    contents.receipt (entryBytes (entriesOf files)) hashes hhashes (by
      intro hash _ bytes hbytes
      rw [hfile] at hbytes
      exact examineCapsule_of_hash (hread.proofs.hash hash bytes hbytes))
  refine ⟨hfail, fun hsupplied => hpass ?_⟩
  intro hash hhash
  obtain ⟨step, hstep, hsome⟩ := ((capsuleHashes_eq_ok hhashes).1 hash).mp hhash
  obtain ⟨source, hsource, bytes, hbytes, hhash⟩ := hsupplied step hstep hash hsome
  obtain ⟨bytes', hash', hbytes', hhash', hlookup⟩ := hread.proofs.given source hsource
  rw [hbytes] at hbytes'
  cases hbytes'
  rw [hhash] at hhash'
  cases hhash'
  rw [hfile, hlookup]
  exact Option.some_ne_none _

/-- A record that was sent reads as the event of the ledger, without its metadata. -/
theorem event_ledgerRecord {ids : List String} {id : String} {bytes : Bytes}
    (hback : ReadsBack p.evidence.events p.toVec (sentEvents p fs parcel.workspace ids)) (hid : id ∈ ids)
    (h : ledgerRecord p fs parcel.workspace id = some bytes) :
    ∃ sent, ledgerEvent p fs parcel.workspace id = .ok (some sent) ∧
      event p.evidence.events bytes = .ok (cleared sent) := by
  obtain ⟨sent, hsent, rfl⟩ := event_of_ledgerRecord h
  have hmem : cleared sent ∈ sentEvents p fs parcel.workspace ids := by
    refine List.mem_filterMap.mpr ⟨id, hid, ?_⟩
    rw [hsent]
    rfl
  obtain ⟨keys, hkeys, hvalue⟩ := hback _ hmem
  exact ⟨sent, hsent, event_eq_ok.mpr ⟨_, keys, hvalue, rfl, hkeys, rfl⟩⟩

/-- The chain that was packed passes where the ledger is complete, and fails only where it
disagrees with the receipt. -/
theorem causalCheck_packed (hread : ReadsParcel p fs parcel contents)
    (hfiled : Filed p fs parcel contents listed files)
    (hround : RoundTrips p fs parcel contents.receipt)
    (hagrees : LedgerAgrees p fs parcel.workspace contents.receipt) :
    (causalCheck p.evidence.verify.crates p.evidence.events contents.receipt
        (entryBytes (entriesOf files))).status ≠ .fail ∧
      (LedgerComplete p fs parcel.workspace contents.receipt →
        (causalCheck p.evidence.verify.crates p.evidence.events contents.receipt
          (entryBytes (entriesOf files))).status = .pass) := by
  obtain ⟨proofs, hproofs⟩ := hread.proofs.proofs
  obtain ⟨_, hnodup, hdigests⟩ := paths_eq_ok hproofs
  have hfile : ∀ id ∈ contents.receipt.causalEvents, entryBytes (entriesOf files) (eventPath id) =
      ledgerRecord p fs parcel.workspace id := by
    intro id hid
    rw [entryBytes_entriesOf, hfiled.event, hread.proofs.event id hid]
  have hexamined : ∀ id ∈ contents.receipt.causalEvents, isDigest id = true ∧
      ∀ bytes, entryBytes (entriesOf files) (eventPath id) = some bytes →
        ∃ event, examine p.evidence.verify.crates p.evidence.events contents.receipt.causalEvents id
          bytes = .ok event := by
    intro id hid
    refine ⟨hdigests id hid, ?_⟩
    intro bytes hbytes
    rw [hfile id hid] at hbytes
    obtain ⟨sent, hsent, hevent⟩ := event_ledgerRecord hround.events hid hbytes
    obtain ⟨hnamed, hgenuine, hparents⟩ := hagrees.events id hid sent hsent
    exact ⟨cleared sent, examine_eq_ok.mpr ⟨hevent, rfl, hnamed, genuine_cleared hgenuine, hparents⟩⟩
  have hroot : ∀ named, contents.receipt.causalEvents ≠ [] →
      (∀ id ∈ contents.receipt.causalEvents, Vouched p.evidence.verify.crates p.evidence.events
        (entryBytes (entriesOf files)) contents.receipt.causalEvents id (named id)) →
      contents.receipt.causalChainHash =
        some (chainHash p.evidence.verify.crates (contents.receipt.causalEvents.map named)) := by
    intro named hlisted hvouched
    have hledger : ∀ id ∈ contents.receipt.causalEvents, ∃ sent,
        ledgerEvent p fs parcel.workspace id = .ok (some sent) ∧ named id = cleared sent := by
      intro id hid
      obtain ⟨bytes, hbytes, hevent⟩ := (hvouched id hid).file
      rw [hfile id hid] at hbytes
      obtain ⟨sent, hsent, hevent'⟩ := event_ledgerRecord hround.events hid hbytes
      exact ⟨sent, hsent, Except.ok.inj (hevent.symm.trans hevent')⟩
    obtain ⟨id, hid⟩ := List.exists_mem_of_ne_nil _ hlisted
    have : Nonempty CausalEvent := ⟨named id⟩
    choose! sent hsent hcleared using hledger
    have hmap : contents.receipt.causalEvents.map named =
        (contents.receipt.causalEvents.map sent).map cleared := by
      rw [List.map_map]
      exact List.map_congr_left hcleared
    rw [hagrees.root sent hlisted hsent, hmap, chainHash_cleared]
  obtain ⟨hfail, hpass⟩ := causalCheck_of_examined hnodup hagrees.unlisted hexamined hroot
  refine ⟨hfail, fun hcomplete => hpass ?_⟩
  intro id hid
  obtain ⟨event, hevent⟩ := hcomplete id hid
  rw [hfile id hid, ledgerRecord_of_event hevent]
  exact Option.some_ne_none _

theorem identityCheck_packed (hfiled : Filed p fs parcel contents listed files)
    (hread : ReadsParcel p fs parcel contents)
    (h : (identityCheck p.evidence r (entriesOf files) contents.receiptBytes).status = .fail) :
    ∃ policy, r.identityPolicy = some policy ∧ (contents.identity = none ∨
      ∃ bundle error, contents.identity = some bundle ∧
        p.evidence.verifyIdentity policy contents.receiptBytes bundle = .error error) := by
  unfold identityCheck at h
  split at h
  next => cases h
  next policy hpolicy =>
    refine ⟨policy, hpolicy, ?_⟩
    split at h
    next => cases h
    next error herror =>
      unfold checkIdentity at herror
      rw [entryBytes_entriesOf, hfiled.identity] at herror
      split at herror
      next hnone => exact .inl hnone
      next bundle hbundle =>
        right
        refine ⟨bundle, ?_⟩
        have hsize : bundle.length ≤ maxIdentityBytes := by
          rcases readGiven_eq_ok hread.identity with ⟨_, hnone⟩ | ⟨path, bytes, _, hbounded, hsome⟩
          · rw [hnone] at hbundle
            cases hbundle
          · rw [hbundle] at hsome
            cases hsome
            exact (readBounded_eq_ok hbounded).2
        have hlimit : refuseIf (maxIdentityBytes < bundle.length)
            "identity bundle exceeds size limit" = .ok () :=
          refuseIf_eq_ok.mpr (Nat.not_lt.mpr hsize)
        rw [hlimit] at herror
        exact ⟨error, hbundle, herror⟩

/-- The log is asked about what was given. -/
theorem logChecks_packed (hread : ReadsParcel p fs parcel contents)
    (hfiled : Filed p fs parcel contents listed files) {check : Check}
    (h : check ∈ logChecks p.evidence r (entriesOf files) (formatOf parcel.publication)
      contents.receiptBytes) : check ∈ givenLogChecks p r contents := by
  obtain ⟨hreceipt, _⟩ := packReceipt_eq_ok hread.receipt
  have hroot : rootOf p.evidence contents.receiptBytes = contents.receipt.causalChainHash := by
    rw [rootOf, hreceipt]
  have hrecord : recordOf (entriesOf files) (formatOf parcel.publication) = contents.record := by
    rw [recordOf, entryBytes_entriesOf, hfiled.record]
    split
    next => rfl
    next hformat =>
      have hnone := isSome_readGiven hread.record
      rw [formatOf_eq, ← hnone, Bool.not_eq_true, Option.isSome_eq_false_iff,
        Option.isNone_iff_eq_none] at hformat
      exact hformat.symm
  unfold logChecks materialOf at h
  rw [hroot, hrecord, entryBytes_entriesOf, hfiled.comparison] at h
  split at h
  next => exact h
  next => cases h

theorem names_verifyReceiptBytes {verdict : ReceiptVerdict} {b : Backend} {bytes : Bytes}
    {opts : VerifyOptions} (hrecompute : opts.recompute = false)
    (hsignatures : opts.checkSignatures = true)
    (h : verifyReceiptBytes b trust bytes label opts now = .ok verdict) :
    verdict.checks.map Check.name = ["schema", "consistency", "signature", "timestamp", "recompute"] := by
  unfold verifyReceiptBytes at h
  split at h
  next => cases h
  next =>
    split at h
    next =>
      cases h
      rfl
    next =>
      split at h
      next =>
        cases h
        rfl
      next receipt _ =>
        cases h
        show ["schema", (consistencyCheck receipt).name,
          (optionalSignatureCheck b trust receipt opts (timestampCheck b trust receipt opts).2).check.name,
          (timestampCheck b trust receipt opts).1.name, (optionalRecomputeCheck b receipt opts).name] = _
        simp only [optionalSignatureCheck, optionalRecomputeCheck, hrecompute, hsignatures, if_true,
          Bool.false_eq_true, if_false, name_consistencyCheck, name_signatureCheck, name_timestampCheck]

/-- The checks that evidence adds, on what was packed. -/
theorem evidenceChecks_packed (hread : ReadsParcel p fs parcel contents)
    (hlisted : artifacts contents.receipt = .ok listed)
    (hfiled : Filed p fs parcel contents listed files)
    (hroot : ∀ root, r.artifactRoot = some root → root = parcel.workspace ∧ fs' = fs) :
    evidenceChecks p.evidence fs' r (entriesOf files) (formatOf parcel.publication)
      contents.receiptBytes =
        [⟨"artifacts", .pass, "all artifact bytes match the signed output manifests"⟩,
          capsuleCheck p.evidence.verify.crates p.evidence.capsules contents.receipt
            (entryBytes (entriesOf files)),
          causalCheck p.evidence.verify.crates p.evidence.events contents.receipt
            (entryBytes (entriesOf files)),
          identityCheck p.evidence r (entriesOf files) contents.receiptBytes] ++
        logChecks p.evidence r (entriesOf files) (formatOf parcel.publication)
          contents.receiptBytes := by
  obtain ⟨hreceipt, _⟩ := packReceipt_eq_ok hread.receipt
  rw [evidenceChecks, artifactsCheck, checkArtifacts_packed hread hlisted hfiled hroot, proofChecks,
    hreceipt]
  rfl

/-- The verdict on a parcel has the checks of its receipt, and these. -/
theorem accepted_of_checks {ofReceipt verdict : ReceiptVerdict}
    (hread : ReadsParcel p fs parcel contents)
    (hfiled : Filed p fs parcel contents listed files)
    (hround : RoundTrips p fs parcel contents.receipt)
    (hnames : ∀ check ∈ ofReceipt.checks,
      check.name ∈ ["schema", "consistency", "signature", "timestamp", "recompute"])
    (hchecks : verdict.checks = ofReceipt.checks ++
      ([⟨"artifacts", .pass, "all artifact bytes match the signed output manifests"⟩,
        capsuleCheck p.evidence.verify.crates p.evidence.capsules contents.receipt
          (entryBytes (entriesOf files)),
        causalCheck p.evidence.verify.crates p.evidence.events contents.receipt
          (entryBytes (entriesOf files)),
        identityCheck p.evidence r (entriesOf files) contents.receiptBytes] ++
      logChecks p.evidence r (entriesOf files) (formatOf parcel.publication)
        contents.receiptBytes)) :
    Accepted p fs r parcel contents ofReceipt verdict := by
  generalize hcapsule : capsuleCheck p.evidence.verify.crates p.evidence.capsules contents.receipt
    (entryBytes (entriesOf files)) = capsule at hchecks
  generalize hlinkage : causalCheck p.evidence.verify.crates p.evidence.events contents.receipt
    (entryBytes (entriesOf files)) = linkage at hchecks
  generalize hidentity : identityCheck p.evidence r (entriesOf files) contents.receiptBytes =
    identity at hchecks
  have hcapsuleName : capsule.name = "capsule" := hcapsule ▸ name_result
  have hlinkageName : linkage.name = "chain-linkage" := hlinkage ▸ name_result
  have hidentityName : identity.name = "identity" := hidentity ▸ name_identityCheck
  have hmem : ∀ check ∈ verdict.checks,
      check ∈ ofReceipt.checks ∧
          check.name ∈ ["schema", "consistency", "signature", "timestamp", "recompute"] ∨
        check.name = "artifacts" ∧ check.status = .pass ∨ check = capsule ∨ check = linkage ∨
        check = identity ∨ (check.name = "log-inclusion" ∨ check.name = "log-consistency") ∧
          check ∈ givenLogChecks p r contents := by
    intro check hcheck
    rw [hchecks] at hcheck
    rcases List.mem_append.mp hcheck with hcheck | hcheck
    · exact .inl ⟨hcheck, hnames check hcheck⟩
    · right
      rcases List.mem_append.mp hcheck with hcheck | hcheck
      · simp only [List.mem_cons, List.not_mem_nil, or_false] at hcheck
        rcases hcheck with h | h | h | h
        · exact .inl ⟨h ▸ rfl, h ▸ rfl⟩
        · exact .inr (.inl h)
        · exact .inr (.inr (.inl h))
        · exact .inr (.inr (.inr (.inl h)))
      · exact .inr (.inr (.inr (.inr ⟨name_logChecks hcheck, logChecks_packed hread hfiled hcheck⟩)))
  obtain ⟨hcapsuleFail, hcapsulePass⟩ := capsuleCheck_packed hread hfiled
  rw [hcapsule] at hcapsuleFail hcapsulePass
  constructor
  · intro check hcheck
    rw [hchecks]
    exact List.mem_append_left _ hcheck
  · constructor
    · exact ⟨⟨"artifacts", .pass, "all artifact bytes match the signed output manifests"⟩,
        by simp [hchecks], rfl⟩
    · intro check hcheck hname
      rcases hmem check hcheck with h | h | rfl | rfl | rfl | h
      · simp [hname] at h
      · exact h.2
      · simp [hname] at hcapsuleName
      · simp [hname] at hlinkageName
      · simp [hname] at hidentityName
      · simp [hname] at h
  · intro hsupplied
    constructor
    · exact ⟨capsule, by simp [hchecks], hcapsuleName⟩
    · intro check hcheck hname
      rcases hmem check hcheck with h | h | rfl | rfl | rfl | h
      · simp [hname] at h
      · simp [hname] at h
      · exact hcapsulePass hsupplied
      · simp [hname] at hlinkageName
      · simp [hname] at hidentityName
      · simp [hname] at h
  · intro hcomplete hagrees
    have hpass := (causalCheck_packed hread hfiled hround hagrees).2 hcomplete
    rw [hlinkage] at hpass
    constructor
    · exact ⟨linkage, by simp [hchecks], hlinkageName⟩
    · intro check hcheck hname
      rcases hmem check hcheck with h | h | rfl | rfl | rfl | h
      · simp [hname] at h
      · simp [hname] at h
      · simp [hname] at hcapsuleName
      · exact hpass
      · simp [hname] at hidentityName
      · simp [hname] at h
  · intro check hcheck hfail
    rcases hmem check hcheck with h | h | rfl | rfl | rfl | h
    · exact .inl h.1
    · rw [hfail] at h
      cases h.2
    · exact absurd hfail hcapsuleFail
    · refine .inr (.inl ⟨hlinkageName, ?_⟩)
      intro hagrees
      have hnone := (causalCheck_packed hread hfiled hround hagrees).1
      rw [hlinkage] at hnone
      exact hnone hfail
    · refine .inr (.inr (.inl ⟨hidentityName, ?_⟩))
      apply identityCheck_packed hfiled hread
      rw [hidentity]
      exact hfail
    · exact .inr (.inr (.inr h.2))

/-- What is packed gives a verdict, with the checks of its receipt and those of what was packed. -/
theorem verdict_packed {archive : Archive} (h : packWithPublication p fs parcel = .ok archive)
    (hround : ∀ contents, ReadsParcel p fs parcel contents →
      RoundTrips p fs parcel contents.receipt)
    (hroot : ∀ root, r.artifactRoot = some root → root = parcel.workspace ∧ fs' = fs) :
    ∃ contents listed files ofReceipt verdict, ReadsParcel p fs parcel contents ∧
      Filed p fs parcel contents listed files ∧
      verifyReceiptBytes p.evidence.verify trust contents.receiptBytes label
        (evidenceOptions r workspace) now = .ok ofReceipt ∧
      verifyArchive p fs' r archive trust workspace now label = .ok verdict ∧
      verdict.checks = ofReceipt.checks ++
        ([⟨"artifacts", .pass, "all artifact bytes match the signed output manifests"⟩,
          capsuleCheck p.evidence.verify.crates p.evidence.capsules contents.receipt
            (entryBytes (entriesOf files)),
          causalCheck p.evidence.verify.crates p.evidence.events contents.receipt
            (entryBytes (entriesOf files)),
          identityCheck p.evidence r (entriesOf files) contents.receiptBytes] ++
        logChecks p.evidence r (entriesOf files) (formatOf parcel.publication)
          contents.receiptBytes) := by
  obtain ⟨files, hfiles, h⟩ := except_bind_eq_ok.mp h
  obtain ⟨written, hwritten, h⟩ := except_bind_eq_ok.mp h
  obtain ⟨_, _, h⟩ := except_bind_eq_ok.mp h
  cases h
  obtain ⟨contents, listed, hread, hlisted, hfiled⟩ := packFiles_eq_ok hfiles
  have hround := hround contents hread
  obtain ⟨hreceipt, _⟩ := packReceipt_eq_ok hread.receipt
  obtain ⟨document, hyaml, _⟩ := except_bind_eq_ok.mp hreceipt
  have hverified : ∃ ofReceipt, verifyReceiptBytes p.evidence.verify trust contents.receiptBytes
      label (evidenceOptions r workspace) now = .ok ofReceipt := by
    simp only [verifyReceiptBytes, hyaml]
    split
    next => exact ⟨_, rfl⟩
    next =>
      split
      next => exact ⟨_, rfl⟩
      next => exact ⟨_, rfl⟩
  obtain ⟨ofReceipt, hofReceipt⟩ := hverified
  have hformat : formatOf parcel.publication ∈ [evidenceFormat, evidencePublicationFormat] := by
    unfold formatOf
    split
    next => exact List.mem_cons_of_mem _ List.mem_cons_self
    next => exact List.mem_cons_self
  have hknown : formatOf parcel.publication = evidenceFormat ∨
      formatOf parcel.publication = evidenceFormatV1 ∨
      formatOf parcel.publication = evidencePublicationFormat := by
    rcases List.mem_cons.mp hformat with h | h
    · exact .inl h
    · exact .inr (.inr (List.mem_singleton.mp h))
  have hmanifest := (entryBytes_entriesOf files "manifest.json").trans hfiled.manifest
  have hbytes := (entryBytes_entriesOf files "receipt.yaml").trans hfiled.receipt
  have hverdict := @verifyWithPolicyAndLog_of _ p.evidence fs' r (entriesOf files) trust workspace now
    _ _ label _ ofReceipt hmanifest (hround.manifest _ hformat) hknown hbytes
    (readBounded_eq_ok hread.receiptBytes).2 hofReceipt
  refine ⟨contents, listed, files, ofReceipt, _, hread, hfiled, hofReceipt, except_bind_eq_ok.mpr
    ⟨entriesOf files, mapError_eq_ok.mpr (hround.archive _ _ hwritten), hverdict⟩, ?_⟩
  rw [← evidenceChecks_packed hread hlisted hfiled hroot]
  rfl

/-- **What is packed verifies.** Whatever receipt, workspace, capsules, record and comparison an
archive was packed from: its verification gives a verdict, in which the artifacts pass, the
capsules pass when every one was supplied, and the chain passes when the ledger has every listed
event and agrees with the receipt. What fails in it is the receipt's own, the ledger's, the
identity's or the record's, and not the choice of names or of the format. -/
theorem packed_evidence_verifies {archive : Archive}
    (h : packWithPublication p fs parcel = .ok archive)
    (hround : ∀ contents, ReadsParcel p fs parcel contents →
      RoundTrips p fs parcel contents.receipt)
    (hroot : ∀ root, r.artifactRoot = some root → root = parcel.workspace ∧ fs' = fs) :
    ∃ contents ofReceipt verdict, ReadsParcel p fs parcel contents ∧
      verifyReceiptBytes p.evidence.verify trust contents.receiptBytes label
        (evidenceOptions r workspace) now = .ok ofReceipt ∧
      verifyArchive p fs' r archive trust workspace now label = .ok verdict ∧
      Accepted p fs r parcel contents ofReceipt verdict := by
  obtain ⟨contents, listed, files, ofReceipt, verdict, hread, hfiled, hofReceipt, hverdict, hchecks⟩ :=
    @verdict_packed _ _ p fs fs' parcel r trust workspace label now archive h hround hroot
  refine ⟨contents, ofReceipt, verdict, hread, hofReceipt, hverdict, ?_⟩
  refine accepted_of_checks hread hfiled (hround contents hread) ?_ hchecks
  intro check hcheck
  rw [← names_verifyReceiptBytes rfl rfl hofReceipt]
  exact List.mem_map_of_mem hcheck

end Accepted

/-! ### The release, packed

The receipt lies beside the workspace. Where its root is not that of the event it is packed all
the same. -/

def nameReceipt : Name := ⟨utf8 "receipt.yaml", by decide +kernel⟩

section Release
variable (root : String) (signature : Vector UInt8 64) (record : Bytes)

/-- The receipt, the artifact, and the record of the event in the ledger. -/
def handoffFiles : FileSystem where
  root := .dir [nameW, nameReceipt] fun name =>
    if name = nameReceipt then .file (releaseYaml root signature)
    else .dir [nameA, nameAttest] fun name =>
      if name = nameA then .file (utf8 "x")
      else .dir [nameLedger] fun _ => .dir [nameEvents] fun _ => .dir [nameRelease] fun _ =>
        .file record
  cwd := [nameW]

/-- The packer, with an archive that is the list of its entries. -/
def releasePacker : Packer Unit (List ArchiveEntry) where
  evidence := releaseEvidence root signature
  toVec := eventRecord
  manifestBytes := manifestText
  writeArchive entries := .ok entries
  readArchive archive := .ok archive

def releaseParcel : Parcel where
  receiptPath := .ofString "/receipt.yaml"
  workspace := .ofString "/w"
  identityBundle := none
  capsules := []
  publication := none
  comparison := none

def handoffProofs : FileMap := SortedMap.empty.insert (eventPath releaseId) record

def handoffPacked : FileMap := (handoffProofs record).insert (artifactPath releaseArtifact) (utf8 "x")

def handoffSealed : FileMap :=
  sealed (handoffPacked record) (releaseYaml root signature) (manifestText evidenceFormat) none

end Release

section Release
variable {root : String} {signature : Vector UInt8 64} {record : Bytes}

/-- The names and the sizes of the texts of the release. -/
theorem texts_handoff :
    SafePath (ledgerFile releaseId).path ∧
      (Path.ofString (ledgerFile releaseId).path).parts =
        [.normal nameAttest, .normal nameLedger, .normal nameEvents, .normal nameRelease] ∧
      (nameW ≠ nameReceipt ∧ nameAttest ≠ nameA) ∧
      releaseParcel.workspace = ⟨true, [.normal nameW]⟩ ∧ isDigest releaseId = true ∧
      (utf8 "x").length = 1 ∧
      manifestText evidencePublicationFormat ≠ manifestText evidenceFormat ∧
      releaseId.utf8ByteSize = 64 ∧ (sampleDigest 'f').utf8ByteSize = 64 ∧
      releaseId ≠ sampleDigest 'f' := by
  decide +kernel

/-- The size of the record of an event without parents, in those of its texts. -/
theorem length_eventRecord_le (event : CausalEvent) (hparents : event.causalParents = []) :
    (eventRecord event).length ≤ 6 * ([event.eventId, event.stepName, event.inputHash,
      event.outputHash, event.timestamp.rfc3339, event.pipelineHash,
      event.environmentHash].map String.utf8ByteSize).sum +
        (toString event.exitCode.toNat).utf8ByteSize + 1000 := by
  have hkeys := Json.sum_escapedSize_le ["event_id", "step_name", "causal_parents", "input_hash",
    "output_hash", "timestamp", "exit_code", "pipeline_hash", "environment_hash", "signature",
    "metadata"]
  have hwords : (["event_id", "step_name", "causal_parents", "input_hash", "output_hash",
      "timestamp", "exit_code", "pipeline_hash", "environment_hash", "signature",
      "metadata"].map String.utf8ByteSize).sum = 116 := by rfl
  rw [hwords] at hkeys
  have htexts := Json.sum_escapedSize_le [event.eventId, event.stepName, event.inputHash,
    event.outputHash, event.timestamp.rfc3339, event.pipelineHash, event.environmentHash]
  rw [eventRecord, length_utf8, Json.utf8ByteSize_compact]
  simp only [List.map_cons, List.map_nil, List.sum_cons, List.sum_nil] at hkeys htexts ⊢
  simp only [eventJson, hparents, List.map_nil, Json.renderSize, Json.fieldsSize, Json.itemsSize,
    Json.compactSpacing, List.isEmpty_cons, List.isEmpty_nil, Bool.false_eq_true, if_false, if_true]
  omega

theorem length_eventRecord : (eventRecord releaseEvent).length ≤ 5000 :=
  (length_eventRecord_le releaseEvent rfl).trans (by decide)

theorem toVec_releasePacker : (releasePacker root signature).toVec = eventRecord := rfl

theorem value_releaseCodec {text : Bytes}
    (h : text = eventText releaseEvent ∨ text = eventRecord releaseEvent) :
    releaseCodec.value text = .ok ⟨some eventKeys, .ok releaseEvent⟩ := if_pos h

theorem cleared_releaseEvent : cleared releaseEvent = releaseEvent := rfl

theorem payload_handoffProofs : payload (handoffProofs record) = record.length := by
  simp [payload, handoffProofs, SortedMap.insert, SortedMap.insertEntry]

theorem readBounded_handoff (hsize : (releaseYaml root signature).length ≤ 10000) :
    readBounded (handoffFiles root signature record) releaseParcel.receiptPath maxReceiptBytes =
      .ok (releaseYaml root signature) := by
  have hread : readFile (handoffFiles root signature record) releaseParcel.receiptPath =
      .ok (releaseYaml root signature) := rfl
  unfold readBounded
  rw [hread]
  exact if_neg (Nat.not_lt.mpr (Nat.le_trans hsize (by decide)))

theorem packReceipt_handoff :
    packReceipt (releasePacker root signature) (releaseYaml root signature) =
      .ok (releaseReceipt root signature) := by
  have hsigned : verifyWithPublicKey (releaseCrates root signature) (keyHex samplePublicA)
      (utf8 (releaseText root)) (hexEncode signature.toList) = .ok true := by
    obtain ⟨_, _, hsignature, _, htext, hholds⟩ := @signedBy_release root signature
    cases hsignature
    cases htext
    exact hholds
  unfold packReceipt
  refine except_bind_eq_ok.mpr ⟨_, mapError_eq_ok.mpr readReceipt_release, ?_⟩
  refine except_bind_eq_ok.mpr ⟨(), refuseIf_eq_ok.mpr (Nat.lt_irrefl 3), ?_⟩
  refine except_bind_eq_ok.mpr ⟨releaseText root, rfl, ?_⟩
  refine except_bind_eq_ok.mpr ⟨true, mapError_eq_ok.mpr hsigned, ?_⟩
  refine except_bind_eq_ok.mpr ⟨(), refuseIf_eq_ok.mpr (by decide), ?_⟩
  exact except_bind_eq_ok.mpr ⟨(), inventory_release, rfl⟩

theorem ledgerFile_handoff (hsize : record.length ≤ 5000) :
    artifactBytes (handoffFiles root signature record) releaseParcel.workspace
      (ledgerFile releaseId) = .ok record := by
  obtain ⟨hsafe, hparts, hnames, hworkspace, _⟩ := texts_handoff
  have hlimit : ¬ entryLimit < record.length :=
    Nat.not_lt.mpr (Nat.le_trans hsize (by decide))
  have hbind : ∀ (loc : Location) (f : Location → Except IoError Tree), (.ok loc >>= f) = f loc :=
    fun _ _ => rfl
  refine except_bind_eq_ok.mpr ⟨(), refuseIf_eq_ok.mpr (not_not.mpr hsafe), ?_⟩
  rw [hparts]
  simp [artifactAt, symlinkMetadata, entryAt, resolve, maxLinks, resolveFrom, advance, handoffFiles,
    Tree.descend, Tree.child?, Tree.isDir, hworkspace, hnames, hbind, leafBytes, hlimit, ledgerFile]

theorem ledgerEvent_handoff (hsize : record.length ≤ 5000) (hrecord : record = eventRecord releaseEvent) :
    ledgerEvent (releasePacker root signature) (handoffFiles root signature record)
      releaseParcel.workspace releaseId = .ok (some releaseEvent) := by
  unfold ledgerEvent
  rw [ledgerFile_handoff hsize]
  show ((event releaseCodec record).mapError _).map some = _
  rw [event_release (.inr hrecord)]
  rfl

theorem collect_handoff (hsize : record.length ≤ 5000) (hrecord : record = eventRecord releaseEvent) :
    collect (releasePacker root signature) (handoffFiles root signature record)
      (releaseReceipt root signature) releaseParcel.workspace [] = .ok (handoffProofs record) := by
  have hdigest : digest releaseId = .ok () := digest_eq_ok.mpr texts_handoff.2.2.2.2.1
  have hput : putEvent (releasePacker root signature) .empty releaseId (some releaseEvent) =
      handoffProofs record := by
    rw [putEvent, toVec_releasePacker, cleared_releaseEvent, ← hrecord, handoffProofs]
  have hpaths : paths (releaseReceipt root signature) = .ok [eventPath releaseId] := by
    have hadd : addReference [] releaseId = .ok [eventPath releaseId] := by
      refine except_bind_eq_ok.mpr ⟨(), hdigest, ?_⟩
      exact except_bind_eq_ok.mpr ⟨(), refuseIf_eq_ok.mpr List.not_mem_nil, rfl⟩
    exact except_bind_eq_ok.mpr ⟨[], rfl, except_bind_eq_ok.mpr ⟨_, hadd, rfl⟩⟩
  have hevent : collectEvent (releasePacker root signature) (handoffFiles root signature record)
      releaseParcel.workspace .empty releaseId = .ok (handoffProofs record) := by
    refine except_bind_eq_ok.mpr ⟨(), mapError_eq_ok.mpr hdigest, ?_⟩
    refine except_bind_eq_ok.mpr ⟨some releaseEvent, ledgerEvent_handoff hsize hrecord, ?_⟩
    rw [hput, payload_handoffProofs]
    exact except_bind_eq_ok.mpr
      ⟨(), refuseIf_eq_ok.mpr (Nat.not_lt.mpr (Nat.le_trans hsize (by decide))), rfl⟩
  refine except_bind_eq_ok.mpr ⟨[], rfl, ?_⟩
  refine except_bind_eq_ok.mpr ⟨.empty, rfl, ?_⟩
  refine except_bind_eq_ok.mpr ⟨handoffProofs record, ?_, ?_⟩
  · exact except_bind_eq_ok.mpr ⟨handoffProofs record, hevent, rfl⟩
  · exact except_bind_eq_ok.mpr ⟨_, mapError_eq_ok.mpr hpaths, rfl⟩

theorem packArtifact_handoff {size : Nat} (hsize : size ≤ 20000) :
    packArtifact (releasePacker root signature) (handoffFiles root signature record)
      releaseParcel.workspace (handoffProofs record, size) releaseArtifact =
        .ok (handoffPacked record, size + 1) := by
  have hbytes : artifactBytes (handoffFiles root signature record) releaseParcel.workspace
      releaseArtifact = .ok (utf8 "x") := by
    rfl
  have hdigest : checkDigest (releaseCrates root signature) releaseArtifact (utf8 "x") = .ok () := by
    rw [checkDigest, blake3_release, release_hashes.2.1]
    rfl
  have hnew : (handoffProofs record).lookup (artifactPath releaseArtifact) = none := by
    have hne : artifactPath releaseArtifact ≠ eventPath releaseId := by
      apply ne_of_folderOf
      rw [folderOf_artifactPath, folderOf_eventPath]
      decide
    rw [handoffProofs, SortedMap.lookup_insert, if_neg hne, SortedMap.lookup_empty]
  have hone : (utf8 "x").length = 1 := texts_handoff.2.2.2.2.2.1
  have hlimit : ¬ payloadLimit < size + (utf8 "x").length := by
    have h : 20001 ≤ payloadLimit := by decide
    omega
  refine except_bind_eq_ok.mpr ⟨utf8 "x", hbytes, ?_⟩
  refine except_bind_eq_ok.mpr ⟨(), hdigest, ?_⟩
  dsimp only
  rw [hnew]
  exact except_bind_eq_ok.mpr ⟨(), refuseIf_eq_ok.mpr hlimit, rfl⟩

theorem packFiles_handoff (hreceipt : (releaseYaml root signature).length ≤ 10000)
    (hsize : record.length ≤ 5000) (hrecord : record = eventRecord releaseEvent) :
    packFiles (releasePacker root signature) (handoffFiles root signature record) releaseParcel =
      .ok (handoffSealed root signature record) := by
  have hentries : (handoffSealed root signature record).entries.length = 4 := by
    rfl
  refine except_bind_eq_ok.mpr ⟨(), refuseIf_eq_ok.mpr (by decide), ?_⟩
  refine except_bind_eq_ok.mpr ⟨_, readBounded_handoff hreceipt, ?_⟩
  refine except_bind_eq_ok.mpr ⟨_, packReceipt_handoff, ?_⟩
  refine except_bind_eq_ok.mpr ⟨_, collect_handoff hsize hrecord, ?_⟩
  refine except_bind_eq_ok.mpr ⟨none, rfl, ?_⟩
  refine except_bind_eq_ok.mpr ⟨none, rfl, ?_⟩
  refine except_bind_eq_ok.mpr ⟨[releaseArtifact], rfl, ?_⟩
  refine except_bind_eq_ok.mpr ⟨(handoffPacked record, (releaseYaml root signature).length +
    payload (handoffProofs record) + 1), ?_, ?_⟩
  · have hsum : (releaseYaml root signature).length + payload (handoffProofs record) ≤ 20000 := by
      rw [payload_handoffProofs]
      omega
    exact except_bind_eq_ok.mpr ⟨_, packArtifact_handoff hsum, rfl⟩
  · refine except_bind_eq_ok.mpr ⟨none, rfl, ?_⟩
    refine except_bind_eq_ok.mpr ⟨(), refuseIf_eq_ok.mpr ?_, rfl⟩
    show ¬ entriesLimit < (handoffSealed root signature record).entries.length
    rw [hentries]
    decide

theorem pack_handoff (hreceipt : (releaseYaml root signature).length ≤ 10000)
    (hsize : record.length ≤ 5000) (hrecord : record = eventRecord releaseEvent) :
    packWithPublication (releasePacker root signature) (handoffFiles root signature record)
      releaseParcel = .ok (entriesOf (handoffSealed root signature record)) :=
  except_bind_eq_ok.mpr ⟨_, packFiles_handoff hreceipt hsize hrecord, rfl⟩

/-- `serde_json` on what the release is made of. -/
theorem roundTrips_handoff (hsize : record.length ≤ 5000) (hrecord : record = eventRecord releaseEvent) :
    RoundTrips (releasePacker root signature) (handoffFiles root signature record) releaseParcel
      (releaseReceipt root signature) := by
  refine ⟨?_, ?_, ?_⟩
  · intro entries archive h
    cases h
    rfl
  · intro format hformat
    have hne : manifestText evidencePublicationFormat ≠ manifestText evidenceFormat :=
      texts_handoff.2.2.2.2.2.2.1
    show (releaseEvidence root signature).readManifest (manifestText format) = .ok format
    unfold releaseEvidence
    dsimp only
    rcases List.mem_cons.mp hformat with rfl | hformat
    · rw [if_pos rfl]
    · rw [List.mem_singleton.mp hformat, if_neg hne, if_pos rfl]
  · have hsent : sentEvents (releasePacker root signature) (handoffFiles root signature record)
        releaseParcel.workspace (releaseReceipt root signature).causalEvents = [releaseEvent] := by
      show List.filterMap _ [releaseId] = _
      rw [List.filterMap_cons, ledgerEvent_handoff hsize hrecord]
      rfl
    rw [hsent, toVec_releasePacker]
    intro event hevent
    rw [List.mem_singleton.mp hevent]
    exact ⟨eventKeys, fun key hkey => hkey, value_releaseCodec (.inr rfl)⟩

theorem readsParcel_handoff {contents : Contents}
    (hreceipt : (releaseYaml root signature).length ≤ 10000)
    (h : ReadsParcel (releasePacker root signature) (handoffFiles root signature record) releaseParcel
      contents) :
    contents.receiptBytes = releaseYaml root signature ∧
      contents.receipt = releaseReceipt root signature := by
  have hbytes : contents.receiptBytes = releaseYaml root signature :=
    Except.ok.inj (h.receiptBytes.symm.trans (readBounded_handoff hreceipt))
  refine ⟨hbytes, ?_⟩
  have hread := h.receipt
  rw [hbytes, packReceipt_handoff] at hread
  exact (Except.ok.inj hread).symm

/-- The chain of the release passes under the root of its event only. -/
theorem root_of_linkage {contents : Contents} {listed : List ArtifactInfo} {files : FileMap}
    (hreceipt : (releaseYaml root signature).length ≤ 10000)
    (hsize : record.length ≤ 5000) (hrecord : record = eventRecord releaseEvent)
    (hread : ReadsParcel (releasePacker root signature) (handoffFiles root signature record)
      releaseParcel contents)
    (hfiled : Filed (releasePacker root signature) (handoffFiles root signature record) releaseParcel
      contents listed files)
    (hpass : (causalCheck (releasePacker root signature).evidence.verify.crates
      (releasePacker root signature).evidence.events contents.receipt
      (entryBytes (entriesOf files))).status = .pass) : root = releaseId := by
  obtain ⟨_, hcontents⟩ := readsParcel_handoff hreceipt hread
  have hlisted : releaseId ∈ contents.receipt.causalEvents := by
    rw [hcontents]
    exact List.mem_singleton.mpr rfl
  have hrecorded : entryBytes (entriesOf files) (eventPath releaseId) = some record := by
    rw [entryBytes_entriesOf, hfiled.event, hread.proofs.event releaseId hlisted,
      ledgerRecord_of_event (ledgerEvent_handoff hsize hrecord), Option.map_some]
    rw [toVec_releasePacker, cleared_releaseEvent, ← hrecord]
  rw [causalCheck_pass_iff, assessCausal_eq_ok_iff (List.ne_nil_of_mem hlisted)] at hpass
  obtain ⟨_, named, hvouched, hroot⟩ := hpass
  obtain ⟨bytes, hfile, hevent⟩ := (hvouched releaseId hlisted).file
  obtain rfl := Option.some.inj (hrecorded.symm.trans hfile)
  have hnamed : named releaseId = releaseEvent :=
    Except.ok.inj (hevent.symm.trans (event_release (.inr hrecord)))
  rw [hcontents] at hroot
  have hchain : some root = some (chainHash (releaseCrates root signature) [named releaseId]) := hroot
  rw [hnamed, chainHash_release] at hchain
  exact Option.some.inj hchain

end Release


theorem packed_evidence_verifies_release :
    ∃ contents ofReceipt verdict, ReadsParcel (releasePacker releaseId releaseSignature)
        (handoffFiles releaseId releaseSignature (eventRecord releaseEvent)) releaseParcel contents ∧
      verifyReceiptBytes (releasePacker releaseId releaseSignature).evidence.verify
        (sampleFiles releaseTrust) contents.receiptBytes "release.attest"
        (evidenceOptions releaseRecipient ".") sampleDate = .ok ofReceipt ∧
      verifyArchive (releasePacker releaseId releaseSignature)
        (handoffFiles releaseId releaseSignature (eventRecord releaseEvent)) releaseRecipient
        (entriesOf (handoffSealed releaseId releaseSignature (eventRecord releaseEvent)))
        (sampleFiles releaseTrust) "." sampleDate "release.attest" = .ok verdict ∧
      Accepted (releasePacker releaseId releaseSignature)
        (handoffFiles releaseId releaseSignature (eventRecord releaseEvent)) releaseRecipient
        releaseParcel contents ofReceipt verdict := by
  obtain ⟨_, _, _, _, _, _, _, hid, _⟩ := texts_handoff
  have hyaml : (releaseYaml releaseId releaseSignature).length ≤ 10000 := length_releaseYaml hid
  apply packed_evidence_verifies (pack_handoff hyaml length_eventRecord rfl)
  · intro contents hread
    rw [(readsParcel_handoff hyaml hread).2]
    exact roundTrips_handoff length_eventRecord rfl
  · intro root hroot
    exact ⟨(Option.some.inj hroot).symm, rfl⟩

/-! A receipt with another root is packed, with the ledger as it is, and does not pass. -/

def otherRoot : String := sampleDigest 'f'

def otherSignature : Vector UInt8 64 := signatureOf
  0x2030faa8c489f54ebbc757cf7d84f2baa952f139b2c55a367df8202f4aef11bb6516ba202ae8ccb73defb76c4ca21fcd6ce3f0dc681f1da7a7da479f2db3360e


theorem packed_root_unchecked :
    packWithPublication (releasePacker otherRoot otherSignature)
        (handoffFiles otherRoot otherSignature (eventRecord releaseEvent)) releaseParcel =
      .ok (entriesOf (handoffSealed otherRoot otherSignature (eventRecord releaseEvent))) ∧
    (∀ id ∈ (releaseReceipt otherRoot otherSignature).causalEvents, ∃ event,
      ledgerEvent (releasePacker otherRoot otherSignature)
        (handoffFiles otherRoot otherSignature (eventRecord releaseEvent)) releaseParcel.workspace id =
          .ok (some event) ∧ event.eventId = id ∧
      Genuine (releasePacker otherRoot otherSignature).evidence.verify.crates event ∧
      ∀ parent ∈ event.causalParents,
        parent ∈ (releaseReceipt otherRoot otherSignature).causalEvents) ∧
    ∃ verdict, verifyArchive (releasePacker otherRoot otherSignature)
        (handoffFiles otherRoot otherSignature (eventRecord releaseEvent)) releaseRecipient
        (entriesOf (handoffSealed otherRoot otherSignature (eventRecord releaseEvent)))
        (sampleFiles releaseTrust) "." sampleDate "release.attest" = .ok verdict ∧
      ∃ check ∈ verdict.checks, check.name = "chain-linkage" ∧ check.status ≠ .pass := by
  obtain ⟨_, _, _, _, _, _, _, _, hother, hne⟩ := texts_handoff
  have hyaml : (releaseYaml otherRoot otherSignature).length ≤ 10000 := length_releaseYaml hother
  have hpack := pack_handoff hyaml length_eventRecord rfl
  have hround : ∀ contents, ReadsParcel (releasePacker otherRoot otherSignature)
      (handoffFiles otherRoot otherSignature (eventRecord releaseEvent)) releaseParcel contents →
      RoundTrips (releasePacker otherRoot otherSignature)
        (handoffFiles otherRoot otherSignature (eventRecord releaseEvent)) releaseParcel
        contents.receipt := by
    intro contents hread
    rw [(readsParcel_handoff hyaml hread).2]
    exact roundTrips_handoff length_eventRecord rfl
  have hroot : ∀ root, releaseRecipient.artifactRoot = some root → root = releaseParcel.workspace ∧
      handoffFiles otherRoot otherSignature (eventRecord releaseEvent) =
        handoffFiles otherRoot otherSignature (eventRecord releaseEvent) := by
    intro root hroot
    exact ⟨(Option.some.inj hroot).symm, rfl⟩
  refine ⟨hpack, ?_, ?_⟩
  · intro id hid
    rw [List.mem_singleton.mp hid]
    refine ⟨releaseEvent, ledgerEvent_handoff length_eventRecord rfl, rfl, genuine_release, ?_⟩
    intro parent hparent
    cases hparent
  · obtain ⟨contents, listed, files, ofReceipt, verdict, hread, hfiled, _, hverdict, hchecks⟩ :=
      @verdict_packed _ _ _ _ _ _ releaseRecipient (sampleFiles releaseTrust) "." "release.attest"
        sampleDate _ hpack hround hroot
    refine ⟨verdict, hverdict, causalCheck (releasePacker otherRoot otherSignature).evidence.verify.crates
      (releasePacker otherRoot otherSignature).evidence.events contents.receipt
      (entryBytes (entriesOf files)), ?_, name_result, ?_⟩
    · rw [hchecks]
      simp
    · intro hpass
      have hsame := root_of_linkage hyaml length_eventRecord rfl hread hfiled hpass
      exact absurd hsame.symm hne

end Attest.Evidence
