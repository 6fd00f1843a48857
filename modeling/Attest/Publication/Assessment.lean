import Attest.Publication.Checkpoints
import Attest.Publication.Consistency
import Attest.Publication.Record

/-! What a recipient learns from `assess`.

The sender brings the record and the comparison, the recipient the log, the reference
and the receipt. `log-inclusion` passes only on a record that opens to the receipt and
is in a tree the recipient's log signed; `log-consistency` only when a path connects
that tree with the one the recipient held before. `assess_eq` says once where the
checks come from, and the rest follows from it. -/
namespace Attest.Publication.Record
open Merkle Note Library Library.Fallible Library.HashTree
open Trust (hexEncode hexDecode toVector isLowerHexDigit utf8 DateTime)
open Verify (Check CheckStatus)

section
variable (s : Suite) (codec : Codec)

/-! ### What the paths show -/

/-- The entry is under the checkpoint: the path is accepted, and whatever list of entries
has this size and root has the entry at the index, unless two of the hashed texts collide. -/
def Includes (checkpoint : Checkpoint) (entry : Bytes) (index : Nat) (path : List Hash) : Prop :=
  verifyInclusion s.sha256 entry index checkpoint.treeSize path checkpoint.root = .ok () ∧
    ∀ entries : List Bytes, entries.length = checkpoint.treeSize →
      mth s.sha256 entries = checkpoint.root →
      CollisionFree s.sha256 (inclusionPreimages s.sha256 entries entry index path) →
      entries[index]? = some entry

/-- The second tree extends the first: the path is accepted, and whatever two lists of
entries have these sizes and roots, the first is a prefix of the second. -/
def Extends (old new : Checkpoint) (path : List Hash) : Prop :=
  verifyConsistency s.sha256 old.treeSize new.treeSize old.root new.root path = .ok () ∧
    ∀ before after : List Bytes, before.length = old.treeSize → after.length = new.treeSize →
      mth s.sha256 before = old.root → mth s.sha256 after = new.root →
      CollisionFree s.sha256 (consistencyPreimages s.sha256 before after path) → before <+: after

/-- Signed by the key of the configured log, and read from what was signed. -/
def Authentic (trust : LogConfig) (note : String) (checkpoint : Checkpoint) : Prop :=
  Checkpoint.verify s note trust = .ok checkpoint ∧
    ∃ v extensions signatures, Verifier.parse s trust.verifierKey = .ok v ∧
      SignedAs s v (checkpointBody trust.origin checkpoint.treeSize checkpoint.root extensions)
        signatures ∧
      note = signedNote
        (checkpointBody trust.origin checkpoint.treeSize checkpoint.root extensions) signatures

/-- The record is there, decodes, opens to the receipt's root and is confirmed, and its
checkpoint is the log's and includes its entry. -/
def Included (receiptRoot : Option String) (record : Option Bytes) (trust : LogConfig)
    (publication : Checkpoint) : Prop :=
  ∃ bytes root decoded entry leafIndex note inclusionPath path,
    record = some bytes ∧ receiptRoot = some root ∧ decodeRecord codec bytes = .ok decoded ∧
    decoded.Opens s root entry ∧ decoded.outcome = .confirmed leafIndex note inclusionPath ∧
    trust.logId s = .ok decoded.logId ∧ Authentic s trust note publication ∧
    hashes inclusionPath = .ok path ∧ Includes s publication entry leafIndex path

end

section
variable {s : Suite} {codec : Codec}

theorem validate_of_verify {trust : LogConfig} {note : String} {checkpoint : Checkpoint}
    (h : Checkpoint.verify s note trust = .ok checkpoint) :
    trust.validate s = .ok () ∧ ∃ v, Verifier.parse s trust.verifierKey = .ok v := by
  unfold Checkpoint.verify at h
  simp only [except_bind_eq_ok] at h
  obtain ⟨_, hvalid, v, hv, _⟩ := h
  exact ⟨hvalid, v, hv⟩

theorem authentic_of_verify {trust : LogConfig} {note : String} {checkpoint : Checkpoint}
    (h : Checkpoint.verify s note trust = .ok checkpoint) :
    Authentic s trust note checkpoint ∧ checkpoint.Sized s := by
  obtain ⟨hvalid, v, hv⟩ := validate_of_verify h
  obtain ⟨_, hsized, extensions, signatures, _, _, hsigned, hnote⟩ := of_verify hvalid hv h
  exact ⟨⟨h, v, extensions, signatures, hv, hsigned, hnote⟩, hsized⟩

theorem includes_of_verify {checkpoint : Checkpoint} {entry : Bytes} {index : Nat}
    {path : List Hash} (hsized : checkpoint.Sized s)
    (h : verifyInclusion s.sha256 entry index checkpoint.treeSize path checkpoint.root = .ok ()) :
    Includes s checkpoint entry index path := by
  refine ⟨h, ?_⟩
  intro entries hlength hroot hcf
  rw [← hlength, ← hroot] at h
  have hpos := Nat.lt_of_le_of_lt (Nat.zero_le index) (index_lt_of_verifyInclusion h)
  exact (verifyInclusion_sound hpos (hlength ▸ hsized.fits) hcf h).2.1

theorem extends_of_verify {old new : Checkpoint} {path : List Hash} (hsized : new.Sized s)
    (h : verifyConsistency s.sha256 old.treeSize new.treeSize old.root new.root path = .ok ()) :
    Extends s old new path := by
  refine ⟨h, ?_⟩
  intro before after hbefore hafter hold hnew hcf
  rw [← hbefore, ← hafter, ← hold, ← hnew] at h
  exact (verifyConsistency_sound (size_le_of_verifyConsistency h) (hafter ▸ hsized.fits)
    (hcf.of_map preimage_injective) h).1

/-! ### Where the checks come from -/

theorem included_of_verify {receiptRoot : Option String} {bytes : Bytes} {root : String}
    {decoded : PublicationRecord} {trust : LogConfig} {publication : Checkpoint}
    (hprepared : prepare s codec receiptRoot bytes = .ok (root, decoded))
    (hverify : decoded.verify s root trust = .ok publication) :
    Included s codec receiptRoot (some bytes) trust publication ∧ publication.Sized s := by
  unfold prepare at hprepared
  split at hprepared
  next => cases hprepared
  next receiptRoot =>
    simp only [except_bind_eq_ok, Except.ok.injEq, Prod.mk.injEq] at hprepared
    obtain ⟨_, hdecode, _, _, rfl, rfl⟩ := hprepared
    obtain ⟨entry, leafIndex, note, inclusionPath, path, hopens, hlog, houtcome, hcheckpoint, hpath,
      hinclusion⟩ := verify_iff.mp hverify
    obtain ⟨hauthentic, hsized⟩ := authentic_of_verify hcheckpoint
    exact ⟨⟨bytes, _, _, entry, leafIndex, note, inclusionPath, path, rfl, rfl, hdecode, hopens,
      houtcome, hlog, hauthentic, hpath, includes_of_verify hsized hinclusion⟩, hsized⟩

/-- The first check, with the log and the checkpoint it established or the reason why
there is nothing to compare. -/
def establish (s : Suite) (codec : Codec) (receiptRoot : Option String) (record : Option Bytes)
    (trust : Option LogConfig) : Check × Except String (LogConfig × Checkpoint) :=
  match record with
  | none =>
    (⟨"log-inclusion", .skipped, "no retained publication evidence"⟩,
      .error "no authenticated publication checkpoint to compare")
  | some bytes =>
    match prepare s codec receiptRoot bytes with
    | .error error =>
      (⟨"log-inclusion", .fail, error⟩, .error "publication evidence did not bind the receipt")
    | .ok (root, record) =>
      match trust with
      | none =>
        (⟨"log-inclusion", .skipped, "no independently configured log trust"⟩,
          .error "no independently configured log trust")
      | some trust =>
        match record.outcome with
        | .unconfirmed reason =>
          (⟨"log-inclusion", .skipped, reason.description⟩,
            .error "publication has no authenticated inclusion checkpoint")
        | .confirmed _ _ _ =>
          match record.verify s root trust with
          | .error error =>
            (⟨"log-inclusion", .fail, error⟩, .error "publication checkpoint was not established")
          | .ok publication =>
            (⟨"log-inclusion", .pass,
                s!"entry is included in configured log {record.logId} at tree size {publication.treeSize}"⟩,
              .ok (trust, publication))

/-- The second check, of what the first established. -/
def compareEstablished (s : Suite) (codec : Codec) (reference : Option String)
    (comparison : Option Bytes) : Except String (LogConfig × Checkpoint) → Check
  | .error detail => skipped detail
  | .ok (trust, publication) =>
    match reference with
    | none => skipped "no independently supplied reference checkpoint"
    | some reference => consistencyOf (compareWith s codec trust reference comparison publication)

/-- The comparison has no part in the first check. -/
theorem assess_eq (receiptRoot : Option String) (record : Option Bytes)
    (material : VerificationMaterial) :
    assess s codec receiptRoot record material =
      [(establish s codec receiptRoot record material.trust).1,
        compareEstablished s codec material.referenceCheckpoint material.comparison
          (establish s codec receiptRoot record material.trust).2] := by
  unfold assess establish
  cases record with
  | none => rfl
  | some bytes =>
    simp only []
    cases prepare s codec receiptRoot bytes with
    | error error => rfl
    | ok prepared =>
      obtain ⟨root, record⟩ := prepared
      simp only []
      cases material.trust with
      | none => rfl
      | some trust =>
        simp only []
        cases record.outcome with
        | unconfirmed reason => rfl
        | confirmed leafIndex checkpoint inclusionPath =>
          simp only []
          cases record.verify s root trust with
          | error error => rfl
          | ok publication =>
            cases material.referenceCheckpoint with
            | none => rfl
            | some reference => rfl

theorem establish_name (receiptRoot : Option String) (record : Option Bytes)
    (trust : Option LogConfig) :
    (establish s codec receiptRoot record trust).1.name = "log-inclusion" := by
  unfold establish
  repeat' split
  all_goals rfl

/-- The first check passes exactly when something is established. -/
theorem establish_pass {receiptRoot : Option String} {record : Option Bytes}
    {trust : Option LogConfig} :
    (establish s codec receiptRoot record trust).1.status = .pass ↔
      ∃ log publication, (establish s codec receiptRoot record trust).2 = .ok (log, publication) := by
  unfold establish
  repeat' split
  all_goals simp

theorem establish_ok {receiptRoot : Option String} {record : Option Bytes}
    {trust : Option LogConfig} {log : LogConfig} {publication : Checkpoint}
    (h : (establish s codec receiptRoot record trust).2 = .ok (log, publication)) :
    trust = some log ∧ Included s codec receiptRoot record log publication ∧ publication.Sized s := by
  unfold establish at h
  split at h
  next => cases h
  next bytes =>
    split at h
    next => cases h
    next root decoded hprepared =>
      split at h
      next => cases h
      next trust =>
        split at h
        next => cases h
        next =>
          split at h
          next => cases h
          next got hverify =>
            cases h
            exact ⟨rfl, included_of_verify hprepared hverify⟩

theorem establish_of_verify {receiptRoot : Option String} {bytes : Bytes} {root : String}
    {decoded : PublicationRecord} {trust : LogConfig} {publication : Checkpoint}
    (hprepared : prepare s codec receiptRoot bytes = .ok (root, decoded))
    (hverify : decoded.verify s root trust = .ok publication) :
    (establish s codec receiptRoot (some bytes) (some trust)).2 = .ok (trust, publication) := by
  obtain ⟨_, _, _, _, _, _, _, houtcome, _⟩ := verify_iff.mp hverify
  simp only [establish, hprepared, houtcome, hverify]

/-! ### The comparison -/

theorem verify_comparison {comparison : CheckpointComparison} {trust : LogConfig}
    {first second : Checkpoint} (h : comparison.verify s trust = .ok (first, second)) :
    ∃ path, verifyConsistency s.sha256 first.treeSize second.treeSize first.root second.root path =
      .ok () := by
  unfold CheckpointComparison.verify at h
  simp only [except_bind_eq_ok, refuseIf_eq_ok, Except.ok.injEq, Prod.mk.injEq] at h
  obtain ⟨_, _, _, _, _, _, _, _, _, _, _, _, path, _, _, hpath, rfl, rfl⟩ := h
  exact ⟨path, hpath⟩

/-- In each of the three ways a path connects the two checkpoints, in one order or the other. -/
theorem connect_sound {trust : LogConfig} {comparison : Option Bytes}
    {reference publication : Checkpoint} (hreference : reference.Sized s)
    (hpublication : publication.Sized s)
    (h : connect s codec trust comparison reference publication = .ok true) :
    ∃ path, Extends s reference publication path ∨ Extends s publication reference path := by
  unfold connect at h
  split at h
  next bytes =>
    simp only [except_bind_eq_ok, refuseIf_eq_ok, Prod.exists, not_not] at h
    obtain ⟨_, _, first, second, hverify, _, hcovers, _⟩ := h
    obtain ⟨path, hpath⟩ := verify_comparison hverify
    rcases hcovers with ⟨hfirst, hsecond⟩ | ⟨hsecond, hfirst⟩
    · rw [hfirst.1, hfirst.2, hsecond.1, hsecond.2] at hpath
      exact ⟨path, .inl (extends_of_verify hpublication hpath)⟩
    · rw [hfirst.1, hfirst.2, hsecond.1, hsecond.2] at hpath
      exact ⟨path, .inr (extends_of_verify hreference hpath)⟩
  next =>
    split at h
    next hsame =>
      refine ⟨[], .inl (extends_of_verify hpublication ?_)⟩
      rw [hsame.1, hsame.2]
      exact (verifyConsistency_equal hpublication.empty).mpr ⟨rfl, rfl⟩
    next =>
      split at h
      next =>
        simp only [except_bind_eq_ok] at h
        obtain ⟨_, hpath, _⟩ := h
        split at hpath
        next => exact ⟨[], .inl (extends_of_verify hpublication hpath)⟩
        next => exact ⟨[], .inr (extends_of_verify hreference hpath)⟩
      next => cases h

theorem of_compareWith {trust : LogConfig} {note detail : String} {comparison : Option Bytes}
    {publication : Checkpoint} (hpublication : publication.Sized s)
    (h : compareWith s codec trust note comparison publication = .ok (some detail)) :
    ∃ reference, Authentic s trust note reference ∧
      ¬ (reference.treeSize = publication.treeSize ∧ reference.root ≠ publication.root) ∧
      (∃ path, Extends s reference publication path ∨ Extends s publication reference path) ∧
      detail = consistencyDetail reference publication := by
  unfold compareWith at h
  simp only [except_bind_eq_ok, refuseIf_eq_ok, Except.ok.injEq] at h
  obtain ⟨reference, hreference, _, hconflict, connected, hconnect, h⟩ := h
  obtain ⟨hauthentic, hsized⟩ := authentic_of_verify hreference
  cases connected with
  | false => cases h
  | true =>
    exact ⟨reference, hauthentic, hconflict, connect_sound hsized hpublication hconnect,
      (Option.some.inj h).symm⟩

theorem consistencyOf_pass {compared : Except String (Option String)}
    (h : (consistencyOf compared).status = .pass) :
    ∃ detail, compared = .ok (some detail) ∧ (consistencyOf compared).detail = detail := by
  unfold consistencyOf at h ⊢
  split at h
  next detail => exact ⟨detail, rfl, rfl⟩
  next => cases h
  next => cases h

/-- The second check passes only on something established, compared with the recipient's own
reference. -/
theorem compareEstablished_pass {reference : Option String} {comparison : Option Bytes}
    {established : Except String (LogConfig × Checkpoint)}
    (h : (compareEstablished s codec reference comparison established).status = .pass) :
    ∃ trust publication note detail, established = .ok (trust, publication) ∧
      reference = some note ∧
      compareWith s codec trust note comparison publication = .ok (some detail) ∧
      compareEstablished s codec reference comparison established =
        ⟨"log-consistency", .pass, detail⟩ := by
  unfold compareEstablished at h ⊢
  split at h
  next => cases h
  next trust publication =>
    split at h
    next => cases h
    next note =>
      obtain ⟨detail, hcompared, _⟩ := consistencyOf_pass h
      exact ⟨trust, publication, note, detail, rfl, rfl, hcompared, by simp [hcompared, consistencyOf]⟩

theorem compareEstablished_name (reference : Option String) (comparison : Option Bytes)
    (established : Except String (LogConfig × Checkpoint)) :
    (compareEstablished s codec reference comparison established).name = "log-consistency" := by
  unfold compareEstablished consistencyOf
  repeat' split
  all_goals rfl

/-- The other way round: a record that verifies and a comparison that holds pass. -/
theorem pass_of_compareWith {receiptRoot : Option String} {bytes : Bytes} {root note detail : String}
    {decoded : PublicationRecord} {trust : LogConfig} {publication : Checkpoint}
    {comparison : Option Bytes} {inclusion consistency : Check}
    (hprepared : prepare s codec receiptRoot bytes = .ok (root, decoded))
    (hverify : decoded.verify s root trust = .ok publication)
    (hcompared : compareWith s codec trust note comparison publication = .ok (some detail))
    (hassess : assess s codec receiptRoot (some bytes) ⟨some trust, some note, comparison⟩ =
      [inclusion, consistency]) : consistency.status = .pass := by
  rw [assess_eq] at hassess
  simp only [establish_of_verify hprepared hverify, compareEstablished, hcompared, consistencyOf,
    List.cons.injEq] at hassess
  rw [← hassess.2.1]

/-- **`assess` establishes only what the recipient can rely on.** One check of each kind. The
first passes only on a confirmed record of this receipt in a tree of the recipient's log; the
second only when, besides, the recipient's own reference is of that log and one of the two
trees extends the other, never with two roots of one size. What the sender brings to the
comparison changes neither the first check nor the reference of the second. -/
theorem assess_sound (receiptRoot : Option String) (record : Option Bytes)
    (material : VerificationMaterial) :
    ∃ inclusion consistency,
      assess s codec receiptRoot record material = [inclusion, consistency] ∧
      inclusion.name = "log-inclusion" ∧ consistency.name = "log-consistency" ∧
      (inclusion.status = .pass → ∃ trust publication, material.trust = some trust ∧
        Included s codec receiptRoot record trust publication) ∧
      (consistency.status = .pass → inclusion.status = .pass ∧
        ∃ trust publication note reference, material.trust = some trust ∧
          Included s codec receiptRoot record trust publication ∧
          material.referenceCheckpoint = some note ∧ Authentic s trust note reference ∧
          ¬ (reference.treeSize = publication.treeSize ∧ reference.root ≠ publication.root) ∧
          (∃ path, Extends s reference publication path ∨ Extends s publication reference path) ∧
          consistency.detail = consistencyDetail reference publication) ∧
      ∀ comparison, ∃ consistency',
        assess s codec receiptRoot record { material with comparison := comparison } =
          [inclusion, consistency'] ∧
        (consistency.status = .pass → consistency'.status = .pass → consistency' = consistency) := by
  refine ⟨_, _, assess_eq receiptRoot record material, establish_name .., compareEstablished_name ..,
    ?_, ?_, ?_⟩
  · intro hpass
    obtain ⟨trust, publication, hok⟩ := establish_pass.mp hpass
    obtain ⟨htrust, hincluded, _⟩ := establish_ok hok
    exact ⟨trust, publication, htrust, hincluded⟩
  · intro hpass
    obtain ⟨trust, publication, note, detail, hok, hnote, hcompared, hcheck⟩ :=
      compareEstablished_pass hpass
    obtain ⟨htrust, hincluded, hsized⟩ := establish_ok hok
    obtain ⟨reference, hauthentic, hconflict, hpath, hdetail⟩ := of_compareWith hsized hcompared
    refine ⟨establish_pass.mpr ⟨trust, publication, hok⟩, trust, publication, note, reference, htrust,
      hincluded, hnote, hauthentic, hconflict, hpath, ?_⟩
    rw [hcheck]
    exact hdetail
  · intro comparison
    refine ⟨_, assess_eq receiptRoot record { material with comparison := comparison }, ?_⟩
    intro hpass hpass'
    obtain ⟨trust, publication, note, detail, hok, hnote, hcompared, hcheck⟩ :=
      compareEstablished_pass hpass
    obtain ⟨trust', publication', note', detail', hok', hnote', hcompared', hcheck'⟩ :=
      compareEstablished_pass hpass'
    -- The same log, publication and reference on both sides, hence the same words.
    obtain ⟨rfl, rfl⟩ := Prod.mk.inj (Except.ok.inj (hok.symm.trans hok'))
    obtain rfl := Option.some.inj (hnote.symm.trans hnote')
    have hsized := (establish_ok hok).2.2
    obtain ⟨reference, hauthentic, _, _, hdetail⟩ := of_compareWith hsized hcompared
    obtain ⟨reference', hauthentic', _, _, hdetail'⟩ := of_compareWith hsized hcompared'
    obtain rfl := Except.ok.inj (hauthentic.1.symm.trans hauthentic'.1)
    rw [hcheck, hcheck', hdetail, hdetail']

end

/-! ### A publication compared with an older checkpoint -/

def fixtureEntries : List Bytes := [fixtureEntry, utf8 "leaf-0001"]

def fixtureLogId : String := "94bed270c53d845ef5f9158424c71ac86fddee380e80f5d361e0189f65ffa067"

def fixtureNode : String := "1709dab54fe8ae03851a13c6f689f5a3d67f6bf2b8ab1a4dc18bcd109280f05b"

def fixturePath : List String := [fixtureNode]

def fixtureRoot : String := String.ofList (List.replicate 64 '1')

def fixtureNoteOne : String := fixtureNote 1 fixtureRootOne fixtureSignatureOne

def fixtureNoteTwo : String := fixtureNote 2 fixtureRootTwo fixtureSignatureTwo

theorem fixtureDate_inRange : Trust.minSecs ≤ 1793491200 ∧ 1793491200 ≤ Trust.maxSecs := by decide

def fixtureDate : Trust.DateTime := ⟨1793491200, 0, fixtureDate_inRange, Trust.DateTime.zero_nanos_lt⟩

def fixtureRecord : PublicationRecord :=
  { format := "attest-publication/v1"
    causalRoot := fixtureRoot
    openingNonce := String.ofList (List.replicate 64 '2')
    entry := hexEncode fixtureEntry
    logId := fixtureLogId
    submitUrl := "https://log.test/add"
    createdAt := fixtureDate
    submissions := []
    outcome := .confirmed 0 fixtureNoteTwo fixturePath }

def fixtureComparison : CheckpointComparison :=
  { format := "attest-log-comparison/v1"
    logId := fixtureLogId
    firstCheckpoint := fixtureNoteOne
    secondCheckpoint := fixtureNoteTwo
    consistencyPath := fixturePath }

/-- The compact text of a confirmed record without submissions, with a path of one node. -/
def confirmedJson (root nonce entry logId checkpoint node : String) : Json := .object
  [("format", .text "attest-publication/v1"), ("causal_root", .text root),
    ("opening_nonce", .text nonce), ("entry", .text entry), ("log_id", .text logId),
    ("submit_url", .text "https://log.test/add"), ("created_at", .text "2026-11-01T00:00:00Z"),
    ("submissions", .array []),
    ("outcome", .object [("status", .text "confirmed"), ("leaf_index", .number 0),
      ("checkpoint", .text checkpoint), ("inclusion_path", .array [.text node])])]

def comparisonJson (logId first second node : String) : Json := .object
  [("format", .text "attest-log-comparison/v1"), ("log_id", .text logId),
    ("first_checkpoint", .text first), ("second_checkpoint", .text second),
    ("consistency_path", .array [.text node])]

def fixtureRecordBytes : Bytes :=
  utf8 (Json.compact (confirmedJson fixtureRoot (String.ofList (List.replicate 64 '2'))
    (hexEncode fixtureEntry) fixtureLogId fixtureNoteTwo fixtureNode))

def fixtureComparisonBytes : Bytes :=
  utf8 (Json.compact (comparisonJson fixtureLogId fixtureNoteOne fixtureNoteTwo fixtureNode))

/-- `serde_json` on one file of each kind. -/
def codecOf (recordBytes : Bytes) (record : PublicationRecord) (comparisonBytes : Bytes)
    (comparison : CheckpointComparison) : Codec where
  record bytes := if bytes = recordBytes then some record else none
  comparison bytes := if bytes = comparisonBytes then some comparison else none

def fixtureCodec : Codec :=
  codecOf fixtureRecordBytes fixtureRecord fixtureComparisonBytes fixtureComparison

def fixtureMaterial : VerificationMaterial :=
  { trust := some fixtureConfig
    referenceCheckpoint := some fixtureNoteOne
    comparison := some fixtureComparisonBytes }

/-- The sizes of the texts of the fixture. -/
theorem utf8ByteSize_fixture :
    fixtureRoot.utf8ByteSize ≤ 1000 ∧ (String.ofList (List.replicate 64 '2')).utf8ByteSize ≤ 1000 ∧
      (hexEncode fixtureEntry).utf8ByteSize ≤ 1000 ∧ fixtureLogId.utf8ByteSize ≤ 1000 ∧
      fixtureNoteOne.utf8ByteSize ≤ 1000 ∧ fixtureNoteTwo.utf8ByteSize ≤ 1000 ∧
      fixtureNode.utf8ByteSize ≤ 1000 := by
  decide +kernel

/-- The hashes of the fixture: what its texts spell, and the trees of its entries. -/
theorem digests_fixture :
    hashes fixturePath = .ok [fixtureLeafTwo] ∧
      hashBytes fixtureLogId =
        .ok (digest 0x94bed270c53d845ef5f9158424c71ac86fddee380e80f5d361e0189f65ffa067) ∧
      entryForRoot fixtureSuite.sha256 fixtureRoot fixtureRecord.openingNonce = .ok fixtureEntry ∧
      HashTree.auditPath (query fixtureSha256) fixtureEntries 0 = [fixtureLeafTwo] ∧
      HashTree.consistencyProof (query fixtureSha256) 1 fixtureEntries = [fixtureLeafTwo] ∧
      mth fixtureSha256 [fixtureEntry] = fixtureRootOne ∧
      mth fixtureSha256 fixtureEntries = fixtureRootTwo := by
  decide +kernel

theorem verify_fixtureNoteOne :
    Checkpoint.verify fixtureSuite fixtureNoteOne fixtureConfig =
      .ok ⟨1, fixtureRootOne, fixtureNoteOne⟩ := by
  have hbytes : fixtureNoteOne.utf8ByteSize ≤ maxNoteBytes :=
    utf8ByteSize_fixture.2.2.2.2.1.trans (by decide)
  unfold fixtureNoteOne at hbytes ⊢
  exact verify_fixtureNote (by decide) (by decide) signed_fixture_one hbytes

theorem verify_fixtureNoteTwo :
    Checkpoint.verify fixtureSuite fixtureNoteTwo fixtureConfig =
      .ok ⟨2, fixtureRootTwo, fixtureNoteTwo⟩ := by
  have hbytes : fixtureNoteTwo.utf8ByteSize ≤ maxNoteBytes :=
    utf8ByteSize_fixture.2.2.2.2.2.1.trans (by decide)
  unfold fixtureNoteTwo at hbytes ⊢
  exact verify_fixtureNote (by decide) (by decide) signed_fixture_two hbytes

theorem logId_fixture : fixtureConfig.logId fixtureSuite = .ok fixtureLogId := by
  unfold LogConfig.logId
  rw [validate_fixture]
  show Except.ok _ = _
  congr 1

theorem hashes_fixturePath : hashes fixturePath = .ok [fixtureLeafTwo] := digests_fixture.1

theorem opens_fixtureRecord : fixtureRecord.Opens fixtureSuite fixtureRoot fixtureEntry where
  format := rfl
  attempts := by decide
  destination := by decide +kernel
  log := ⟨_, digests_fixture.2.1⟩
  root := rfl
  commits := digests_fixture.2.2.1
  written := rfl

theorem verifyInclusion_fixture :
    verifyInclusion fixtureSha256 fixtureEntry 0 2 [fixtureLeafTwo] fixtureRootTwo = .ok () := by
  obtain ⟨_, _, _, hpath, _, _, hroot⟩ := digests_fixture
  have h := verifyInclusion_auditPath fixtureSha256 fixtureEntries (by decide)
    (show fixtureEntries[0]? = some fixtureEntry from rfl)
  rwa [hpath, hroot] at h

theorem verifyConsistency_fixture :
    verifyConsistency fixtureSha256 1 2 fixtureRootOne fixtureRootTwo [fixtureLeafTwo] = .ok () := by
  obtain ⟨_, _, _, _, hpath, hold, hnew⟩ := digests_fixture
  have h := verifyConsistency_consistencyProof fixtureSha256
    (show fixtureEntries.length < 2 ^ 64 by decide)
    (show [fixtureEntry] <+: fixtureEntries from ⟨[utf8 "leaf-0001"], rfl⟩)
  rw [hold, hnew] at h
  exact hpath ▸ h

theorem verify_fixtureRecord :
    fixtureRecord.verify fixtureSuite fixtureRoot fixtureConfig =
      .ok ⟨2, fixtureRootTwo, fixtureNoteTwo⟩ :=
  verify_iff.mpr ⟨fixtureEntry, 0, fixtureNoteTwo, fixturePath, [fixtureLeafTwo], opens_fixtureRecord,
    logId_fixture, rfl, verify_fixtureNoteTwo, hashes_fixturePath, verifyInclusion_fixture⟩

/-! The sizes are bounded with the texts as variables: nothing is rendered. -/

section Sizes
open Json

theorem escapedSize_words :
    (["format", "attest-publication/v1", "causal_root", "opening_nonce", "entry", "log_id",
        "submit_url", "https://log.test/add", "created_at", "2026-11-01T00:00:00Z", "submissions",
        "outcome", "status", "confirmed", "leaf_index", "checkpoint",
        "inclusion_path"].map escapedSize).sum = 189 ∧
      (["format", "attest-log-comparison/v1", "log_id", "first_checkpoint", "second_checkpoint",
        "consistency_path"].map escapedSize).sum = 85 ∧ (toString 0).utf8ByteSize = 1 := by
  decide +kernel

theorem length_confirmedJson {root nonce entry logId checkpoint node : String}
    (hroot : root.utf8ByteSize ≤ 1000) (hnonce : nonce.utf8ByteSize ≤ 1000)
    (hentry : entry.utf8ByteSize ≤ 1000) (hlog : logId.utf8ByteSize ≤ 1000)
    (hcheckpoint : checkpoint.utf8ByteSize ≤ 1000) (hnode : node.utf8ByteSize ≤ 1000) :
    (utf8 (compact (confirmedJson root nonce entry logId checkpoint node))).length ≤
      maxRecordBytes := by
  have := escapedSize_le root
  have := escapedSize_le nonce
  have := escapedSize_le entry
  have := escapedSize_le logId
  have := escapedSize_le checkpoint
  have := escapedSize_le node
  obtain ⟨hwords, _, hzero⟩ := escapedSize_words
  simp only [List.map_cons, List.map_nil, List.sum_cons, List.sum_nil] at hwords
  rw [Trust.length_utf8, utf8ByteSize_compact, maxRecordBytes]
  simp only [confirmedJson, renderSize, fieldsSize, itemsSize, compactSpacing, List.isEmpty_cons,
    List.isEmpty_nil, Bool.false_eq_true, if_false, if_true, hzero]
  omega

theorem length_comparisonJson {logId first second node : String}
    (hlog : logId.utf8ByteSize ≤ 1000) (hfirst : first.utf8ByteSize ≤ 1000)
    (hsecond : second.utf8ByteSize ≤ 1000) (hnode : node.utf8ByteSize ≤ 1000) :
    (utf8 (compact (comparisonJson logId first second node))).length ≤ maxComparisonBytes := by
  have := escapedSize_le logId
  have := escapedSize_le first
  have := escapedSize_le second
  have := escapedSize_le node
  obtain ⟨_, hwords, _⟩ := escapedSize_words
  simp only [List.map_cons, List.map_nil, List.sum_cons, List.sum_nil] at hwords
  rw [Trust.length_utf8, utf8ByteSize_compact, maxComparisonBytes]
  simp only [comparisonJson, renderSize, fieldsSize, itemsSize, compactSpacing, List.isEmpty_cons,
    List.isEmpty_nil, Bool.false_eq_true, if_false, if_true]
  omega

end Sizes

theorem decode_codecOf {recordBytes comparisonBytes : Bytes} {record : PublicationRecord}
    {comparison : CheckpointComparison} :
    (recordBytes.length ≤ maxRecordBytes →
        decodeRecord (codecOf recordBytes record comparisonBytes comparison) recordBytes = .ok record) ∧
      (comparisonBytes.length ≤ maxComparisonBytes →
        decodeComparison (codecOf recordBytes record comparisonBytes comparison) comparisonBytes =
          .ok comparison) := by
  simp only [decodeRecord, decodeComparison, codecOf, if_true, except_bind_eq_ok, refuseIf_eq_ok]
  exact ⟨fun h => ⟨(), Nat.not_lt.mpr h, trivial⟩, fun h => ⟨(), Nat.not_lt.mpr h, trivial⟩⟩

theorem prepare_fixture :
    prepare fixtureSuite fixtureCodec (some fixtureRoot) fixtureRecordBytes =
      .ok (fixtureRoot, fixtureRecord) := by
  obtain ⟨hroot, hnonce, hentry, hlog, _, hnote, hnode⟩ := utf8ByteSize_fixture
  have hdecode : decodeRecord fixtureCodec fixtureRecordBytes = .ok fixtureRecord :=
    decode_codecOf.1 (length_confirmedJson hroot hnonce hentry hlog hnote hnode)
  simp only [prepare, except_bind_eq_ok]
  exact ⟨_, hdecode, _, entryBytes_iff.mpr opens_fixtureRecord, rfl⟩

theorem verify_fixtureComparison :
    fixtureComparison.verify fixtureSuite fixtureConfig =
      .ok (⟨1, fixtureRootOne, fixtureNoteOne⟩, ⟨2, fixtureRootTwo, fixtureNoteTwo⟩) := by
  unfold CheckpointComparison.verify
  simp only [except_bind_eq_ok, refuseIf_eq_ok]
  exact ⟨(), fun h => h rfl, _, logId_fixture, (), fun h => h rfl, _, verify_fixtureNoteOne, _,
    verify_fixtureNoteTwo, (), by simp, _, hashes_fixturePath, (), verifyConsistency_fixture, rfl⟩

theorem connect_fixture :
    connect fixtureSuite fixtureCodec fixtureConfig (some fixtureComparisonBytes)
      ⟨1, fixtureRootOne, fixtureNoteOne⟩ ⟨2, fixtureRootTwo, fixtureNoteTwo⟩ = .ok true := by
  obtain ⟨_, _, _, hlog, hone, htwo, hnode⟩ := utf8ByteSize_fixture
  have hdecode : decodeComparison fixtureCodec fixtureComparisonBytes = .ok fixtureComparison :=
    decode_codecOf.2 (length_comparisonJson hlog hone htwo hnode)
  simp only [connect, except_bind_eq_ok, refuseIf_eq_ok, Prod.exists]
  exact ⟨_, hdecode, _, _, verify_fixtureComparison, (), by simp [SameCheckpoint], trivial⟩

theorem compareWith_fixture :
    compareWith fixtureSuite fixtureCodec fixtureConfig fixtureNoteOne (some fixtureComparisonBytes)
      ⟨2, fixtureRootTwo, fixtureNoteTwo⟩ =
        .ok (some (consistencyDetail ⟨1, fixtureRootOne, fixtureNoteOne⟩
          ⟨2, fixtureRootTwo, fixtureNoteTwo⟩)) := by
  unfold compareWith
  simp only [except_bind_eq_ok, refuseIf_eq_ok]
  exact ⟨_, verify_fixtureNoteOne, (), by simp, true, connect_fixture, rfl⟩

/-- The first entry of the log, published at two entries, for a recipient who held the
checkpoint of one: both checks pass, and both trees are the log's. -/
theorem assess_sound_fixture :
    ∃ inclusion consistency, assess fixtureSuite fixtureCodec (some fixtureRoot)
        (some fixtureRecordBytes) fixtureMaterial = [inclusion, consistency] ∧
      inclusion.status = .pass ∧ consistency.status = .pass ∧
      ∃ trust publication note reference, fixtureMaterial.trust = some trust ∧
        Included fixtureSuite fixtureCodec (some fixtureRoot) (some fixtureRecordBytes) trust
          publication ∧
        fixtureMaterial.referenceCheckpoint = some note ∧
        Authentic fixtureSuite trust note reference ∧
        ∃ path, Extends fixtureSuite reference publication path ∨
          Extends fixtureSuite publication reference path := by
  have hsound := @assess_sound fixtureSuite fixtureCodec (some fixtureRoot)
    (some fixtureRecordBytes) fixtureMaterial
  obtain ⟨inclusion, consistency, hassess, _, _, _, hconsistency, _⟩ := hsound
  have hpass : consistency.status = .pass :=
    pass_of_compareWith prepare_fixture verify_fixtureRecord compareWith_fixture hassess
  obtain ⟨hinclusion, trust, publication, note, reference, htrust, hincluded, hnote, hauthentic, _,
    hpath, _⟩ := hconsistency hpass
  exact ⟨inclusion, consistency, hassess, hinclusion, hpass, trust, publication, note, reference,
    htrust, hincluded, hnote, hauthentic, hpath⟩

end Attest.Publication.Record
