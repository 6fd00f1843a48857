import Attest.Publication.Disclosure
import Attest.Publication.Assessment
import Attest.Publication.TileProofs
import Attest.Verify.ExplicitStore

/-! Publishers on one record, from the first on.

Both results are about any number of publishers that find the lock free, in any order, each
with any receipt, under any of the configurations in use, and each dying anywhere: what they
disclose is bounded and fixed, and a confirmation stays unless the directory of the record
fails right after it was put in place. -/
namespace Attest.Publication.Client
open Merkle Note Record Library Library.Fallible Library.Process
open Trust (hexEncode utf8 DateTime)
open Verify (Backend)

/-- How many submissions the file counts. -/
def recorded (codec : RecordCodec) (w : World) : Nat :=
  match w.record with
  | none => 0
  | some bytes =>
    match decodeRecord codec.toCodec bytes with
    | .ok record => record.submissions.length
    | .error _ => 0

section Runs
variable {s : Suite} {codec : RecordCodec} {configs : Set LogConfig} {b : Backend}
  {newLog : LogConfig → Except String Unit} {calm : Prop} {w w' : World} {s₁ s₂ s₃ : System}

theorem recorded_eq {record : PublicationRecord} (h : OnDisk codec w record) :
    recorded codec w = record.submissions.length := by
  obtain ⟨bytes, hbytes, hrecord⟩ := h
  simp only [recorded, hbytes, hrecord]

theorem Inv.counted (h : Inv s codec configs w) :
    w.posts.length ≤ recorded codec w ∧ recorded codec w ≤ maxSubmissions := by
  rcases h with ⟨hnone, hposts⟩ | ⟨record, hdisk, hsound⟩
  · simp [recorded, hnone, hposts]
  · rw [recorded_eq hdisk]
    exact ⟨hsound.counted, hsound.attempts⟩

/-- A call sends, or writes the record, and not both. -/
theorem sends_or_writes {c : Call} {r : Reply c} (h : Answers calm w c r w') :
    w'.posts = w.posts ∨ w'.record = w.record := by
  cases c with
  | post body => rcases h with rfl | ⟨rfl, _⟩ <;> exact .inr rfl
  | persist bytes noclobber =>
    cases r with
    | ok _ => exact .inl (by rw [h.2])
    | error _ => exact .inl (by rw [h])
  | metadata => exact .inl (by rw [h.1])
  | read => exact .inl (by rw [h.1])
  | syncParent point => exact .inl (by rw [h.1])
  | stage _ => exact .inl (by rw [h])
  | randomness => exact .inl (by rw [h])
  | now => exact .inl (by rw [h])
  | get _ => exact .inl (by rw [h])
  | tiles => exact .inl (by rw [h])
  | sleep => exact .inl (by rw [h])

theorem moves_sends_or_writes
    (h : Held.Moves (Answers calm) (Starts s codec configs b newLog) s₁ s₂) :
    s₂.world.posts = s₁.world.posts ∨ s₂.world.record = s₁.world.record := by
  cases h with
  | call hstep => exact sends_or_writes hstep
  | acquire _ => exact .inl rfl
  | finish => exact .inl rfl
  | crash => exact .inl rfl
  | unlock => exact .inl rfl

/-- Along every run the invariant holds, and the file keeps what it must. -/
theorem runs_inv (hcodec : codec.Rereads)
    (h : s₁.Orderly (Answers calm) (Inv s codec configs) (Keeps codec calm))
    (hruns : Runs s codec configs b newLog calm s₁ s₂) :
    s₂.Orderly (Answers calm) (Inv s codec configs) (Keeps codec calm) ∧
      Keeps codec calm s₁.world s₂.world := by
  refine held_safe keeps_refl (fun _ _ _ _ h h' => h.trans h') ?_ h hruns
  rintro p ⟨config, hconfig, root, _, _, _, _, _, _, _, _, rfl⟩ w hw
  exact publishLocked_spec hcodec hconfig hw

theorem orderly_initial :
    System.initial.Orderly (Answers calm) (Inv s codec configs) (Keeps codec calm) :=
  ⟨.inl ⟨rfl, rfl⟩, .inl rfl⟩

end Runs

/-! ### Runs, call by call -/

section Steps
variable {codec : RecordCodec} {calm : Prop} {w : World} {α ε σ : Type} {st : σ} {fail : String → ε}

theorem reaches_orFail {x : Except String α} {a : α} (h : x = .ok a) (st : σ) (w : World) :
    Reaches (Answers calm) (orFail fail x) st w (.ok a) st w := by
  rw [h]
  exact reaches_pure a st w

theorem reaches_save {record : PublicationRecord} {bytes : Bytes} {initial : Bool} {point : SavePoint}
    {synced : Except String Unit} (hbytes : codec.toVecPretty record = .ok bytes)
    (hsize : bytes.length < maxRecordBytes) (hfree : initial = true → w.record = none)
    (hsynced : calm → point = .confirmation → synced = .ok ()) :
    Reaches (Answers calm) (save codec fail record initial point) st w (synced.mapError fail) st
      { w with record := some (bytes ++ [10]) } := by
  unfold save
  refine .bind (reaches_orFail hbytes _ _) ?_
  refine .bind (reaches_orFail (a := ()) (refuseIf_eq_ok.mpr (Nat.not_le.mpr hsize)) _ _) ?_
  refine .bind (reaches_request (r := .ok ()) _ rfl) ?_
  refine .bind (reaches_orFail rfl _ _) ?_
  have hrename : Answers calm w (.persist (bytes ++ [10]) initial) (.ok ())
      { w with record := some (bytes ++ [10]) } := ⟨hfree, rfl⟩
  refine .bind (reaches_request _ hrename) ?_
  refine .bind (reaches_orFail rfl _ _) ?_
  refine .bind (reaches_request (r := synced) _ ⟨rfl, hsynced⟩) ?_
  cases synced with
  | ok _ => exact .refl
  | error _ => exact .refl

theorem reaches_load : Reaches (Answers calm) (load codec id) () ⟨none, []⟩ (.ok none) () ⟨none, []⟩ := by
  unfold load
  refine .bind (reaches_request (r := .ok none) _ ⟨rfl, rfl⟩) ?_
  refine .bind (reaches_orFail rfl _ _) ?_
  exact reaches_pure _ _ _

end Steps

/-! ### A publication at a log of one entry

The log's first entry is the one published, and its checkpoint is in the fixtures. -/

def reasonText : UnconfirmedReason → String
  | .prepared => "prepared"
  | .requestFailed => "request-failed"
  | .serviceRefused => "service-refused"
  | .awaitingInclusion => "awaiting-inclusion"
  | .invalidProof => "invalid-proof"
  | .deadline => "deadline"
  | .attemptLimit => "attempt-limit"

def submissionJson (a : Submission) : Json := .object
  [("started_at", .text a.startedAt.rfc3339),
    ("returned_index", match a.returnedIndex with
      | none => .null
      | some index => .number index)]

def outcomeJson : PublicationState → Json
  | .unconfirmed reason => .object
    [("status", .text "unconfirmed"), ("reason", .text (reasonText reason))]
  | .confirmed leafIndex checkpoint path => .object
    [("status", .text "confirmed"), ("leaf_index", .number leafIndex),
      ("checkpoint", .text checkpoint), ("inclusion_path", .array (path.map .text))]

def recordJson (record : PublicationRecord) : Json := .object
  [("format", .text record.format), ("causal_root", .text record.causalRoot),
    ("opening_nonce", .text record.openingNonce), ("entry", .text record.entry),
    ("log_id", .text record.logId), ("submit_url", .text record.submitUrl),
    ("created_at", .text record.createdAt.rfc3339),
    ("submissions", .array (record.submissions.map submissionJson)),
    ("outcome", outcomeJson record.outcome)]

/-- The text of a record, as it is written. -/
def recordText (record : PublicationRecord) : Bytes := utf8 (Json.pretty (recordJson record))

/-- The fixture's record on its way. -/
def fixtureStage (index : List (Option Nat)) (outcome : PublicationState) : PublicationRecord :=
  { fixtureRecord with
    submissions := index.map fun i => ⟨fixtureRecord.createdAt, i⟩
    outcome := outcome }

def fixtureConfirmed : PublicationRecord := fixtureStage [some 0] (.confirmed 0 fixtureNoteOne [])

def fixtureAwaiting : PublicationRecord := fixtureStage [some 0] (.unconfirmed .awaitingInclusion)

def fixtureStages : List PublicationRecord :=
  [fixtureStage [] (.unconfirmed .prepared), fixtureStage [none] (.unconfirmed .prepared),
    fixtureAwaiting, fixtureConfirmed, fixtureStage [some 0] (.unconfirmed .invalidProof)]

theorem length_recordText (record : PublicationRecord) :
    (recordText record).length = Json.renderSize Json.prettySpacing 0 (recordJson record) := by
  rw [recordText, Trust.length_utf8, Json.utf8ByteSize_pretty]

/-! The sizes are compared with the texts of a record as variables. -/

section Sizes
open Json

theorem escapedSize_keys :
    (["format", "causal_root", "opening_nonce", "entry", "log_id", "submit_url", "created_at",
        "submissions", "outcome"].map escapedSize).sum = 79 ∧
      (["status", "confirmed", "leaf_index", "checkpoint", "inclusion_path"].map
        escapedSize).sum = 49 :=
  ⟨rfl, rfl⟩

/-- Records of one publication differ in length by their submissions and outcomes. -/
theorem size_recordJson (record : PublicationRecord) :
    ∃ n, (∀ submissions outcome, renderSize prettySpacing 0
        (recordJson { record with submissions := submissions, outcome := outcome }) =
      n + renderSize prettySpacing 1 (.array (submissions.map submissionJson)) +
        renderSize prettySpacing 1 (outcomeJson outcome)) ∧
      n ≤ 6 * (record.format.utf8ByteSize + record.causalRoot.utf8ByteSize +
        record.openingNonce.utf8ByteSize + record.entry.utf8ByteSize + record.logId.utf8ByteSize +
        record.submitUrl.utf8ByteSize + record.createdAt.rfc3339.utf8ByteSize) + 1000 := by
  have hwords := escapedSize_keys.1
  simp only [List.map_cons, List.map_nil, List.sum_cons, List.sum_nil] at hwords
  have := escapedSize_le record.format
  have := escapedSize_le record.causalRoot
  have := escapedSize_le record.openingNonce
  have := escapedSize_le record.entry
  have := escapedSize_le record.logId
  have := escapedSize_le record.submitUrl
  have := escapedSize_le record.createdAt.rfc3339
  refine ⟨escapedSize record.format + escapedSize record.causalRoot +
    escapedSize record.openingNonce + escapedSize record.entry + escapedSize record.logId +
    escapedSize record.submitUrl + escapedSize record.createdAt.rfc3339 + 167, ?_, by omega⟩
  intro submissions outcome
  simp only [recordJson, renderSize, fieldsSize, List.isEmpty_cons, List.isEmpty_nil,
    Bool.false_eq_true, if_false, if_true, prettySpacing, Nat.zero_add]
  omega

theorem size_confirmed (checkpoint : String) :
    renderSize prettySpacing 1 (outcomeJson (.confirmed 0 checkpoint [])) =
      escapedSize checkpoint + 100 := by
  have hwords := escapedSize_keys.2
  have hzero : (toString 0).utf8ByteSize = 1 := escapedSize_words.2.2
  simp only [List.map_cons, List.map_nil, List.sum_cons, List.sum_nil] at hwords
  simp only [outcomeJson, renderSize, fieldsSize, itemsSize, List.isEmpty_cons, List.isEmpty_nil,
    Bool.false_eq_true, if_false, if_true, prettySpacing, List.map_nil, hzero]
  omega

theorem sizes_fixtureStages :
    ∃ n ≤ 10000, (fixtureStages.map fun record => (recordText record).length) =
      [n + 61, n + 149, n + 156, n + escapedSize fixtureNoteOne + 187, n + 151] := by
  obtain ⟨n, hsize, hmost⟩ := size_recordJson fixtureRecord
  obtain ⟨hsubmissions, houtcomes, htexts⟩ :
      ([[], [none], [some 0]].map fun index : List (Option Nat) =>
        renderSize prettySpacing 1 (.array ((index.map fun i =>
          Submission.mk fixtureRecord.createdAt i).map submissionJson))) = [2, 90, 87] ∧
      ([.prepared, .awaitingInclusion, .invalidProof].map fun reason =>
        renderSize prettySpacing 1 (outcomeJson (.unconfirmed reason))) = [59, 69, 64] ∧
      fixtureRecord.format.utf8ByteSize ≤ 100 ∧
        fixtureRecord.causalRoot.utf8ByteSize ≤ 100 ∧ fixtureRecord.openingNonce.utf8ByteSize ≤ 100 ∧
        fixtureRecord.entry.utf8ByteSize ≤ 200 ∧ fixtureRecord.logId.utf8ByteSize ≤ 100 ∧
        fixtureRecord.submitUrl.utf8ByteSize ≤ 100 ∧
        fixtureRecord.createdAt.rfc3339.utf8ByteSize ≤ 100 := by
    refine ⟨rfl, rfl, ?_, ?_, ?_, ?_, ?_, ?_, ?_⟩ <;> decide
  simp only [List.map_cons, List.map_nil, List.cons.injEq, and_true] at hsubmissions houtcomes
  obtain ⟨hnone, hintent, hindex⟩ := hsubmissions
  obtain ⟨hprepared, hawaiting, hinvalid⟩ := houtcomes
  refine ⟨n, ?_, ?_⟩
  · omega
  · simp only [fixtureStages, fixtureAwaiting, fixtureConfirmed, fixtureStage, List.map_cons,
      List.map_nil, length_recordText, hsize, hnone, hintent, hindex, hprepared, hawaiting, hinvalid,
      size_confirmed, List.cons.injEq, and_true, true_and]
    omega

end Sizes

/-- `serde_json` on some records. -/
def tableCodec (records : List PublicationRecord) (text : PublicationRecord → Bytes) :
    RecordCodec where
  record bytes := records.find? fun record => decide (text record ++ [10] = bytes)
  comparison _ := none
  toVecPretty record := if record ∈ records then .ok (text record) else .error "no such record"

/-- No two of the texts are of one length. -/
theorem rereads_tableCodec {records : List PublicationRecord} {text : PublicationRecord → Bytes}
    (h : (records.map fun record => (text record).length).Nodup) :
    (tableCodec records text).Rereads := by
  intro record bytes hbytes
  simp only [tableCodec] at hbytes ⊢
  split at hbytes
  next hmem =>
    obtain rfl := Except.ok.inj hbytes
    rw [List.find?_eq_some_iff_append]
    refine ⟨by simp, ?_⟩
    obtain ⟨before, after, rfl⟩ := List.append_of_mem hmem
    refine ⟨before, after, rfl, ?_⟩
    intro other hother
    rw [List.map_append, List.map_cons, List.nodup_append] at h
    have hlength : (text other).length ≠ (text record).length :=
      h.2.2 _ (List.mem_map_of_mem hother) _ List.mem_cons_self
    rw [Bool.not_eq_true', decide_eq_false_iff_not]
    intro hsame
    exact hlength (congrArg List.length (List.append_cancel_right hsame))
  next => cases hbytes

def fixtureRecords : RecordCodec := tableCodec fixtureStages recordText

theorem rereads_fixture : fixtureRecords.Rereads := by
  obtain ⟨n, _, hsizes⟩ := sizes_fixtureStages
  refine rereads_tableCodec ?_
  rw [hsizes]
  simp only [List.nodup_cons, List.mem_cons, List.not_mem_nil, List.nodup_nil, or_false, not_false_eq_true,
    and_true]
  omega

theorem length_fixtureStages {record : PublicationRecord} (h : record ∈ fixtureStages) :
    (recordText record).length < maxRecordBytes := by
  obtain ⟨n, hmost, hsizes⟩ := sizes_fixtureStages
  have hsize : (recordText record).length ∈ fixtureStages.map fun record => (recordText record).length :=
    List.mem_map_of_mem h
  have hnote := Json.escapedSize_le fixtureNoteOne
  have hbytes := utf8ByteSize_fixture.2.2.2.2.1
  rw [hsizes] at hsize
  simp only [List.mem_cons, List.not_mem_nil, or_false] at hsize
  rw [maxRecordBytes]
  omega

/-- A record of the run, written. -/
theorem reaches_save_fixture {calm : Prop} {ε σ : Type} {fail : String → ε} {st : σ} {w : World}
    {record : PublicationRecord} {initial : Bool} {point : SavePoint} {synced : Except String Unit}
    (h : record ∈ fixtureStages) (hfree : initial = true → w.record = none)
    (hsynced : calm → point = .confirmation → synced = .ok ()) :
    Reaches (Answers calm) (save fixtureRecords fail record initial point) st w
      (synced.mapError fail) st { w with record := some (recordText record ++ [10]) } := by
  exact reaches_save (if_pos h) (length_fixtureStages h) hfree hsynced

theorem reaches_saved_fixture {calm : Prop} {ε σ : Type} {fail : String → ε} {st : σ} {w : World}
    {record : PublicationRecord} {initial : Bool} {point : SavePoint} (h : record ∈ fixtureStages)
    (hfree : initial = true → w.record = none) :
    Reaches (Answers calm) (save fixtureRecords fail record initial point) st w (.ok ()) st
      { w with record := some (recordText record ++ [10]) } :=
  @reaches_save_fixture calm ε σ fail st w record initial point (.ok ()) h hfree fun _ _ => rfl

/-- What was written last, and what was sent. -/
def fixtureWorld (record : PublicationRecord) (posts : List Bytes) : World :=
  ⟨some (recordText record ++ [10]), posts⟩

section Fixture
variable {calm : Prop}

theorem mem_fixtureStages :
    fixtureStage [] (.unconfirmed .prepared) ∈ fixtureStages ∧
      fixtureStage [none] (.unconfirmed .prepared) ∈ fixtureStages ∧
      fixtureAwaiting ∈ fixtureStages ∧ fixtureConfirmed ∈ fixtureStages ∧
      fixtureStage [some 0] (.unconfirmed .invalidProof) ∈ fixtureStages := by
  simp [fixtureStages]

theorem reaches_prepareNew :
    Reaches (Answers calm) (prepareNew fixtureSuite fixtureRecords fixtureConfig fixtureRoot) ()
      ⟨none, []⟩ (.ok (fixtureStage [] (.unconfirmed .prepared))) ()
      (fixtureWorld (fixtureStage [] (.unconfirmed .prepared)) []) := by
  have hnonce : hexEncode (Vector.replicate 32 (0x22 : UInt8)).toList = fixtureRecord.openingNonce := by
    rfl
  have hentry : entryForRoot fixtureSuite.sha256 fixtureRoot
      (hexEncode (Vector.replicate 32 (0x22 : UInt8)).toList) = .ok fixtureEntry := by
    rw [hnonce]
    exact opens_fixtureRecord.commits
  unfold prepareNew
  refine .bind (reaches_request (r := some (Vector.replicate 32 0x22)) _ rfl) ?_
  refine .bind (reaches_orFail hentry _ _) ?_
  refine .bind (reaches_orFail logId_fixture _ _) ?_
  refine .bind (reaches_request (r := fixtureRecord.createdAt) _ rfl) ?_
  rw [hnonce]
  exact .bind (reaches_saved_fixture mem_fixtureStages.1 fun _ => rfl) (reaches_pure _ _ _)

theorem body_single {status maximum : Nat} {chunk : Bytes} (h : chunk.length ≤ maximum) :
    body ⟨status, none, [chunk], false⟩ maximum = .ok chunk := by
  simp [body, collectBody, h]

theorem judgeSubmission_fixture :
    judgeSubmission (some ⟨200, none, [utf8 "0"], false⟩) = .ok 0 := by
  have hbody : body ⟨200, none, [utf8 "0"], false⟩ 32 = .ok (utf8 "0") := body_single (by decide)
  have hparse : parseIndex (utf8 "0") = .ok 0 := by
    simp only [parseIndex, Trust.fromUTF8?_utf8]
    rfl
  simp only [judgeSubmission, hbody, hparse]
  rfl

/-- A resource, as it is served at the first try. -/
theorem reaches_readResource {bytes : Bytes} {path : String} {maximum left : Nat}
    (hsize : bytes.length ≤ maximum) (record : PublicationRecord) (w : World) :
    Reaches (Answers calm) (readResource path maximum (left + 1)) ⟨record, 1⟩ w (.ok (some bytes))
      ⟨record, 2⟩ w := by
  unfold readResource
  refine .bind (show Reaches _ budget _ _ (.ok true) _ _ from .refl) ?_
  refine .bind (reaches_request (r := .ready (some ⟨200, none, [bytes], false⟩)) _ rfl) ?_
  refine .bind (reaches_pure _ _ _) ?_
  have hjudge : judgeRead (left == 0) maximum (some ⟨200, none, [bytes], false⟩) =
      .ok (some (some bytes)) := by
    simp [judgeRead, isSuccess, body_single hsize, Except.map]
  rw [hjudge]
  exact reaches_pure _ _ _

/-- The log's checkpoint, as it is served. -/
theorem reaches_checkpoint {suite : Suite} {config : LogConfig} {note : String} {c : Checkpoint}
    (hsize : (utf8 note).length ≤ maxNoteBytes) (hverify : Checkpoint.verify suite note config = .ok c)
    (record : PublicationRecord) (w : World) :
    Reaches (Answers calm) (checkpoint suite config) ⟨record, 1⟩ w (.ok (some c)) ⟨record, 2⟩ w := by
  unfold checkpoint
  refine .bind (reaches_readResource hsize record w) ?_
  simp only [Trust.fromUTF8?_utf8]
  exact .bind (reaches_orFail hverify _ _) (reaches_pure _ _ _)

/-- One submission, answered with the index 0. -/
theorem reaches_attempt :
    Reaches (Answers calm) (attempt fixtureRecords fixtureEntry)
      ⟨fixtureStage [] (.unconfirmed .prepared), 0⟩
      (fixtureWorld (fixtureStage [] (.unconfirmed .prepared)) [])
      (.ok (.inl 0)) ⟨fixtureAwaiting, 1⟩ (fixtureWorld fixtureAwaiting [fixtureEntry]) := by
  obtain ⟨_, hintent, hreply, _⟩ := mem_fixtureStages
  unfold attempt
  refine .bind (reaches_request (r := fixtureRecord.createdAt) _ rfl) ?_
  refine .bind (reaches_modify _ _ _) ?_
  refine .bind (reaches_get _ _) ?_
  refine .bind (reaches_saved_fixture hintent (fun h => nomatch h)) ?_
  have hsubmit : Reaches (Answers calm) (submit fixtureEntry)
      ⟨fixtureStage [none] (.unconfirmed .prepared), 0⟩
      (fixtureWorld (fixtureStage [none] (.unconfirmed .prepared)) []) (.ok (.ok 0))
      ⟨fixtureStage [none] (.unconfirmed .prepared), 1⟩
      (fixtureWorld (fixtureStage [none] (.unconfirmed .prepared)) [fixtureEntry]) := by
    unfold submit
    refine .bind (show Reaches _ budget _ _ (.ok true) _ _ from .refl) ?_
    refine .bind (reaches_request (r := .ready (some ⟨200, none, [utf8 "0"], false⟩)) _ (.inl rfl)) ?_
    refine .bind (reaches_pure _ _ _) ?_
    rw [judgeSubmission_fixture]
    exact reaches_pure _ _ _
  refine .bind hsubmit ?_
  refine .bind (reaches_modify _ _ _) ?_
  refine .bind (reaches_get _ _) ?_
  exact .bind (reaches_saved_fixture hreply (fun h => nomatch h)) (reaches_pure _ _ _)

/-- What the publisher holds when the confirmation was written, reported or not. -/
def fixtureHeld : Except String Unit → PublicationRecord
  | .ok _ => fixtureConfirmed
  | .error _ => fixtureAwaiting

theorem verifyInclusion_fixtureOne :
    verifyInclusion fixtureSuite.sha256 fixtureEntry 0 1 [] fixtureRootOne = .ok () := by
  obtain ⟨_, _, _, _, _, hroot, _⟩ := digests_fixture
  have h := verifyInclusion_auditPath fixtureSha256 [fixtureEntry] (by decide)
    (show [fixtureEntry][0]? = some fixtureEntry from rfl)
  have hpath : HashTree.auditPath (query fixtureSha256) [fixtureEntry] 0 = [] :=
    HashTree.auditPath_of_length _ rfl _
  rw [hroot, hpath] at h
  exact h

theorem opens_fixtureConfirmed :
    fixtureConfirmed.Opens fixtureSuite fixtureConfirmed.causalRoot fixtureEntry :=
  SameIdentity.opens (a := fixtureRecord) ⟨rfl, rfl, rfl, rfl, rfl, rfl⟩ (by decide)
    opens_fixtureRecord

theorem verify_fixtureConfirmed :
    fixtureConfirmed.verify fixtureSuite fixtureAwaiting.causalRoot fixtureConfig =
      .ok ⟨1, fixtureRootOne, fixtureNoteOne⟩ :=
  verify_iff.mpr ⟨fixtureEntry, 0, fixtureNoteOne, [], [], opens_fixtureConfirmed, logId_fixture, rfl,
    verify_fixtureNoteOne, rfl, verifyInclusion_fixtureOne⟩

/-- A tree of one entry needs no tile. -/
theorem inclusion_fixtureOne (source : Tiles.TileSource) :
    (Tiles.inclusion fixtureSuite.sha256 source 1 0).run' ∅ = .ok [] := by
  have hranges : inclusionRanges 0 1 = .ok [] := by
    simp [inclusionRanges, Tiles.inclusionWalk_one]
  unfold Tiles.inclusion
  rw [hranges]
  rfl

theorem reaches_confirm {synced : Except String Unit} (h : calm → synced = .ok ()) :
    Reaches (Answers calm) (confirm fixtureSuite fixtureRecords fixtureConfig fixtureEntry 0
        ⟨1, fixtureRootOne, fixtureNoteOne⟩) ⟨fixtureAwaiting, 2⟩
      (fixtureWorld fixtureAwaiting [fixtureEntry]) (synced.mapError stopWith)
      ⟨fixtureHeld synced, 2⟩ (fixtureWorld fixtureConfirmed [fixtureEntry]) := by
  obtain ⟨_, _, _, hconfirmed, _⟩ := mem_fixtureStages
  unfold confirm
  refine .bind (reaches_request (r := .ready fun _ => .ok none) _ rfl) ?_
  refine .bind (reaches_pure _ _ _) ?_
  simp only [inclusion_fixtureOne]
  refine .bind (reaches_orFail verifyInclusion_fixtureOne _ _) ?_
  refine .bind (reaches_get _ _) ?_
  refine .bind (reaches_orFail verify_fixtureConfirmed _ _) ?_
  have hsave := @reaches_save_fixture calm _ _ stopWith (Progress.mk fixtureAwaiting 2)
    (fixtureWorld fixtureAwaiting [fixtureEntry]) _ false .confirmation synced hconfirmed
    (fun h => nomatch h) (fun hcalm _ => h hcalm)
  cases synced with
  | ok _ => exact .bind hsave (reaches_modify _ _ _)
  | error _ => exact .bind_error hsave

/-- The whole of `obtain_inclusion`. -/
theorem reaches_obtainInclusion {synced : Except String Unit} (h : calm → synced = .ok ()) :
    Reaches (Answers calm) (obtainInclusion fixtureSuite fixtureRecords fixtureConfig)
      ⟨fixtureStage [] (.unconfirmed .prepared), 0⟩
      (fixtureWorld (fixtureStage [] (.unconfirmed .prepared)) []) (synced.mapError stopWith)
      ⟨fixtureHeld synced, 2⟩ (fixtureWorld fixtureConfirmed [fixtureEntry]) := by
  have hopens : (fixtureStage [] (.unconfirmed .prepared)).Opens fixtureSuite fixtureRoot
      fixtureEntry :=
    SameIdentity.opens (a := fixtureRecord) ⟨rfl, rfl, rfl, rfl, rfl, rfl⟩ (by decide)
      opens_fixtureRecord
  unfold obtainInclusion
  refine .bind (reaches_get _ _) ?_
  refine .bind (reaches_orFail (entryBytes_iff.mpr hopens) _ _) ?_
  have hsubmitted : Reaches (Answers calm) (submitUntilIndexed fixtureRecords fixtureEntry
      maxSubmissions none) ⟨fixtureStage [] (.unconfirmed .prepared), 0⟩
      (fixtureWorld (fixtureStage [] (.unconfirmed .prepared)) []) (.ok (some 0))
      ⟨fixtureAwaiting, 1⟩ (fixtureWorld fixtureAwaiting [fixtureEntry]) := by
    rw [maxSubmissions, submitUntilIndexed]
    refine .bind (reaches_get _ _) ?_
    rw [if_pos ⟨rfl, by decide⟩]
    refine .bind reaches_attempt ?_
    exact .bind (reaches_get _ _) (reaches_pure _ _ _)
  refine .bind hsubmitted ?_
  show Reaches _ (poll _ _ _ _ 0 (29 + 1)) _ _ _ _ _
  rw [poll]
  have hsize : (utf8 fixtureNoteOne).length ≤ maxNoteBytes := by
    rw [Trust.length_utf8]
    exact utf8ByteSize_fixture.2.2.2.2.1.trans (by decide)
  refine .bind (reaches_checkpoint hsize verify_fixtureNoteOne _ _) ?_
  exact reaches_confirm h

/-- The record written last. -/
def fixtureClosing : Except String Unit → PublicationRecord
  | .ok _ => fixtureConfirmed
  | .error _ => fixtureStage [some 0] (.unconfirmed .invalidProof)

theorem settle_fixture (synced : Except String Unit) :
    settle (synced.mapError stopWith) (fixtureHeld synced) = fixtureClosing synced ∧
      fixtureClosing synced ∈ fixtureStages := by
  obtain ⟨_, _, _, hconfirmed, hinvalid⟩ := mem_fixtureStages
  cases synced with
  | ok _ => exact ⟨rfl, hconfirmed⟩
  | error _ => exact ⟨rfl, hinvalid⟩

/-- One publisher to its end, by way of the confirmation. -/
theorem goes_publishLocked {synced : Except String Unit} (h : calm → synced = .ok ()) :
    ∃ rest : Process Call Reply (Except String PublicationRecord × Unit),
      Relation.ReflTransGen (Goes (Answers calm))
        ((publishLocked fixtureSuite fixtureRecords fixtureConfig fixtureRoot).run.run (), ⟨none, []⟩)
        (rest, fixtureWorld fixtureConfirmed [fixtureEntry]) ∧
      Relation.ReflTransGen (Goes (Answers calm))
        (rest, fixtureWorld fixtureConfirmed [fixtureEntry])
        (.done (.ok (fixtureClosing synced), ()), fixtureWorld (fixtureClosing synced) [fixtureEntry]) := by
  obtain ⟨hsettle, hmem⟩ := settle_fixture synced
  have hload : Reaches (Answers calm) (load fixtureRecords id) () ⟨none, []⟩ _ () _ := reaches_load
  have hobtain := reaches_lift (ε := String) () (reaches_obtainInclusion h)
  have hclosing : Reaches (Answers calm) (do
      save fixtureRecords id (settle (synced.mapError stopWith) (fixtureHeld synced)) false .closing
      return settle (synced.mapError stopWith) (fixtureHeld synced)) ()
      (fixtureWorld fixtureConfirmed [fixtureEntry]) (.ok (fixtureClosing synced)) ()
      (fixtureWorld (fixtureClosing synced) [fixtureEntry]) := by
    rw [hsettle]
    exact .bind (reaches_saved_fixture hmem fun h => nomatch h) (reaches_pure _ _ _)
  refine ⟨_, ?_, hclosing⟩
  refine (hload.goes _).trans ?_
  refine (reaches_prepareNew.goes _).trans ?_
  exact hobtain.goes _

end Fixture

/-! ### The receipt of the run

The sample receipt with the fixture's root, signed by the first sample key, and a store that
trusts that key. -/

section Receipt
open Storage Verify
open Trust hiding Bytes

def fixtureReceiptSignature : Vector UInt8 64 :=
  #v[152, 245, 62, 148, 35, 8, 140, 85, 114, 8, 220, 189, 236, 74, 243, 169,
    61, 130, 197, 227, 14, 32, 210, 81, 218, 90, 232, 115, 98, 91, 247, 16,
    119, 45, 116, 122, 253, 204, 46, 133, 105, 24, 170, 51, 65, 76, 193, 2,
    208, 138, 193, 20, 121, 144, 157, 99, 119, 128, 196, 21, 39, 208, 94, 12]

def fixtureReceipt : Receipt :=
  { sampleReceipt sampleDate with
    causalChainHash := some fixtureRoot
    signature := some (hexEncode fixtureReceiptSignature.toList)
    signerPublicKey := some (keyHex samplePublicA) }

/-- The text that was signed. -/
def fixtureReceiptText : String :=
  "\x7b\"schema_version\":3,\"pipeline_hash\":\"" ++ sampleDigest 'a' ++ "\",\"steps\":[" ++
    sampleStepText "build" (sampleDigest 'c') (sampleDigest 'b') "2" ++ "," ++
    sampleStepText "fetch" (sampleDigest 'b') (sampleDigest 'c') "1" ++ "],\"timestamp\":\"" ++
    sampleDate.rfc3339 ++ "\",\"total_duration_secs\":3,\"signature\":null," ++
    "\"signer_public_key\":null,\"attest_version\":\"0.3.1\",\"causal_events\":[\"" ++
    sampleDigest 'd' ++ "\",\"" ++ sampleDigest 'e' ++ "\"],\"causal_chain_hash\":\"" ++
    fixtureRoot ++ "\"\x7d"

def fixtureYaml : Bytes :=
  utf8 ("schema_version: 3\npipeline_hash: " ++ sampleDigest 'a' ++ "\nsteps:\n" ++
    sampleStepYaml "fetch" (sampleDigest 'b') (sampleDigest 'c') "1" ++
    sampleStepYaml "build" (sampleDigest 'c') (sampleDigest 'b') "2" ++
    "timestamp: 2026-08-01T00:00:00Z\ntotal_duration_secs: 3\nsignature: " ++
    hexEncode fixtureReceiptSignature.toList ++ "\nsigner_public_key: " ++ keyHex samplePublicA ++
    "\nattest_version: 0.3.1\ncausal_events:\n- " ++ sampleDigest 'e' ++ "\n- " ++
    sampleDigest 'd' ++ "\ncausal_chain_hash: " ++ fixtureRoot ++ "\n")

def fixtureBackend : Backend :=
  { sampleBackend with
    crates := { sampleReceiptCrates with
      verify := fun key message signature => decide (key = samplePublicA ∧
        message = utf8 fixtureReceiptText ∧ signature = fixtureReceiptSignature) }
    receiptJson := fun _ => .ok fixtureReceiptText
    readYaml := fun content =>
      if content = fixtureYaml then .ok ⟨some 3, .ok fixtureReceipt⟩ else .error "expected value" }

def fixtureTrusted : TrustEntry := ⟨sampleIdA, "authority", .trusted, none⟩

/-- The options `publish` verifies a receipt with. -/
def publishOptions (workspace receiptTrust : String) : VerifyOptions where
  checkSignatures := true
  recompute := false
  workspace := workspace
  trustStore := some receiptTrust
  trustReceiptTimestamp := false
  required := [.signature]

theorem signedBy_fixture : SignedBy fixtureBackend fixtureReceipt (keyHex samplePublicA) := by
  refine ⟨hexEncode fixtureReceiptSignature.toList, fixtureReceiptText, rfl, rfl, rfl, ?_⟩
  have hverify : fixtureBackend.crates.verify samplePublicA (utf8 fixtureReceiptText)
      fixtureReceiptSignature = true := by
    simp only [fixtureBackend, decide_eq_true_eq, true_and]
  exact (verifyWithPublicKey_hex (by rfl)).trans (congrArg Except.ok hverify)

theorem receipt_facts :
    keyId fixtureBackend.crates samplePublicA = sampleIdA ∧ consistencyProblems fixtureReceipt = [] ∧
      hashBytes fixtureRoot = .ok (Vector.replicate 32 0x11) :=
  ⟨rfl, rfl, rfl⟩

theorem signatureCheck_fixture :
    (signatureCheck fixtureBackend (sampleFiles fixtureTrusted) fixtureReceipt
      (publishOptions "." "trust") none).check.status = .pass := by
  have hid := receipt_facts.1
  have hentry : TrustPolicy.entry ⟨1, [fixtureTrusted]⟩ (keyId fixtureBackend.crates samplePublicA) =
      some fixtureTrusted := by
    rw [hid]
    simp [TrustPolicy.entry, fixtureTrusted]
  have hfree : Set.InjOn (keyId fixtureBackend.crates)
      (insert samplePublicA (held (sampleStore fixtureTrusted))) := by
    rw [held_sampleStore, Set.insert_eq_of_mem (Set.mem_singleton _)]
    exact Set.injOn_singleton _ _
  have hstatus := @keyTrustStatus_of_entry fixtureBackend (sampleFiles fixtureTrusted)
    (publishOptions "." "trust") _ _ _ _ rfl hfree (readable_sampleStore hid rfl _) hentry
  refine signatureCheck_pass_iff.mpr ⟨keyHex samplePublicA, signedBy_fixture, ?_⟩
  refine judgeSigned_passed_iff.mpr (.inl ?_)
  rw [hstatus, entryTrust_trusted_iff.mpr ⟨fixtureTrusted, hentry, rfl⟩]

/-- A coherent receipt without a token, signed by a trusted key, passes where a signature is
asked for. -/
theorem receiptVerdict_passed {b : Backend} {files : Files} {receipt : Receipt} {opts : VerifyOptions}
    (label : String) (now : DateTime) (hcheck : opts.checkSignatures = true)
    (hrecompute : opts.recompute = false) (hrequired : opts.required = [.signature])
    (hcoherent : consistencyProblems receipt = []) (htoken : receipt.timestampToken = none)
    (hsignature : (signatureCheck b files receipt opts none).check.status = .pass) :
    (receiptVerdict b files receipt label opts now).passed = true := by
  have htimestamp : timestampCheck b files receipt opts =
      (⟨"timestamp", .skipped, "receipt carries no timestamp token"⟩, none) := by
    simp only [timestampCheck, htoken]
  have hchecked : optionalSignatureCheck b files receipt opts none =
      signatureCheck b files receipt opts none := if_pos hcheck
  have hname := @name_signatureCheck b files receipt opts none
  simp only [receiptVerdict, htimestamp, hchecked, consistencyCheck, if_pos hcoherent, applyPolicy,
    optionalRecomputeCheck, hrecompute, hrequired, ReceiptVerdict.passed]
  simp [hname, hsignature, unmetReason, checkReason, Requirement.name]

theorem admitReceipt_fixture (newLog : LogConfig → Except String Unit)
    (hlog : newLog fixtureConfig = .ok ()) :
    admitReceipt fixtureSuite fixtureConfig fixtureBackend newLog (sampleFiles fixtureTrusted) 60000
      (.ok fixtureYaml) "receipt.yaml" "." "trust" sampleDate = .ok fixtureRoot := by
  have hyaml : fixtureBackend.readYaml fixtureYaml = .ok ⟨some 3, .ok fixtureReceipt⟩ := by
    simp only [fixtureBackend, if_true]
  obtain ⟨_, hcoherent, hroot⟩ := receipt_facts
  have hpassed := receiptVerdict_passed "receipt.yaml" sampleDate rfl rfl rfl hcoherent rfl
    signatureCheck_fixture
  have hverdict : verifyReceiptBytes fixtureBackend (sampleFiles fixtureTrusted) fixtureYaml
      "receipt.yaml" (publishOptions "." "trust") sampleDate =
        .ok (receiptVerdict fixtureBackend (sampleFiles fixtureTrusted) fixtureReceipt "receipt.yaml"
          (publishOptions "." "trust") sampleDate) := by
    simp only [verifyReceiptBytes, hyaml]
    rfl
  unfold admitReceipt
  simp only [except_bind_eq_ok, refuseIf_eq_ok]
  refine ⟨(), by decide, (), validate_fixture, (), by decide, (), by decide, (), hlog,
    fixtureYaml, rfl, _, hverdict, (), by simp [hpassed], _, hyaml, _, rfl, ?_⟩
  show (hashBytes fixtureRoot >>= fun _ => Except.ok fixtureRoot) = _
  rw [hroot]
  rfl

end Receipt

/-! ### The publisher of the run, among publishers -/

theorem onDisk_fixture {record : PublicationRecord} (h : record ∈ fixtureStages) (posts : List Bytes) :
    OnDisk fixtureRecords (fixtureWorld record posts) record := by
  have hwritten : fixtureRecords.toVecPretty record = .ok (recordText record) := if_pos h
  have hsize := length_fixtureStages h
  refine ⟨recordText record ++ [10], rfl, ?_⟩
  simp only [decodeRecord, except_bind_eq_ok, refuseIf_eq_ok, rereads_fixture _ _ hwritten]
  refine ⟨(), ?_, trivial⟩
  rw [List.length_append, List.length_singleton]
  omega

/-- To the confirmation, and from there to the end. -/
theorem runs_fixture {calm : Prop} {synced : Except String Unit} (h : calm → synced = .ok ()) :
    ∃ s₁ s₂ : System,
      Runs fixtureSuite fixtureRecords {fixtureConfig} fixtureBackend (fun _ => .ok ()) calm
        System.initial s₁ ∧
      Runs fixtureSuite fixtureRecords {fixtureConfig} fixtureBackend (fun _ => .ok ()) calm s₁ s₂ ∧
      s₁.world = fixtureWorld fixtureConfirmed [fixtureEntry] ∧
      s₂.world = fixtureWorld (fixtureClosing synced) [fixtureEntry] := by
  obtain ⟨rest, hconfirms, hcloses⟩ := goes_publishLocked h
  have hstarts : Starts fixtureSuite fixtureRecords {fixtureConfig} fixtureBackend (fun _ => .ok ())
      ((publishLocked fixtureSuite fixtureRecords fixtureConfig fixtureRoot).run.run ()) :=
    ⟨fixtureConfig, rfl, fixtureRoot, _, _, _, _, _, _, _, admitReceipt_fixture _ rfl, rfl⟩
  refine ⟨_, _, ?_, moves_of_goes hcloses, rfl, rfl⟩
  exact .head (Held.Moves.acquire hstarts) (moves_of_goes hconfirms)

/-! ### What publishers disclose -/

section Results
variable {s : Suite} {codec : RecordCodec} {configs : Set LogConfig} {b : Backend}
  {newLog : LogConfig → Except String Unit} {s₁ s₂ : System}

/-- **Publishers disclose one entry, at most three times.** Whatever has been sent after one
more step, the file counted before that step; what was sent is always the entry the file
opens to; what identifies the publication stays; and a confirmed file verifies against a
configured log. -/
theorem publishers_disclose_one_entry (hcodec : codec.Rereads)
    (h₁ : Runs s codec configs b newLog False System.initial s₁)
    (h₂ : Runs s codec configs b newLog False s₁ s₂) :
    (s₂.world.posts.length ≤ recorded codec s₂.world ∧
      recorded codec s₂.world ≤ maxSubmissions ∧
      ∀ s₃, Held.Moves (Answers False) (Starts s codec configs b newLog) s₂ s₃ →
        s₃.world.posts.length ≤ recorded codec s₂.world) ∧
    ((∀ body ∈ s₂.world.posts, ∃ record, OnDisk codec s₂.world record ∧
        record.entryBytes s record.causalRoot = .ok body) ∧
      ∀ body ∈ s₂.world.posts, ∀ body' ∈ s₂.world.posts, body = body') ∧
    (∀ record, OnDisk codec s₁.world record →
      ∃ record', OnDisk codec s₂.world record' ∧ SameIdentity record record') ∧
    ∀ record, OnDisk codec s₂.world record → isConfirmed record = true →
      ∃ config ∈ configs, ∃ checkpoint,
        record.verify s record.causalRoot config = .ok checkpoint := by
  obtain ⟨horderly₁, _⟩ := runs_inv hcodec orderly_initial h₁
  obtain ⟨horderly₂, hkeeps⟩ := runs_inv hcodec horderly₁ h₂
  obtain ⟨hcounted, hmost⟩ := horderly₂.1.counted
  have hcarried : ∀ body ∈ s₂.world.posts, ∃ record, OnDisk codec s₂.world record ∧
      record.entryBytes s record.causalRoot = .ok body := by
    intro body hbody
    rcases horderly₂.1 with ⟨_, hposts⟩ | ⟨record, hdisk, hsound⟩
    · rw [hposts] at hbody
      cases hbody
    · exact ⟨record, hdisk, entryBytes_iff.mpr (hsound.carried body hbody)⟩
  refine ⟨⟨hcounted, hmost, ?_⟩, ⟨hcarried, ?_⟩, ?_, ?_⟩
  · intro s₃ hmove
    have horderly₃ := (runs_inv hcodec horderly₂ (.single hmove)).1
    rcases moves_sends_or_writes hmove with hposts | hrecord
    · rw [hposts]
      exact hcounted
    · have hsame : recorded codec s₃.world = recorded codec s₂.world := by
        simp only [recorded, hrecord]
      exact hsame ▸ horderly₃.1.counted.1
  · intro body hbody body' hbody'
    obtain ⟨record, hdisk, hopens⟩ := hcarried body hbody
    obtain ⟨record', hdisk', hopens'⟩ := hcarried body' hbody'
    obtain rfl := hdisk.unique hdisk'
    exact Except.ok.inj (hopens.symm.trans hopens')
  · intro record hdisk
    obtain ⟨record', hdisk', hsame, _⟩ := hkeeps record hdisk
    exact ⟨record', hdisk', hsame⟩
  · intro record hdisk hconfirmed
    rcases horderly₂.1 with ⟨hnone, _⟩ | ⟨record', hdisk', hsound⟩
    · obtain ⟨bytes, hbytes, _⟩ := hdisk
      cases hnone.symm.trans hbytes
    · exact hdisk.unique hdisk' ▸ hsound.evident (hdisk.unique hdisk' ▸ hconfirmed)

end Results

theorem publishers_disclose_one_entry_fixture :
    ∃ s₁ s₂ : System, OnDisk fixtureRecords s₁.world fixtureConfirmed ∧
      s₂.world.posts = [fixtureEntry] ∧
      s₂.world.posts.length ≤ recorded fixtureRecords s₂.world ∧
      recorded fixtureRecords s₂.world ≤ maxSubmissions ∧
      ∃ record, OnDisk fixtureRecords s₂.world record ∧ SameIdentity fixtureConfirmed record := by
  obtain ⟨s₁, s₂, h₁, h₂, hworld₁, hworld₂⟩ :=
    @runs_fixture False (.error "cannot sync the directory") False.elim
  obtain ⟨_, _, _, hconfirmed, _⟩ := mem_fixtureStages
  have hdisk : OnDisk fixtureRecords s₁.world fixtureConfirmed := hworld₁ ▸ onDisk_fixture hconfirmed _
  obtain ⟨⟨hcounted, hmost, _⟩, _, hsame, _⟩ := publishers_disclose_one_entry rereads_fixture h₁ h₂
  exact ⟨s₁, s₂, hdisk, by rw [hworld₂, fixtureWorld], hcounted, hmost, hsame _ hdisk⟩

/-! ### What becomes of a confirmation -/

section Results
variable {s : Suite} {codec : RecordCodec} {configs : Set LogConfig} {b : Backend}
  {newLog : LogConfig → Except String Unit} {s₁ s₂ : System}

/-- **A confirmation stays, in the calm.** When opening and syncing the directory does not
fail right after a confirmed record was put in place, no later write of any publisher takes
the confirmation back. -/
theorem confirmation_stays_in_calm (hcodec : codec.Rereads)
    (h₁ : Runs s codec configs b newLog True System.initial s₁)
    (h₂ : Runs s codec configs b newLog True s₁ s₂) {record : PublicationRecord}
    (hdisk : OnDisk codec s₁.world record) (hconfirmed : isConfirmed record = true) :
    ∃ record', OnDisk codec s₂.world record' ∧ SameIdentity record record' ∧
      record'.outcome = record.outcome := by
  obtain ⟨horderly, _⟩ := runs_inv hcodec orderly_initial h₁
  obtain ⟨record', hdisk', hsame, houtcome⟩ := (runs_inv hcodec horderly h₂).2 record hdisk
  exact ⟨record', hdisk', hsame, houtcome trivial hconfirmed⟩

end Results

theorem confirmation_stays_in_calm_fixture :
    ∃ s₁ s₂ : System, OnDisk fixtureRecords s₁.world fixtureConfirmed ∧
      ∃ record, OnDisk fixtureRecords s₂.world record ∧ record.outcome = fixtureConfirmed.outcome := by
  obtain ⟨s₁, s₂, h₁, h₂, hworld₁, _⟩ := @runs_fixture True (.ok ()) fun _ => rfl
  obtain ⟨_, _, _, hconfirmed, _⟩ := mem_fixtureStages
  have hdisk : OnDisk fixtureRecords s₁.world fixtureConfirmed := hworld₁ ▸ onDisk_fixture hconfirmed _
  obtain ⟨record, hdisk', _, houtcome⟩ := confirmation_stays_in_calm rereads_fixture h₁ h₂ hdisk rfl
  exact ⟨s₁, s₂, hdisk, record, hdisk', houtcome⟩

/-- A confirmed record was renamed into place, the directory could not be synced, and the
publisher's last write takes the confirmation back. -/
theorem confirmation_lost :
    ¬ ∀ (s₁ s₂ : System) (record record' : PublicationRecord),
      Runs fixtureSuite fixtureRecords {fixtureConfig} fixtureBackend (fun _ => .ok ()) False
        System.initial s₁ →
      Runs fixtureSuite fixtureRecords {fixtureConfig} fixtureBackend (fun _ => .ok ()) False s₁ s₂ →
      OnDisk fixtureRecords s₁.world record → isConfirmed record = true →
      OnDisk fixtureRecords s₂.world record' → record'.entry = record.entry →
      isConfirmed record' = true := by
  intro hclaim
  obtain ⟨s₁, s₂, h₁, h₂, hworld₁, hworld₂⟩ :=
    @runs_fixture False (.error "cannot sync the directory") False.elim
  obtain ⟨_, _, _, hconfirmed, hinvalid⟩ := mem_fixtureStages
  have hdisk₁ : OnDisk fixtureRecords s₁.world fixtureConfirmed :=
    hworld₁ ▸ onDisk_fixture hconfirmed _
  have hdisk₂ : OnDisk fixtureRecords s₂.world
      (fixtureStage [some 0] (.unconfirmed .invalidProof)) := by
    rw [hworld₂]
    exact onDisk_fixture hinvalid _
  cases hclaim s₁ s₂ _ _ h₁ h₂ hdisk₁ rfl hdisk₂ rfl

end Attest.Publication.Client
