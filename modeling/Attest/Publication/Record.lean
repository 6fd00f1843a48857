import Attest.Publication.Note
import Attest.Verify.Checks

/-! Retained publication material, as `publication/record.rs` has it.

A record opens to the causal root of a receipt and, once confirmed, carries a
checkpoint and a path. Its status authorizes nothing: `assess` checks the opening,
the recipient's own log and every path, and compares with the checkpoint the recipient
already held. `serde_json` is a parameter. -/
namespace Attest.Publication.Record
open Merkle Note Library Library.Fallible
open Trust (hexEncode hexDecode toVector isLowerHexDigit utf8 DateTime)
open Verify (Check CheckStatus)

def recordFormat : String := "attest-publication/v1"
def comparisonFormat : String := "attest-log-comparison/v1"
def maxRecordBytes : Nat := 512 * 1024
def maxComparisonBytes : Nat := 1024 * 1024
def maxSubmissions : Nat := 3

/-! ### Entries -/

def entryPrefix : Bytes := utf8 "attest-causal-root/v1\n"
def commitmentDomain : Bytes := utf8 "attest-causal-root/v1" ++ [0]

/-- A canonical, lower case hash or opening. Behind the first check the digits always decode. -/
def hashBytes (value : String) : Except String Hash := do
  refuseIf (¬ (value.utf8ByteSize = 64 ∧ value.toList.all isLowerHexDigit = true))
    "expected a canonical 32-byte hexadecimal value"
  match (hexDecode value).bind (toVector 32) with
  | none => .error "invalid hash length"
  | some hash => .ok hash

/-- The only bytes a log is given. -/
def entryForRoot (sha256 : Bytes → Hash) (root nonce : String) : Except String Bytes := do
  let root ← (hashBytes root).mapError fun _ => "invalid causal root"
  let nonce ← (hashBytes nonce).mapError fun _ => "invalid publication opening"
  .ok (entryPrefix ++ (sha256 (commitmentDomain ++ nonce.toList ++ root.toList)).toList)

/-! ### The record -/

inductive UnconfirmedReason
  | prepared
  | requestFailed
  | serviceRefused
  | awaitingInclusion
  | invalidProof
  | deadline
  | attemptLimit
deriving DecidableEq

def UnconfirmedReason.description : UnconfirmedReason → String
  | .prepared => "publication was prepared but has not been confirmed"
  | .requestFailed => "a publication request failed; submission may have occurred"
  | .serviceRefused => "the publication service did not accept the request"
  | .awaitingInclusion => "a returned index has not established verified inclusion"
  | .invalidProof => "the log did not provide valid publication evidence"
  | .deadline => "the publication deadline expired without verified inclusion"
  | .attemptLimit => "the bounded submission attempt count was exhausted"

structure Submission where
  startedAt : DateTime
  returnedIndex : Option Nat
deriving DecidableEq

inductive PublicationState
  | unconfirmed (reason : UnconfirmedReason)
  | confirmed (leafIndex : Nat) (checkpoint : String) (inclusionPath : List String)
deriving DecidableEq

structure PublicationRecord where
  format : String
  causalRoot : String
  openingNonce : String
  /-- Lower case hex of the exact entry submitted, not the root. -/
  entry : String
  logId : String
  submitUrl : String
  /-- The producer's clock. -/
  createdAt : DateTime
  submissions : List Submission
  outcome : PublicationState
deriving DecidableEq

structure CheckpointComparison where
  format : String
  logId : String
  firstCheckpoint : String
  secondCheckpoint : String
  consistencyPath : List String

/-- `serde_json::from_slice` on the two files. -/
structure Codec where
  record : Bytes → Option PublicationRecord
  comparison : Bytes → Option CheckpointComparison

def hashes (values : List String) : Except String (List Hash) := do
  refuseIf (maxProofNodes < values.length) "too many log proof nodes"
  values.mapM hashBytes

section Decode
variable (codec : Codec)

def decodeRecord (bytes : Bytes) : Except String PublicationRecord := do
  refuseIf (maxRecordBytes < bytes.length) "publication record is too large"
  match codec.record bytes with
  | none => .error "invalid publication record JSON"
  | some record => .ok record

def decodeComparison (bytes : Bytes) : Except String CheckpointComparison := do
  refuseIf (maxComparisonBytes < bytes.length) "checkpoint comparison is too large"
  match codec.comparison bytes with
  | none => .error "invalid checkpoint comparison JSON"
  | some comparison => .ok comparison

end Decode

section Verify
variable (s : Suite)

def PublicationRecord.entryBytes (record : PublicationRecord) (receiptRoot : String) :
    Except String Bytes := do
  refuseIf (record.format ≠ recordFormat) "unsupported publication record format"
  refuseIf (maxSubmissions < record.submissions.length) "too many recorded submission attempts"
  refuseIf (¬ (record.submitUrl.utf8ByteSize ≤ 4096 ∧ record.submitUrl.toList.any isControl = false))
    "invalid publication destination"
  let _ ← (hashBytes record.logId).mapError fun _ => "invalid log identifier"
  let _ ← (hashBytes receiptRoot).mapError fun _ => "receipt has an invalid causal root"
  refuseIf (record.causalRoot ≠ receiptRoot) "publication belongs to a different causal root"
  let entry ← entryForRoot s.sha256 receiptRoot record.openingNonce
  refuseIf (¬ (record.entry.utf8ByteSize = (entryPrefix.length + 32) * 2 ∧
    hexEncode entry = record.entry)) "published entry does not match the receipt root and opening"
  .ok entry

def PublicationRecord.verify (record : PublicationRecord) (receiptRoot : String)
    (trust : LogConfig) : Except String Checkpoint := do
  let entry ← record.entryBytes s receiptRoot
  let logId ← trust.logId s
  refuseIf (record.logId ≠ logId) "publication names a different configured log"
  match record.outcome with
  | .unconfirmed _ => .error "publication has no confirmed inclusion evidence"
  | .confirmed leafIndex checkpoint inclusionPath =>
    let checkpoint ← Checkpoint.verify s checkpoint trust
    let path ← hashes inclusionPath
    verifyInclusion s.sha256 entry leafIndex checkpoint.treeSize path checkpoint.root
    .ok checkpoint

/-- What a record that opens to a root says. -/
structure PublicationRecord.Opens (record : PublicationRecord) (receiptRoot : String)
    (entry : Bytes) : Prop where
  format : record.format = recordFormat
  attempts : record.submissions.length ≤ maxSubmissions
  destination : record.submitUrl.utf8ByteSize ≤ 4096 ∧ record.submitUrl.toList.any isControl = false
  log : ∃ id, hashBytes record.logId = .ok id
  root : record.causalRoot = receiptRoot
  commits : entryForRoot s.sha256 receiptRoot record.openingNonce = .ok entry
  written : record.entry = hexEncode entry

end Verify

section Specs
variable {s : Suite} {record : PublicationRecord} {receiptRoot : String} {entry : Bytes}

theorem entryForRoot_iff {sha256 : Bytes → Hash} {root nonce : String} :
    entryForRoot sha256 root nonce = .ok entry ↔ ∃ r n, hashBytes root = .ok r ∧
      hashBytes nonce = .ok n ∧
      entry = entryPrefix ++ (sha256 (commitmentDomain ++ n.toList ++ r.toList)).toList := by
  unfold entryForRoot
  simp only [except_bind_eq_ok, mapError_eq_ok, Except.ok.injEq, exists_and_left, eq_comm (a := entry)]

theorem length_entry {sha256 : Bytes → Hash} {root nonce : String}
    (h : entryForRoot sha256 root nonce = .ok entry) : entry.length = entryPrefix.length + 32 := by
  obtain ⟨r, n, _, _, rfl⟩ := entryForRoot_iff.mp h
  rw [List.length_append, Vector.length_toList]

theorem entryBytes_iff :
    record.entryBytes s receiptRoot = .ok entry ↔ record.Opens s receiptRoot entry := by
  unfold PublicationRecord.entryBytes
  simp only [except_bind_eq_ok, refuseIf_eq_ok, mapError_eq_ok, not_not, not_lt, exists_const,
    Except.ok.injEq]
  constructor
  · rintro ⟨hformat, hattempts, hurl, id, hid, _, _, hroot, _, hentry, ⟨_, hwritten⟩, rfl⟩
    exact ⟨hformat, hattempts, hurl, ⟨id, hid⟩, hroot, hentry, hwritten.symm⟩
  · rintro ⟨hformat, hattempts, hurl, ⟨id, hid⟩, hroot, hentry, hwritten⟩
    obtain ⟨r, n, hr, _, _⟩ := entryForRoot_iff.mp hentry
    refine ⟨hformat, hattempts, hurl, id, hid, r, hr, hroot, entry, hentry, ⟨?_, hwritten.symm⟩, rfl⟩
    rw [hwritten, Trust.utf8ByteSize_hexEncode, length_entry hentry]
    omega

theorem verify_iff {trust : LogConfig} {checkpoint : Checkpoint} :
    record.verify s receiptRoot trust = .ok checkpoint ↔
      ∃ entry leafIndex note inclusionPath path, record.Opens s receiptRoot entry ∧
        trust.logId s = .ok record.logId ∧
        record.outcome = .confirmed leafIndex note inclusionPath ∧
        Checkpoint.verify s note trust = .ok checkpoint ∧ hashes inclusionPath = .ok path ∧
        verifyInclusion s.sha256 entry leafIndex checkpoint.treeSize path checkpoint.root = .ok () := by
  unfold PublicationRecord.verify
  simp only [except_bind_eq_ok, refuseIf_eq_ok, not_not, exists_const]
  constructor
  · rintro ⟨entry, hentry, logId, hlog, hsame, h⟩
    split at h
    next => cases h
    next leafIndex note inclusionPath houtcome =>
      simp only [except_bind_eq_ok, Except.ok.injEq] at h
      obtain ⟨got, hcheckpoint, path, hpath, _, hinclusion, rfl⟩ := h
      exact ⟨entry, leafIndex, note, inclusionPath, path, entryBytes_iff.mp hentry,
        hsame ▸ hlog, houtcome, hcheckpoint, hpath, hinclusion⟩
  · rintro ⟨entry, leafIndex, note, inclusionPath, path, hopens, hlog, houtcome, hcheckpoint, hpath,
      hinclusion⟩
    refine ⟨entry, entryBytes_iff.mpr hopens, record.logId, hlog, rfl, ?_⟩
    rw [houtcome]
    simp only [except_bind_eq_ok, Except.ok.injEq]
    exact ⟨checkpoint, hcheckpoint, path, hpath, (), hinclusion, rfl⟩

end Specs

section Verify
variable (s : Suite)

/-- `same_checkpoint`. -/
def SameCheckpoint (a b : Checkpoint) : Prop := a.treeSize = b.treeSize ∧ a.root = b.root

instance (a b : Checkpoint) : Decidable (SameCheckpoint a b) :=
  inferInstanceAs (Decidable (_ ∧ _))

/-- Authenticate before comparing. -/
def CheckpointComparison.verify (comparison : CheckpointComparison) (trust : LogConfig) :
    Except String (Checkpoint × Checkpoint) := do
  refuseIf (comparison.format ≠ comparisonFormat) "unsupported checkpoint comparison format"
  let logId ← trust.logId s
  refuseIf (comparison.logId ≠ logId) "comparison names a different configured log"
  let first ← Checkpoint.verify s comparison.firstCheckpoint trust
  let second ← Checkpoint.verify s comparison.secondCheckpoint trust
  refuseIf (first.treeSize = second.treeSize ∧ first.root ≠ second.root)
    "authenticated conflicting roots at the same tree size"
  let path ← hashes comparison.consistencyPath
  verifyConsistency s.sha256 first.treeSize second.treeSize first.root second.root path
  .ok (first, second)

/-! ### Assessment -/

/-- What the recipient brings; `comparison` comes from the sender. -/
structure VerificationMaterial where
  trust : Option LogConfig
  referenceCheckpoint : Option String
  comparison : Option Bytes

variable (codec : Codec)

def skipped (detail : String) : Check := ⟨"log-consistency", .skipped, detail⟩

/-- The closure `prepared`: the record opens to the receipt's root. -/
def prepare (receiptRoot : Option String) (bytes : Bytes) :
    Except String (String × PublicationRecord) :=
  match receiptRoot with
  | none => .error "receipt has no causal root"
  | some root => do
    let record ← decodeRecord codec bytes
    let _ ← record.entryBytes s root
    .ok (root, record)

/-- What connects the two checkpoints: the sender's comparison, or nothing when none is
needed. `false` when there is no proof at all. -/
def connect (trust : LogConfig) (comparison : Option Bytes) (reference publication : Checkpoint) :
    Except String Bool :=
  match comparison with
  | some bytes => do
    let comparison ← decodeComparison codec bytes
    let (first, second) ← comparison.verify s trust
    refuseIf (¬ (SameCheckpoint first reference ∧ SameCheckpoint second publication ∨
      SameCheckpoint second reference ∧ SameCheckpoint first publication))
      "comparison does not cover the recipient reference and publication checkpoint"
    .ok true
  | none =>
    if SameCheckpoint reference publication then .ok true
    else if reference.treeSize = 0 ∨ publication.treeSize = 0 then do
      let (first, second) :=
        if reference.treeSize < publication.treeSize then (reference, publication)
        else (publication, reference)
      verifyConsistency s.sha256 first.treeSize second.treeSize first.root second.root []
      .ok true
    else .ok false

def consistencyDetail (reference publication : Checkpoint) : String :=
  s!"consistency established only between configured-log checkpoints of sizes {reference.treeSize} and {publication.treeSize}"

/-- The closure `compared`. -/
def compareWith (trust : LogConfig) (reference : String) (comparison : Option Bytes)
    (publication : Checkpoint) : Except String (Option String) := do
  let reference ← Checkpoint.verify s reference trust
  refuseIf (reference.treeSize = publication.treeSize ∧ reference.root ≠ publication.root)
    "authenticated conflicting roots at the same tree size"
  let connected ← connect s codec trust comparison reference publication
  .ok (if connected then some (consistencyDetail reference publication) else none)

def consistencyOf (compared : Except String (Option String)) : Check :=
  match compared with
  | .ok (some detail) => ⟨"log-consistency", .pass, detail⟩
  | .ok none => skipped "no consistency proof for the supplied reference checkpoint"
  | .error error => ⟨"log-consistency", .fail, error⟩

def assess (receiptRoot : Option String) (record : Option Bytes)
    (material : VerificationMaterial) : List Check :=
  match record with
  | none =>
    [⟨"log-inclusion", .skipped, "no retained publication evidence"⟩,
      skipped "no authenticated publication checkpoint to compare"]
  | some bytes =>
    match prepare s codec receiptRoot bytes with
    | .error error =>
      [⟨"log-inclusion", .fail, error⟩, skipped "publication evidence did not bind the receipt"]
    | .ok (root, record) =>
      match material.trust with
      | none =>
        [⟨"log-inclusion", .skipped, "no independently configured log trust"⟩,
          skipped "no independently configured log trust"]
      | some trust =>
        match record.outcome with
        | .unconfirmed reason =>
          [⟨"log-inclusion", .skipped, reason.description⟩,
            skipped "publication has no authenticated inclusion checkpoint"]
        | .confirmed _ _ _ =>
          match record.verify s root trust with
          | .error error =>
            [⟨"log-inclusion", .fail, error⟩, skipped "publication checkpoint was not established"]
          | .ok publication =>
            let inclusion : Check := ⟨"log-inclusion", .pass,
              s!"entry is included in configured log {record.logId} at tree size {publication.treeSize}"⟩
            match material.referenceCheckpoint with
            | none => [inclusion, skipped "no independently supplied reference checkpoint"]
            | some reference =>
              [inclusion,
                consistencyOf (compareWith s codec trust reference material.comparison publication)]

end Verify

end Attest.Publication.Record
