import Attest.Evidence.Capsules
import Attest.Evidence.Inventory
import Attest.Evidence.Linkage
import Attest.Publication.Assessment
import Attest.Verify.ExplicitStore
import Attest.Verify.Policy

/-! Verifying release evidence, as `evidence.rs` does.

A verdict is put together from checks of several parts: those of the receipt, of the artifacts,
of the capsules and of the causal chain, of the workflow identity, and of the log. The sender
chooses the entries and the format; what has to be established is the recipient's choice, and
three requirements are always made. `verified_evidence_complete` is what a verdict that passed
says, whatever the sender chose. -/
namespace Attest.Evidence
open Library Library.Fallible Storage Verify Archive Hashing
open Trust (Bytes Crates DateTime TrustEntry keyId samplePublicA sampleIdA utf8 hexEncode length_utf8
  utf8ByteSize_hexEncode)
open Publication.Record (VerificationMaterial)

def evidenceFormatV1 : String := "attest-evidence/v1"
def evidenceFormat : String := "attest-evidence/v2"
def evidencePublicationFormat : String := "attest-evidence/v3"

def maxReceiptBytes : Nat := 16 * 1024 * 1024
def maxIdentityBytes : Nat := 4 * 1024 * 1024

/-- What the verifier of evidence calls and this model leaves open. -/
structure EvidenceBackend (IdentityPolicy : Type) where
  verify : Backend
  events : ArchiveCodec
  capsules : CapsuleCodec
  suite : Publication.Note.Suite
  records : Publication.Record.Codec
  /-- `serde_json::from_slice::<Manifest>`: the format. -/
  readManifest : Bytes → Except String String
  /-- `identity::verify_receipt_identity`, of the receipt and the bundle. -/
  verifyIdentity : IdentityPolicy → Bytes → Bytes → Except String Unit
  /-- `{error:#}`. -/
  render : EvidenceError → String

/-- What the recipient brings. -/
structure Recipient (IdentityPolicy : Type) where
  trustStore : String
  identityPolicy : Option IdentityPolicy
  /-- The root of the artifacts at hand, in the recipient's files. -/
  artifactRoot : Option Path
  required : List Requirement
  log : VerificationMaterial

/-- The bytes of an entry by its path; the reader refuses a path that is listed twice. -/
def entryBytes (entries : List ArchiveEntry) (path : String) : Option Bytes :=
  (entries.find? fun entry => entry.path == path).map ArchiveEntry.bytes

def artifactPath (artifact : ArtifactInfo) : String := "artifacts/" ++ artifact.path

/-! ### What is required -/

/-- A requirement that is made, if it is not yet. -/
def alsoRequire (required : List Requirement) (requirement : Requirement) : List Requirement :=
  if requirement ∈ required then required else required ++ [requirement]

/-- The requirements of the recipient and the minimum contract of a release handoff. -/
def requiredOf {IdentityPolicy : Type} (r : Recipient IdentityPolicy) : List Requirement :=
  let required := [.signature, .success, .artifacts].foldl alsoRequire r.required
  if r.identityPolicy.isSome then alsoRequire required .identity else required

/-! ### The checks -/

section Verify
variable {IdentityPolicy : Type} (e : EvidenceBackend IdentityPolicy) (fs : FileSystem)
  (r : Recipient IdentityPolicy) (entries : List ArchiveEntry)

/-- One artifact, in the archive and at hand. -/
def checkArtifact (artifact : ArtifactInfo) : Except EvidenceError Unit :=
  match entryBytes entries (artifactPath artifact) with
  | none => .error (.message ("missing artifact " ++ artifact.path))
  | some bytes => do
    checkDigest e.verify.crates artifact bytes
    match r.artifactRoot with
    | none => .ok ()
    | some root => do
      let held ← artifactBytes fs root artifact
      checkDigest e.verify.crates artifact held

/-- The metadata an archive of a format may hold. -/
def metadataPaths (format : String) : List String :=
  ["manifest.json", "receipt.yaml"] ++
  (if format = evidencePublicationFormat then
    "publication.json" :: (if entryBytes entries "log-consistency.json" ≠ none
      then ["log-consistency.json"] else []) else []) ++
  (if entryBytes entries "identity.sigstore.json" ≠ none then ["identity.sigstore.json"] else [])

/-- The entries and the artifacts at hand against the signed receipt. -/
def checkArtifacts (format : String) (receiptBytes : Bytes) : Except EvidenceError Unit := do
  let receipt ← (readReceipt e.verify receiptBytes).mapError .message
  inventory e.verify.crates receipt
  refuseIf (format = evidencePublicationFormat ∧ entryBytes entries "publication.json" = none)
    (.message "v3 evidence is missing publication.json")
  let proofs ← (paths receipt).mapError .message
  let listed ← artifacts receipt
  listed.forM (checkArtifact e fs r entries)
  refuseIf (¬ ∀ entry ∈ entries,
      entry.path ∈ metadataPaths entries format ++ proofs ++ listed.map artifactPath)
    (.message "archive contains unaccounted files")

def artifactsCheck (format : String) (receiptBytes : Bytes) : Check :=
  match checkArtifacts e fs r entries format receiptBytes with
  | .ok () => ⟨"artifacts", .pass, "all artifact bytes match the signed output manifests"⟩
  | .error error => ⟨"artifacts", .fail, e.render error⟩

/-- `proofs::assess`, where the receipt reads as one. -/
def proofChecks (receiptBytes : Bytes) : List Check :=
  match readReceipt e.verify receiptBytes with
  | .error _ => []
  | .ok receipt =>
    [capsuleCheck e.verify.crates e.capsules receipt (entryBytes entries),
      causalCheck e.verify.crates e.events receipt (entryBytes entries)]

/-- The closure `checked` of the identity. -/
def checkIdentity (policy : IdentityPolicy) (receiptBytes : Bytes) : Except String Unit :=
  match entryBytes entries "identity.sigstore.json" with
  | none => .error "required workflow identity evidence is missing"
  | some bundle => do
    refuseIf (maxIdentityBytes < bundle.length) "identity bundle exceeds size limit"
    e.verifyIdentity policy receiptBytes bundle

def identityCheck (receiptBytes : Bytes) : Check :=
  match r.identityPolicy with
  | none => ⟨"identity", .skipped, "no workflow identity policy supplied by recipient"⟩
  | some policy =>
    match checkIdentity e entries policy receiptBytes with
    | .ok () => ⟨"identity", .pass,
        "workflow issuer, repository, workflow and revision match recipient policy"⟩
    | .error error => ⟨"identity", .fail, error⟩

def logRequested (required : List Requirement) : Bool :=
  required.any fun requirement => requirement == .logInclusion || requirement == .logConsistency

/-- The causal root of the receipt, where it reads as one. -/
def rootOf (receiptBytes : Bytes) : Option String :=
  match readReceipt e.verify receiptBytes with
  | .error _ => none
  | .ok receipt => receipt.causalChainHash

/-- The record is looked at only in the format that names it. -/
def recordOf (format : String) : Option Bytes :=
  if format = evidencePublicationFormat then entryBytes entries "publication.json" else none

/-- The recipient's own comparison comes before the sender's. -/
def materialOf : VerificationMaterial :=
  { r.log with comparison := r.log.comparison <|> entryBytes entries "log-consistency.json" }

def logChecks (format : String) (receiptBytes : Bytes) : List Check :=
  if format = evidencePublicationFormat ∨ logRequested (requiredOf r) = true ∨
      r.log.trust.isSome = true ∨ r.log.referenceCheckpoint.isSome = true ∨
      r.log.comparison.isSome = true then
    Publication.Record.assess e.suite e.records (rootOf e receiptBytes) (recordOf entries format)
      (materialOf r entries)
  else []

/-- What evidence adds to the checks of its receipt. -/
def evidenceChecks (format : String) (receiptBytes : Bytes) : List Check :=
  [artifactsCheck e fs r entries format receiptBytes] ++ proofChecks e entries receiptBytes ++
  [identityCheck e r entries receiptBytes] ++ logChecks e r entries format receiptBytes

variable (trust : Files) (workspace : String) (now : DateTime)

def evidenceOptions : VerifyOptions where
  checkSignatures := true
  recompute := false
  workspace := workspace
  trustStore := some r.trustStore
  trustReceiptTimestamp := false
  required := requiredOf r

/-- `verify_with_policy_and_log`, of the entries the archive reads as. -/
def verifyWithPolicyAndLog (archive : String) : Except String ReceiptVerdict := do
  match entryBytes entries "manifest.json" with
  | none => .error "missing evidence manifest"
  | some manifest => do
    let format ← e.readManifest manifest
    refuseIf (¬ (format = evidenceFormat ∨ format = evidenceFormatV1 ∨
      format = evidencePublicationFormat)) s!"unsupported evidence format {format}"
    match entryBytes entries "receipt.yaml" with
    | none => .error "missing receipt.yaml"
    | some receiptBytes => do
      refuseIf (maxReceiptBytes < receiptBytes.length) "receipt exceeds size limit"
      let verdict ← verifyReceiptBytes e.verify trust receiptBytes archive
        (evidenceOptions r workspace) now
      return applyPolicy
        { verdict with
          checks := verdict.checks ++ evidenceChecks e fs r entries format receiptBytes }
        (requiredOf r)

end Verify

/-! ### What a policy says -/

section Policy
variable {verdict : ReceiptVerdict} {required : List Requirement} {name : String}

/-- Enough for a check to meet its requirement: the one of its name passed. -/
theorem checkReason_of_all
    (hfound : ∃ check ∈ verdict.checks, check.name = name)
    (h : ∀ check ∈ verdict.checks, check.name = name → check.status = .pass) :
    checkReason verdict name = none := by
  obtain ⟨found, hmem, hname⟩ := hfound
  have hsome : (verdict.checks.find? fun c => c.name == name).isSome = true :=
    List.find?_isSome.mpr ⟨found, hmem, by simpa using hname⟩
  obtain ⟨check, hcheck⟩ := Option.isSome_iff_exists.mp hsome
  have hpass := h check (List.mem_of_find?_eq_some hcheck) (by simpa using List.find?_some hcheck)
  simp only [checkReason, hcheck, hpass]

/-- Enough for the outcome: no step failed, whatever checks there are. -/
theorem unmetReason_success {receipt : Receipt} {checks : List Check}
    (hexecution : verdict.execution = some (executionOutcome receipt))
    (h : ∀ step ∈ receipt.steps, step.exitCode = 0) :
    unmetReason { verdict with checks := checks } .success = none := by
  have hcount : receipt.steps.countP (fun step => step.exitCode != 0) = 0 := by
    rw [List.countP_eq_zero]
    intro step hstep
    simp [h step hstep]
  simp only [unmetReason, hexecution, executionOutcome, hcount, if_true]

theorem mem_alsoRequire {requirement other : Requirement} :
    other ∈ alsoRequire required requirement ↔ other ∈ required ∨ other = requirement := by
  unfold alsoRequire
  split
  next h =>
    constructor
    · exact .inl
    · intro hother
      rcases hother with hother | rfl
      · exact hother
      · exact h
  next => simp

/-- What is required: what the recipient asks for, and the minimum. -/
theorem mem_requiredOf {IdentityPolicy : Type} {r : Recipient IdentityPolicy}
    {requirement : Requirement} :
    requirement ∈ requiredOf r ↔ requirement ∈ r.required ∨ requirement = .signature ∨
      requirement = .success ∨ requirement = .artifacts ∨
      requirement = .identity ∧ r.identityPolicy.isSome = true := by
  have hfold : requirement ∈ [Requirement.signature, .success, .artifacts].foldl alsoRequire r.required ↔
      requirement ∈ r.required ∨ requirement = .signature ∨ requirement = .success ∨
        requirement = .artifacts := by
    simp only [List.foldl_cons, List.foldl_nil, mem_alsoRequire, or_assoc]
  unfold requiredOf
  split
  next h => simp only [mem_alsoRequire, hfold, h, and_true, or_assoc]
  next h => simp only [hfold, h, Bool.false_eq_true, and_false, or_false]

end Policy

/-! ### The checks of a receipt that reads -/

section Checks
variable {IdentityPolicy : Type} {e : EvidenceBackend IdentityPolicy} {fs : FileSystem}
  {r : Recipient IdentityPolicy} {entries : List ArchiveEntry} {trust : Files} {workspace : String}
  {now : DateTime} {format label : String} {receiptBytes : Bytes} {receipt : Receipt}

theorem name_timestampCheck {b : Backend} {files : Files} {opts : VerifyOptions} :
    (timestampCheck b files receipt opts).1.name = "timestamp" := by
  unfold timestampCheck
  dsimp only
  repeat' split
  all_goals rfl

theorem name_artifactsCheck : (artifactsCheck e fs r entries format receiptBytes).name = "artifacts" := by
  unfold artifactsCheck
  split
  next => rfl
  next => rfl

theorem name_result {name : String} {checked : Except String (Option String)} :
    (result name checked).name = name := by
  unfold result
  split
  next => rfl
  next => rfl
  next => rfl

theorem name_identityCheck : (identityCheck e r entries receiptBytes).name = "identity" := by
  unfold identityCheck
  repeat' split
  all_goals rfl

theorem name_logChecks {check : Check} (h : check ∈ logChecks e r entries format receiptBytes) :
    check.name = "log-inclusion" ∨ check.name = "log-consistency" := by
  unfold logChecks at h
  split at h
  next =>
    rw [Publication.Record.assess_eq] at h
    rcases List.mem_cons.mp h with rfl | h
    · exact .inl (Publication.Record.establish_name _ _ _)
    · rw [List.mem_singleton.mp h]
      exact .inr (Publication.Record.compareEstablished_name _ _ _)
  next => cases h

/-- The checks of the evidence with this receipt, in order. -/
def allChecks (e : EvidenceBackend IdentityPolicy) (fs : FileSystem) (r : Recipient IdentityPolicy)
    (entries : List ArchiveEntry) (trust : Files) (workspace format : String) (receiptBytes : Bytes)
    (receipt : Receipt) : List Check :=
  let opts := evidenceOptions r workspace
  [⟨"schema", .pass, "receipt matches schema"⟩, consistencyCheck receipt,
    (signatureCheck e.verify trust receipt opts (timestampCheck e.verify trust receipt opts).2).check,
    (timestampCheck e.verify trust receipt opts).1, ⟨"recompute", .skipped, "enable with --recompute"⟩,
    artifactsCheck e fs r entries format receiptBytes,
    capsuleCheck e.verify.crates e.capsules receipt (entryBytes entries),
    causalCheck e.verify.crates e.events receipt (entryBytes entries),
    identityCheck e r entries receiptBytes] ++ logChecks e r entries format receiptBytes

theorem readReceipt_of_readsAs (h : ReadsAs e.verify receiptBytes receipt) :
    readReceipt e.verify receiptBytes = .ok receipt := by
  obtain ⟨document, hyaml, _, hreceipt⟩ := h
  unfold readReceipt
  rw [hyaml]
  exact hreceipt

/-- The checks of the receipt and those that evidence adds are these. -/
theorem checks_receiptVerdict (h : ReadsAs e.verify receiptBytes receipt) :
    (receiptVerdict e.verify trust receipt label (evidenceOptions r workspace) now).checks ++
        evidenceChecks e fs r entries format receiptBytes =
      allChecks e fs r entries trust workspace format receiptBytes receipt := by
  unfold evidenceChecks proofChecks
  rw [readReceipt_of_readsAs h]
  rfl

def checkNames : List String :=
  ["schema", "consistency", "signature", "timestamp", "recompute", "artifacts", "capsule",
    "chain-linkage", "identity"]

/-- The names of the checks; those of the log come last. -/
theorem names_allChecks :
    (allChecks e fs r entries trust workspace format receiptBytes receipt).map Check.name =
      checkNames ++ (logChecks e r entries format receiptBytes).map Check.name := by
  have hcapsule : (capsuleCheck e.verify.crates e.capsules receipt (entryBytes entries)).name =
      "capsule" := name_result
  have hcausal : (causalCheck e.verify.crates e.events receipt (entryBytes entries)).name =
      "chain-linkage" := name_result
  simp only [allChecks, List.map_append, List.map_cons, List.map_nil, name_consistencyCheck,
    name_signatureCheck, name_timestampCheck, name_artifactsCheck, hcapsule, hcausal,
    name_identityCheck, checkNames]

/-- Which check passes under a name. -/
theorem passed_allChecks {name : String} :
    (∃ check ∈ allChecks e fs r entries trust workspace format receiptBytes receipt,
        check.name = name ∧ check.status = .pass) ↔
      "schema" = name ∨ "consistency" = name ∧ (consistencyCheck receipt).status = .pass ∨
      "signature" = name ∧ (signatureCheck e.verify trust receipt (evidenceOptions r workspace)
        (timestampCheck e.verify trust receipt (evidenceOptions r workspace)).2).check.status = .pass ∨
      "timestamp" = name ∧
        (timestampCheck e.verify trust receipt (evidenceOptions r workspace)).1.status = .pass ∨
      "artifacts" = name ∧ (artifactsCheck e fs r entries format receiptBytes).status = .pass ∨
      "capsule" = name ∧
        (capsuleCheck e.verify.crates e.capsules receipt (entryBytes entries)).status = .pass ∨
      "chain-linkage" = name ∧
        (causalCheck e.verify.crates e.events receipt (entryBytes entries)).status = .pass ∨
      "identity" = name ∧ (identityCheck e r entries receiptBytes).status = .pass ∨
      ∃ check ∈ logChecks e r entries format receiptBytes, check.name = name ∧ check.status = .pass := by
  have hcapsule : (capsuleCheck e.verify.crates e.capsules receipt (entryBytes entries)).name =
      "capsule" := name_result
  have hcausal : (causalCheck e.verify.crates e.events receipt (entryBytes entries)).name =
      "chain-linkage" := name_result
  simp only [allChecks, List.mem_append, List.mem_cons, List.not_mem_nil, or_false, or_and_right,
    exists_or, exists_eq_left, name_consistencyCheck, name_signatureCheck, name_timestampCheck,
    name_artifactsCheck, hcapsule, hcausal, name_identityCheck, and_true, reduceCtorEq, and_false,
    false_or, or_assoc]

end Checks

/-! ### What is established -/

section Complete
variable {IdentityPolicy : Type} (e : EvidenceBackend IdentityPolicy) (fs : FileSystem)
  (r : Recipient IdentityPolicy) (entries : List ArchiveEntry) (trust : Files) (workspace : String)
  (now : DateTime) (format : String) (receiptBytes : Bytes) (receipt : Receipt)

/-- What establishes a requirement: the check that is made for it passed on this receipt. For four
of them this surface makes no check, so nothing does. -/
def Establishes : Requirement → Prop
  | .signature => (signatureCheck e.verify trust receipt (evidenceOptions r workspace)
      (timestampCheck e.verify trust receipt (evidenceOptions r workspace)).2).check.status = .pass
  | .timestamp => (timestampCheck e.verify trust receipt (evidenceOptions r workspace)).1.status = .pass
  | .recompute => False
  | .linkage => (causalCheck e.verify.crates e.events receipt (entryBytes entries)).status = .pass
  | .trust => (trustMaterial e.verify trust (evidenceOptions r workspace)
      (signatureCheck e.verify trust receipt (evidenceOptions r workspace)
        (timestampCheck e.verify trust receipt (evidenceOptions r workspace)).2).signedBy
      now).1.state = "current"
  | .success => ∀ step ∈ receipt.steps, step.exitCode = 0
  | .sbom => False
  | .provenance => False
  | .revision => False
  | .identity => ∃ policy, r.identityPolicy = some policy ∧
      checkIdentity e entries policy receiptBytes = .ok ()
  | .artifacts => checkArtifacts e fs r entries format receiptBytes = .ok ()
  | .capsule => (capsuleCheck e.verify.crates e.capsules receipt (entryBytes entries)).status = .pass
  | .logInclusion => ∃ check ∈ logChecks e r entries format receiptBytes,
      check.name = "log-inclusion" ∧ check.status = .pass
  | .logConsistency => ∃ check ∈ logChecks e r entries format receiptBytes,
      check.name = "log-consistency" ∧ check.status = .pass

/-- The names that metadata has. -/
def metadataNames : List String :=
  ["manifest.json", "receipt.yaml", "publication.json", "log-consistency.json",
    "identity.sigstore.json"]

/-- An artifact with the digest of what the archive holds of it. -/
def archived (artifact : ArtifactInfo) : ArtifactInfo :=
  match entryBytes entries (artifactPath artifact) with
  | some bytes => { artifact with digest := hexEncode (e.verify.crates.blake3 bytes).toList }
  | none => artifact

/-- The artifact is in the archive, and at hand where there is a root, with the digest that is
listed. -/
structure Delivered (artifact : ArtifactInfo) : Prop where
  archive : ∃ bytes, entryBytes entries (artifactPath artifact) = some bytes ∧
    hexEncode (e.verify.crates.blake3 bytes).toList = artifact.digest
  root : ∀ root, r.artifactRoot = some root → ∃ bytes, artifactBytes fs root artifact = .ok bytes ∧
    hexEncode (e.verify.crates.blake3 bytes).toList = artifact.digest

/-- Release evidence that is complete. -/
structure CompleteEvidence (verdict : ReceiptVerdict) : Prop where
  signatureCheck : ∃ check ∈ verdict.checks, check.name = "signature" ∧ check.status = .pass
  signed : ∃ key, SignedBy e.verify receipt key
  success : ∀ step ∈ receipt.steps, step.exitCode = 0
  artifacts : ∃ listed, artifacts receipt = .ok listed ∧
    (∀ artifact ∈ listed, Delivered e fs r entries artifact) ∧
    Inventoried e.verify.crates receipt.steps (listed.map (archived e entries)) ∧
    ∀ entry ∈ entries, entry.path ∈ metadataNames ∨
      (∃ step ∈ receipt.steps, ∃ hash, step.capsuleHash = some hash ∧ entry.path = capsulePath hash) ∨
      (∃ id ∈ receipt.causalEvents, entry.path = eventPath id) ∨
      ∃ artifact ∈ listed, entry.path = artifactPath artifact
  noneFailed : ∀ check ∈ verdict.checks, check.status ≠ .fail
  required : ∀ requirement ∈ r.required,
    Establishes e fs r entries trust workspace now format receiptBytes receipt requirement

end Complete

section Verified
variable {IdentityPolicy : Type} {e : EvidenceBackend IdentityPolicy} {fs : FileSystem}
  {r : Recipient IdentityPolicy} {entries : List ArchiveEntry} {trust : Files} {workspace : String}
  {now : DateTime} {format label : String} {receiptBytes : Bytes} {receipt : Receipt}
  {verdict : ReceiptVerdict}

theorem verifyReceiptBytes_of_readsAs {b : Backend} {opts : VerifyOptions}
    (h : ReadsAs b receiptBytes receipt) :
    verifyReceiptBytes b trust receiptBytes label opts now =
      .ok (receiptVerdict b trust receipt label opts now) := by
  obtain ⟨document, hyaml, hschema, hreceipt⟩ := h
  unfold verifyReceiptBytes
  rw [hyaml]
  simp only [hschema, hreceipt]

theorem execution_receiptVerdict {b : Backend} {opts : VerifyOptions} :
    (receiptVerdict b trust receipt label opts now).execution = some (executionOutcome receipt) := rfl

/-- A verdict on bytes that are no receipt of a known schema has a check that failed. -/
theorem verifyReceiptBytes_eq_ok {b : Backend} {opts : VerifyOptions}
    (h : verifyReceiptBytes b trust receiptBytes label opts now = .ok verdict) :
    (∃ receipt, ReadsAs b receiptBytes receipt ∧
      verdict = receiptVerdict b trust receipt label opts now) ∨
    ∃ check ∈ verdict.checks, check.status = .fail := by
  unfold verifyReceiptBytes at h
  split at h
  next => cases h
  next document hyaml =>
    split at h
    next =>
      cases h
      exact .inr ⟨_, List.mem_cons_self .., rfl⟩
    next hschema =>
      split at h
      next =>
        cases h
        exact .inr ⟨_, List.mem_cons_self .., rfl⟩
      next receipt hreceipt =>
        cases h
        exact .inl ⟨receipt, ⟨document, hyaml, hschema, hreceipt⟩, rfl⟩

theorem checkArtifact_eq_ok {artifact : ArtifactInfo} {u : Unit}
    (h : checkArtifact e fs r entries artifact = .ok u) : Delivered e fs r entries artifact := by
  unfold checkArtifact at h
  split at h
  next => cases h
  next bytes hbytes =>
    obtain ⟨_, hdigest, h⟩ := except_bind_eq_ok.mp h
    refine ⟨⟨bytes, hbytes, not_not.mp (refuseIf_eq_ok.mp hdigest)⟩, ?_⟩
    intro root hroot
    rw [hroot] at h
    obtain ⟨held, hheld, hdigest'⟩ := except_bind_eq_ok.mp h
    exact ⟨held, hheld, not_not.mp (refuseIf_eq_ok.mp hdigest')⟩

theorem archived_of_delivered {artifact : ArtifactInfo} (h : Delivered e fs r entries artifact) :
    archived e entries artifact = artifact := by
  obtain ⟨bytes, hbytes, hdigest⟩ := h.archive
  unfold archived
  rw [hbytes]
  show { artifact with digest := _ } = artifact
  rw [hdigest]

theorem mem_metadataNames {path : String} (h : path ∈ metadataPaths entries format) :
    path ∈ metadataNames := by
  unfold metadataPaths at h
  rcases List.mem_append.mp h with h | h
  · rcases List.mem_append.mp h with h | h
    · exact List.mem_append_left ["publication.json", "log-consistency.json",
        "identity.sigstore.json"] h
    · split at h
      next =>
        rcases List.mem_cons.mp h with rfl | h
        · decide
        · split at h
          next =>
            rw [List.mem_singleton.mp h]
            decide
          next => cases h
      next => cases h
  · split at h
    next =>
      rw [List.mem_singleton.mp h]
      decide
    next => cases h

/-- What the check of the artifacts comes to. -/
theorem checkArtifacts_eq_ok (hread : readReceipt e.verify receiptBytes = .ok receipt)
    (h : checkArtifacts e fs r entries format receiptBytes = .ok ()) :
    ∃ listed, artifacts receipt = .ok listed ∧
      (∀ artifact ∈ listed, Delivered e fs r entries artifact) ∧
      Inventoried e.verify.crates receipt.steps (listed.map (archived e entries)) ∧
      ∀ entry ∈ entries, entry.path ∈ metadataNames ∨
        (∃ step ∈ receipt.steps, ∃ hash, step.capsuleHash = some hash ∧ entry.path = capsulePath hash) ∨
        (∃ id ∈ receipt.causalEvents, entry.path = eventPath id) ∨
        ∃ artifact ∈ listed, entry.path = artifactPath artifact := by
  unfold checkArtifacts at h
  obtain ⟨read, hread', h⟩ := except_bind_eq_ok.mp h
  rw [hread] at hread'
  cases hread'
  obtain ⟨_, hinventory, h⟩ := except_bind_eq_ok.mp h
  obtain ⟨_, _, h⟩ := except_bind_eq_ok.mp h
  obtain ⟨proofs, hproofs, h⟩ := except_bind_eq_ok.mp h
  obtain ⟨listed, hlisted, h⟩ := except_bind_eq_ok.mp h
  obtain ⟨_, hchecked, haccounted⟩ := except_bind_eq_ok.mp h
  have hdelivered : ∀ artifact ∈ listed, Delivered e fs r entries artifact := by
    intro artifact hartifact
    exact checkArtifact_eq_ok (forM_eq_ok.mp hchecked artifact hartifact)
  obtain ⟨listed', hlisted', _, _, hinventoried⟩ := inventory_eq_ok hinventory
  rw [hlisted] at hlisted'
  cases hlisted'
  refine ⟨listed, hlisted, hdelivered, ?_, ?_⟩
  · have hsame : listed.map (archived e entries) = listed := by
      conv_rhs => rw [← List.map_id listed]
      apply List.map_congr_left
      intro artifact hartifact
      exact archived_of_delivered (hdelivered artifact hartifact)
    rw [hsame]
    exact hinventoried
  · intro entry hentry
    have hpath := not_not.mp (refuseIf_eq_ok.mp haccounted) entry hentry
    rcases List.mem_append.mp hpath with hpath | hpath
    · rcases List.mem_append.mp hpath with hpath | hpath
      · exact .inl (mem_metadataNames hpath)
      · rcases ((paths_eq_ok (mapError_eq_ok.mp hproofs)).1 entry.path).mp hpath with hcapsule | hevent
        · exact .inr (.inl hcapsule)
        · exact .inr (.inr (.inl hevent))
    · obtain ⟨artifact, hartifact, heq⟩ := List.mem_map.mp hpath
      exact .inr (.inr (.inr ⟨artifact, hartifact, heq.symm⟩))

theorem success_of_outcome (h : (executionOutcome receipt).outcome = "success") :
    ∀ step ∈ receipt.steps, step.exitCode = 0 := by
  unfold executionOutcome at h
  simp only at h
  split at h
  next hcount =>
    intro step hstep
    have hstep := List.countP_eq_zero.mp hcount step hstep
    simpa using hstep
  next => exact absurd h (by decide)

theorem artifactsCheck_pass (h : (artifactsCheck e fs r entries format receiptBytes).status = .pass) :
    checkArtifacts e fs r entries format receiptBytes = .ok () := by
  unfold artifactsCheck at h
  split at h
  next hchecked => exact hchecked
  next => cases h

theorem identityCheck_pass (h : (identityCheck e r entries receiptBytes).status = .pass) :
    ∃ policy, r.identityPolicy = some policy ∧
      checkIdentity e entries policy receiptBytes = .ok () := by
  unfold identityCheck at h
  split at h
  next => cases h
  next policy hpolicy =>
    split at h
    next hchecked => exact ⟨policy, hpolicy, hchecked⟩
    next => cases h

/-- No check of the log has another name. -/
theorem not_log {name : String} (hinclusion : name ≠ "log-inclusion")
    (hconsistency : name ≠ "log-consistency") :
    ¬ ∃ check ∈ logChecks e r entries format receiptBytes, check.name = name ∧ check.status = .pass := by
  intro ⟨check, hcheck, hname, _⟩
  rcases name_logChecks hcheck with h | h
  · exact hinclusion (hname.symm.trans h)
  · exact hconsistency (hname.symm.trans h)

/-- A requirement that is met is established. -/
theorem establishes_of_met {requirement : Requirement}
    (hchecks : verdict.checks = allChecks e fs r entries trust workspace format receiptBytes receipt)
    (hmaterial : verdict.trustMaterial = some (trustMaterial e.verify trust
      (evidenceOptions r workspace) (signatureCheck e.verify trust receipt (evidenceOptions r workspace)
        (timestampCheck e.verify trust receipt (evidenceOptions r workspace)).2).signedBy now).1)
    (hexecution : verdict.execution = some (executionOutcome receipt))
    (h : unmetReason verdict requirement = none) :
    Establishes e fs r entries trust workspace now format receiptBytes receipt requirement := by
  have hpassed : ∀ name, checkReason verdict name = none →
      ∃ check ∈ allChecks e fs r entries trust workspace format receiptBytes receipt,
        check.name = name ∧ check.status = .pass := by
    intro name hreason
    rw [← hchecks]
    exact checkReason_eq_none hreason
  cases requirement with
  | trust =>
    simp only [unmetReason, hmaterial] at h
    split at h
    next hcurrent => exact hcurrent
    next => cases h
  | success =>
    simp only [unmetReason, hexecution] at h
    split at h
    next hsuccess => exact success_of_outcome hsuccess
    next => cases h
  | signature => simpa [Establishes, Requirement.name, not_log] using passed_allChecks.mp (hpassed _ h)
  | timestamp => simpa [Establishes, Requirement.name, not_log] using passed_allChecks.mp (hpassed _ h)
  | recompute => simpa [Establishes, Requirement.name, not_log] using passed_allChecks.mp (hpassed _ h)
  | linkage => simpa [Establishes, Requirement.name, not_log] using passed_allChecks.mp (hpassed _ h)
  | sbom => simpa [Establishes, Requirement.name, not_log] using passed_allChecks.mp (hpassed _ h)
  | provenance => simpa [Establishes, Requirement.name, not_log] using passed_allChecks.mp (hpassed _ h)
  | revision => simpa [Establishes, Requirement.name, not_log] using passed_allChecks.mp (hpassed _ h)
  | identity =>
    apply identityCheck_pass
    simpa [Requirement.name, not_log] using passed_allChecks.mp (hpassed _ h)
  | artifacts =>
    apply artifactsCheck_pass
    simpa [Requirement.name, not_log] using passed_allChecks.mp (hpassed _ h)
  | capsule => simpa [Establishes, Requirement.name, not_log] using passed_allChecks.mp (hpassed _ h)
  | logInclusion => simpa [Establishes, Requirement.name] using passed_allChecks.mp (hpassed _ h)
  | logConsistency => simpa [Establishes, Requirement.name] using passed_allChecks.mp (hpassed _ h)

/-- What a verdict on evidence was made of. -/
theorem verifyWithPolicyAndLog_eq_ok {archive : String}
    (h : verifyWithPolicyAndLog e fs r entries trust workspace now archive = .ok verdict) :
    ∃ format receiptBytes ofReceipt, entryBytes entries "receipt.yaml" = some receiptBytes ∧
      verifyReceiptBytes e.verify trust receiptBytes archive (evidenceOptions r workspace) now =
        .ok ofReceipt ∧
      verdict = applyPolicy
        { ofReceipt with
          checks := ofReceipt.checks ++ evidenceChecks e fs r entries format receiptBytes }
        (requiredOf r) := by
  unfold verifyWithPolicyAndLog at h
  split at h
  next => cases h
  next manifest _ =>
    obtain ⟨format, _, h⟩ := except_bind_eq_ok.mp h
    obtain ⟨_, _, h⟩ := except_bind_eq_ok.mp h
    split at h
    next => cases h
    next receiptBytes hbytes =>
      obtain ⟨_, _, h⟩ := except_bind_eq_ok.mp h
      obtain ⟨ofReceipt, hreceipt, h⟩ := except_bind_eq_ok.mp h
      exact ⟨format, receiptBytes, ofReceipt, hbytes, hreceipt, (Except.ok.inj h).symm⟩

/-- And what has to be in the archive for there to be one. -/
theorem verifyWithPolicyAndLog_of {archive : String} {manifest : Bytes} {ofReceipt : ReceiptVerdict}
    (hmanifest : entryBytes entries "manifest.json" = some manifest)
    (hformat : e.readManifest manifest = .ok format)
    (hknown : format = evidenceFormat ∨ format = evidenceFormatV1 ∨ format = evidencePublicationFormat)
    (hbytes : entryBytes entries "receipt.yaml" = some receiptBytes)
    (hsize : receiptBytes.length ≤ maxReceiptBytes)
    (hverdict : verifyReceiptBytes e.verify trust receiptBytes archive (evidenceOptions r workspace)
      now = .ok ofReceipt) :
    verifyWithPolicyAndLog e fs r entries trust workspace now archive = .ok (applyPolicy
      { ofReceipt with
        checks := ofReceipt.checks ++ evidenceChecks e fs r entries format receiptBytes }
      (requiredOf r)) := by
  unfold verifyWithPolicyAndLog
  rw [hmanifest, hbytes]
  refine except_bind_eq_ok.mpr ⟨format, hformat, ?_⟩
  refine except_bind_eq_ok.mpr ⟨(), refuseIf_eq_ok.mpr (not_not.mpr hknown), ?_⟩
  refine except_bind_eq_ok.mpr ⟨(), refuseIf_eq_ok.mpr (Nat.not_lt.mpr hsize), ?_⟩
  exact except_bind_eq_ok.mpr ⟨ofReceipt, hverdict, rfl⟩

/-- **Release evidence that verifies is complete.** Whatever entries and whatever format the sender
chose: the receipt is signed and every step of it succeeded, the artifacts in the archive and at
hand are the ones its output hashes commit to, nothing else is in the archive, and every
requirement of the recipient is established by the check that is made for it. -/
theorem verified_evidence_complete {archive : String}
    (h : verifyWithPolicyAndLog e fs r entries trust workspace now archive = .ok verdict)
    (hpassed : verdict.passed = true) :
    ∃ format receiptBytes receipt, entryBytes entries "receipt.yaml" = some receiptBytes ∧
      readReceipt e.verify receiptBytes = .ok receipt ∧
      CompleteEvidence e fs r entries trust workspace now format receiptBytes receipt verdict := by
  obtain ⟨format, receiptBytes, ofReceipt, hbytes, hreceipt, rfl⟩ := verifyWithPolicyAndLog_eq_ok h
  obtain ⟨hnone, hmet⟩ := passed_applyPolicy.mp hpassed
  rcases verifyReceiptBytes_eq_ok hreceipt with ⟨receipt, hreads, rfl⟩ | ⟨check, hcheck, hfail⟩
  · have hread := readReceipt_of_readsAs hreads
    have hchecks := @checks_receiptVerdict _ e fs r entries trust workspace now format archive
      receiptBytes receipt hreads
    have hestablished : ∀ requirement ∈ requiredOf r, Establishes e fs r entries trust workspace now
        format receiptBytes receipt requirement := by
      intro requirement hrequirement
      exact establishes_of_met hchecks rfl rfl (hmet requirement hrequirement)
    have hminimum : ∀ requirement ∈ [Requirement.signature, .success, .artifacts],
        Establishes e fs r entries trust workspace now format receiptBytes receipt requirement := by
      intro requirement hrequirement
      apply hestablished requirement
      rw [mem_requiredOf]
      simp only [List.mem_cons, List.not_mem_nil, or_false] at hrequirement
      rcases hrequirement with rfl | rfl | rfl
      · exact .inr (.inl rfl)
      · exact .inr (.inr (.inl rfl))
      · exact .inr (.inr (.inr (.inl rfl)))
    have hsignature := hminimum .signature (by decide)
    refine ⟨format, receiptBytes, receipt, hbytes, hread, ?_⟩
    constructor
    · show ∃ check ∈ _ ++ _, _
      rw [hchecks]
      exact passed_allChecks.mpr (.inr (.inr (.inl ⟨rfl, hsignature⟩)))
    · obtain ⟨key, hsigned, _⟩ := signatureCheck_pass_iff.mp hsignature
      exact ⟨key, hsigned⟩
    · exact hminimum .success (by decide)
    · exact checkArtifacts_eq_ok hread (hminimum .artifacts (by decide))
    · exact hnone
    · intro requirement hrequirement
      exact hestablished requirement (mem_requiredOf.mpr (.inl hrequirement))
  · exact absurd hfail (hnone check (List.mem_append_left _ hcheck))

end Verified

/-! ### A release of one artifact

One step wrote the file `a`, and its event is the only one. The root a receipt is signed with is
given: that of the event, or another. -/

def releaseOutput : String := "040bc95d792186d9183cc33b67f5cf6c5347c91d8477bbc9315bab208fe959d3"

def releaseContent : Vector UInt8 32 :=
  hashOf 0xd2f17a54a17eff84b88457dd2c591dfbd0cc06ff9ddc4dad5287c23d8ebcb87f

def releaseId : String := "2e31b33c113d08fd8d3a1d025632e7aeb6d859295b32e689b6965f8e2d26ef7d"

def releaseEvent : CausalEvent := stepEvent releaseId "build" (sampleDigest 'b') releaseOutput []

def releaseArtifact : ArtifactInfo := ⟨"build", "a", "file", hexEncode digestX.toList, "blake3"⟩

def signatureOf (n : Nat) : Vector UInt8 64 :=
  Vector.ofFn fun i => UInt8.ofNat (n / 256 ^ (63 - i.val) % 256)

def releaseSignature : Vector UInt8 64 := signatureOf
  0x61c66374dffaae51f09a0c163dcc07699b4b61ed618f413ae32e1d2f45e03d29566822987dd22f2a7b6c164cb651496d3fad8d295cdfc5c2705f1b32b1757e03

def releaseReceipt (root : String) (signature : Vector UInt8 64) : Receipt where
  schemaVersion := some 3
  pipelineHash := sampleDigest 'a'
  steps := [⟨"build", sampleDigest 'b', releaseOutput, 2, 0, false, "", "", none⟩]
  timestamp := sampleDate
  totalDurationSecs := 2
  signature := some (hexEncode signature.toList)
  signerPublicKey := some (keyHex samplePublicA)
  attestVersion := "0.4.0"
  causalEvents := [releaseId]
  causalChainHash := some root
  reproducibility := none
  provenance := some ⟨none, none, none, none, "linux", "x86_64", none, [], [releaseArtifact], none⟩
  timestampToken := none
  isolation := none

/-- The JSON text of the receipt as it is signed. -/
def releaseText (root : String) : String :=
  "\x7b\"schema_version\":3,\"pipeline_hash\":\"" ++ sampleDigest 'a' ++ "\",\"steps\":[" ++
    sampleStepText "build" (sampleDigest 'b') releaseOutput "2" ++
    "],\"timestamp\":\"2026-08-01T00:00:00Z\",\"total_duration_secs\":2,\"signature\":null," ++
    "\"signer_public_key\":null,\"attest_version\":\"0.4.0\",\"causal_events\":[\"" ++ releaseId ++
    "\"],\"causal_chain_hash\":\"" ++ root ++
    "\",\"provenance\":\x7b\"invocation_id\":null,\"started_at\":null,\"pipeline_name\":null," ++
    "\"source\":null,\"runner_os\":\"linux\",\"runner_arch\":\"x86_64\",\"ci\":null,\"steps\":[]," ++
    "\"artifacts\":[\x7b\"step\":\"build\",\"path\":\"a\",\"kind\":\"file\",\"digest\":\"" ++
    hexEncode digestX.toList ++ "\",\"algorithm\":\"blake3\"\x7d]\x7d\x7d"

def releaseYaml (root : String) (signature : Vector UInt8 64) : Bytes :=
  utf8 ("schema_version: 3\npipeline_hash: " ++ sampleDigest 'a' ++ "\nsteps:\n" ++
    sampleStepYaml "build" (sampleDigest 'b') releaseOutput "2" ++
    "timestamp: 2026-08-01T00:00:00Z\ntotal_duration_secs: 2\nsignature: " ++
    hexEncode signature.toList ++ "\nsigner_public_key: " ++ keyHex samplePublicA ++
    "\nattest_version: 0.4.0\ncausal_events:\n- " ++ releaseId ++ "\ncausal_chain_hash: " ++ root ++
    "\nprovenance:\n  invocation_id: null\n  started_at: null\n  pipeline_name: null\n" ++
    "  source: null\n  runner_os: linux\n  runner_arch: x86_64\n  ci: null\n  steps: []\n" ++
    "  artifacts:\n  - step: build\n    path: a\n    kind: file\n    digest: " ++
    hexEncode digestX.toList ++ "\n    algorithm: blake3\n")

/-- `blake3`, on the texts of the release and on the sample keys. -/
def releaseBlake3 (bytes : Bytes) : Vector UInt8 32 :=
  (List.lookup bytes
    [(utf8 "x", digestX),
      (utf8 (outputText entryOfX),
        hashOf 0x040bc95d792186d9183cc33b67f5cf6c5347c91d8477bbc9315bab208fe959d3),
      (eventPreimage releaseEvent, releaseContent),
      (releaseContent.toList,
        hashOf 0x2e31b33c113d08fd8d3a1d025632e7aeb6d859295b32e689b6965f8e2d26ef7d)]).getD
          (sampleReceiptCrates.blake3 bytes)

/-- The crates, as they behave on the release. -/
def releaseCrates (root : String) (signature : Vector UInt8 64) : Crates :=
  { sampleReceiptCrates with
    blake3 := releaseBlake3
    verify := fun key message signature' =>
      decide (key = samplePublicA ∧ message = utf8 (releaseText root) ∧ signature' = signature) }

def releaseBackend (root : String) (signature : Vector UInt8 64) : Backend :=
  { sampleBackend with
    crates := releaseCrates root signature
    receiptJson := fun receipt => .ok (releaseText (receipt.causalChainHash.getD ""))
    readYaml := fun content =>
      if content = releaseYaml root signature then .ok ⟨some 3, .ok (releaseReceipt root signature)⟩
      else .error "expected value" }

def eventRecord (event : CausalEvent) : Bytes := utf8 (Json.compact (eventJson event))

/-- `serde_json` on the event as it is in the ledger and as it is sent. -/
def releaseCodec : ArchiveCodec where
  manifest _ := .error "expected value"
  event bytes :=
    if bytes = eventText releaseEvent ∨ bytes = eventRecord releaseEvent then some releaseEvent
    else none
  value bytes :=
    if bytes = eventText releaseEvent ∨ bytes = eventRecord releaseEvent then
      .ok ⟨some eventKeys, .ok releaseEvent⟩
    else .error "expected value"

def manifestText (format : String) : Bytes := utf8 (Json.compact (.object [("format", .text format)]))

/-- The release as it is verified, without records of a log and without identities. -/
def releaseEvidence (root : String) (signature : Vector UInt8 64) : EvidenceBackend Unit where
  verify := releaseBackend root signature
  events := releaseCodec
  capsules := ⟨fun _ => .error "expected value", fun _ => .error "no manifest"⟩
  suite := ⟨fun _ => Vector.replicate 32 0, fun _ => none, fun _ => false, fun _ _ _ => false⟩
  records := ⟨fun _ => none, fun _ => none⟩
  readManifest bytes :=
    if bytes = manifestText evidenceFormat then .ok evidenceFormat
    else if bytes = manifestText evidencePublicationFormat then .ok evidencePublicationFormat
    else .error "expected value"
  verifyIdentity _ _ _ := .error "no identity"
  render _ := "invalid evidence"

def releaseEntries (root : String) (signature : Vector UInt8 64) : List ArchiveEntry :=
  [⟨"artifacts/a", utf8 "x"⟩, ⟨eventPath releaseId, eventRecord releaseEvent⟩,
    ⟨"manifest.json", manifestText evidenceFormat⟩, ⟨"receipt.yaml", releaseYaml root signature⟩]

def nameAttest : Name := ⟨utf8 ".attest", by decide +kernel⟩
def nameLedger : Name := ⟨utf8 "causal_ledger", by decide +kernel⟩
def nameEvents : Name := ⟨utf8 "events", by decide +kernel⟩
def nameRelease : Name := ⟨utf8 (releaseId ++ ".json"), by decide +kernel⟩

theorem release_hashes :
    hexEncode ((releaseBlake3 samplePublicA.bytes.toList).toList.take 16) = sampleIdA ∧
      releaseBlake3 (utf8 "x") = digestX ∧
      hexEncode (releaseBlake3 (utf8 (outputText entryOfX))).toList = releaseOutput ∧
      releaseBlake3 (eventPreimage releaseEvent) = releaseContent ∧
      hexEncode (releaseBlake3 releaseContent.toList).toList = releaseId ∧
      isDigest (sampleDigest 'a') = true ∧ isDigest (sampleDigest 'b') = true ∧
      isDigest releaseOutput = true ∧ isDigest releaseId = true ∧ releaseId.utf8ByteSize = 64 := by
  decide +kernel

def releaseTrust : TrustEntry := ⟨sampleIdA, "authority", .trusted, none⟩

section Release
variable {root : String} {signature : Vector UInt8 64}

theorem verify_releaseEvidence : (releaseEvidence root signature).verify = releaseBackend root signature :=
  rfl

theorem crates_releaseBackend : (releaseBackend root signature).crates = releaseCrates root signature :=
  rfl

theorem keyId_release : keyId (releaseCrates root signature) samplePublicA = sampleIdA :=
  release_hashes.1

theorem signedBy_release :
    SignedBy (releaseBackend root signature) (releaseReceipt root signature)
      (keyHex samplePublicA) := by
  refine ⟨hexEncode signature.toList, releaseText root, rfl, rfl, rfl, ?_⟩
  have hverify : (releaseCrates root signature).verify samplePublicA (utf8 (releaseText root))
      signature = true := by
    simp only [releaseCrates, decide_eq_true_eq, true_and]
  exact (verifyWithPublicKey_hex (by rfl)).trans (congrArg Except.ok hverify)

theorem signatureCheck_release {opts : VerifyOptions} {trustedTime : Option DateTime}
    (hstore : opts.store = "trust") :
    (signatureCheck (releaseBackend root signature) (sampleFiles releaseTrust)
      (releaseReceipt root signature) opts trustedTime).check.status = .pass := by
  have hid : keyId (releaseBackend root signature).crates samplePublicA = sampleIdA := keyId_release
  have hentry : Trust.TrustPolicy.entry ⟨1, [releaseTrust]⟩
      (keyId (releaseBackend root signature).crates samplePublicA) = some releaseTrust := by
    rw [hid]
    simp [Trust.TrustPolicy.entry, releaseTrust]
  have hfree : Set.InjOn (keyId (releaseBackend root signature).crates)
      (insert samplePublicA (held (sampleStore releaseTrust))) := by
    rw [held_sampleStore, Set.pair_eq_singleton]
    exact Set.injOn_singleton _ _
  have hdir : (sampleFiles releaseTrust).store opts.store = some (sampleStore releaseTrust) := by
    rw [hstore]
    rfl
  have hread := @readable_sampleStore _ releaseTrust hid rfl opts.store
  refine signatureCheck_pass_iff.mpr ⟨_, signedBy_release, ?_⟩
  rw [judgeSigned_passed_iff, keyTrustStatus_of_entry hdir hfree hread hentry]
  exact .inl (congrArg Except.ok (entryTrust_trusted_iff.mpr ⟨_, hentry, rfl⟩))

theorem length_releaseYaml (hroot : root.utf8ByteSize = 64) :
    (releaseYaml root signature).length ≤ 10000 := by
  rw [releaseYaml, length_utf8]
  simp only [String.utf8ByteSize_append, utf8ByteSize_hexEncode, keyHex, Vector.length_toList, hroot]
  decide +kernel

theorem inventory_release :
    inventory (releaseCrates root signature) (releaseReceipt root signature) = .ok () := by
  rfl

/-- The workspace `/w` with the artifact, and the event in its ledger. -/
def releaseFiles : FileSystem where
  root := .dir [nameW] fun _ => .dir [nameA, nameAttest] fun name =>
    if name = nameA then .file (utf8 "x")
    else .dir [nameLedger] fun _ => .dir [nameEvents] fun _ => .dir [nameRelease] fun _ =>
      .file (eventText releaseEvent)
  cwd := [nameW]

theorem entryBytes_release :
    entryBytes (releaseEntries root signature) "artifacts/a" = some (utf8 "x") ∧
      entryBytes (releaseEntries root signature) (eventPath releaseId) =
        some (eventRecord releaseEvent) ∧
      entryBytes (releaseEntries root signature) "manifest.json" =
        some (manifestText evidenceFormat) ∧
      entryBytes (releaseEntries root signature) "receipt.yaml" = some (releaseYaml root signature) := by
  refine ⟨rfl, rfl, rfl, rfl⟩

def releaseRecipient : Recipient Unit where
  trustStore := "trust"
  identityPolicy := none
  artifactRoot := some (.ofString "/w")
  required := [.signature, .success, .artifacts, .capsule, .linkage]
  log := ⟨none, none, none⟩

theorem artifactBytes_release :
    artifactBytes releaseFiles (.ofString "/w") releaseArtifact = .ok (utf8 "x") := by
  rfl

theorem readReceipt_release :
    readReceipt (releaseBackend root signature) (releaseYaml root signature) =
      .ok (releaseReceipt root signature) := by
  simp only [readReceipt, releaseBackend, if_true]
  rfl

theorem checkArtifacts_release :
    checkArtifacts (releaseEvidence root signature) releaseFiles releaseRecipient
      (releaseEntries root signature) evidenceFormat (releaseYaml root signature) = .ok () := by
  unfold checkArtifacts
  rw [verify_releaseEvidence, readReceipt_release, crates_releaseBackend]
  show (do
    inventory (releaseCrates root signature) (releaseReceipt root signature)
    _) = _
  rw [inventory_release]
  rfl

theorem blake3_release : (releaseCrates root signature).blake3 = releaseBlake3 := rfl

theorem eventContent_release :
    eventContent (releaseCrates root signature) releaseEvent = releaseContent.toList := by
  rw [eventContent, blake3_release, ← eventPreimage, release_hashes.2.2.2.1]

theorem chainHash_release : chainHash (releaseCrates root signature) [releaseEvent] = releaseId := by
  rw [chainHash, chainBytes, List.flatMap_singleton, eventContent_release]
  exact release_hashes.2.2.2.2.1

theorem genuine_release : Genuine (releaseCrates root signature) releaseEvent := by
  refine ⟨eventIdIsAuthentic_iff.mpr ?_, nofun⟩
  rw [eventIdOf, eventContent_release]
  exact release_hashes.2.2.2.2.1.symm

theorem event_release {text : Bytes}
    (h : text = eventText releaseEvent ∨ text = eventRecord releaseEvent) :
    event releaseCodec text = .ok releaseEvent := by
  refine event_eq_ok.mpr ⟨_, eventKeys, if_pos h, rfl, ?_, rfl⟩
  intro key hkey
  exact hkey

theorem vouched_release :
    Vouched (releaseCrates root signature) releaseCodec (entryBytes (releaseEntries root signature))
      [releaseId] releaseId releaseEvent := by
  refine ⟨release_hashes.2.2.2.2.2.2.2.2.1, ⟨_, entryBytes_release.2.1, event_release (.inr rfl)⟩, rfl, rfl,
    genuine_release, ?_⟩
  intro parent hparent
  cases hparent

/-- The chain passes where the root is that of the event. -/
theorem causalCheck_release :
    (causalCheck (releaseCrates releaseId signature) releaseCodec (releaseReceipt releaseId signature)
      (entryBytes (releaseEntries releaseId signature))).status = .pass := by
  rw [causalCheck_pass_iff, assessCausal_eq_ok_iff (List.cons_ne_nil _ _)]
  refine ⟨List.nodup_singleton _, fun _ => releaseEvent, ?_, ?_⟩
  · intro id hid
    rw [List.mem_singleton.mp hid]
    exact vouched_release
  · exact congrArg some chainHash_release.symm

theorem capsuleCheck_release {e : EvidenceBackend Unit} {files : String → Option Bytes} :
    (capsuleCheck e.verify.crates e.capsules (releaseReceipt root signature) files).status =
      .pass := by
  rfl

theorem readsAs_release :
    ReadsAs (releaseBackend root signature) (releaseYaml root signature)
      (releaseReceipt root signature) := by
  refine ⟨⟨some 3, .ok (releaseReceipt root signature)⟩, ?_, rfl, rfl⟩
  simp only [releaseBackend, if_true]

theorem consistencyCheck_release :
    (consistencyCheck (releaseReceipt root signature)).status = .pass := by
  obtain ⟨_, _, _, _, _, hgoal, hoffset, hresult, _⟩ := release_hashes
  have hproblems : consistencyProblems (releaseReceipt root signature) = [] := by
    simp [consistencyProblems, stepProblems, releaseReceipt, hgoal, hoffset, hresult]
  simp only [consistencyCheck, hproblems, if_true]

end Release

def releaseOfReceipt : ReceiptVerdict :=
  receiptVerdict (releaseEvidence releaseId releaseSignature).verify (sampleFiles releaseTrust)
    (releaseReceipt releaseId releaseSignature) "release.attest" (evidenceOptions releaseRecipient ".")
    sampleDate

def releaseChecks : List Check :=
  evidenceChecks (releaseEvidence releaseId releaseSignature) releaseFiles releaseRecipient
    (releaseEntries releaseId releaseSignature) evidenceFormat (releaseYaml releaseId releaseSignature)

def releaseVerdict : ReceiptVerdict :=
  applyPolicy { releaseOfReceipt with checks := releaseOfReceipt.checks ++ releaseChecks }
    (requiredOf releaseRecipient)

theorem verify_release :
    verifyWithPolicyAndLog (releaseEvidence releaseId releaseSignature) releaseFiles releaseRecipient
      (releaseEntries releaseId releaseSignature) (sampleFiles releaseTrust) "." sampleDate
      "release.attest" = .ok releaseVerdict := by
  have hformat : (releaseEvidence releaseId releaseSignature).readManifest
      (manifestText evidenceFormat) = .ok evidenceFormat := by
    simp only [releaseEvidence, if_true]
  have hsize : (releaseYaml releaseId releaseSignature).length ≤ maxReceiptBytes :=
    (length_releaseYaml release_hashes.2.2.2.2.2.2.2.2.2).trans (by decide)
  unfold releaseVerdict releaseOfReceipt releaseChecks
  exact verifyWithPolicyAndLog_of entryBytes_release.2.2.1 hformat (.inl rfl) entryBytes_release.2.2.2
    hsize (verifyReceiptBytes_of_readsAs readsAs_release)

/-- The checks that a release without a token, an identity or a record passes or skips. -/
theorem status_release {check : Check}
    (hcheck : check ∈ allChecks (releaseEvidence releaseId releaseSignature) releaseFiles
      releaseRecipient (releaseEntries releaseId releaseSignature) (sampleFiles releaseTrust) "."
      evidenceFormat (releaseYaml releaseId releaseSignature)
      (releaseReceipt releaseId releaseSignature)) :
    check.status = .pass ∨
      check.status = .skipped ∧ check.name ∈ ["timestamp", "recompute", "identity"] := by
  have hlog : logChecks (releaseEvidence releaseId releaseSignature) releaseRecipient
      (releaseEntries releaseId releaseSignature) evidenceFormat
      (releaseYaml releaseId releaseSignature) = [] := rfl
  simp only [allChecks, hlog, List.append_nil, List.mem_cons, List.not_mem_nil, or_false] at hcheck
  rcases hcheck with h | h | h | h | h | h | h | h | h
  · exact .inl (h ▸ rfl)
  · exact .inl (h ▸ consistencyCheck_release)
  · rw [h, verify_releaseEvidence]
    left
    apply signatureCheck_release
    rfl
  · exact .inr (h ▸ ⟨rfl, by decide⟩)
  · exact .inr (h ▸ ⟨rfl, by decide⟩)
  · rw [h, artifactsCheck, checkArtifacts_release]
    exact .inl rfl
  · rw [h]
    exact .inl capsuleCheck_release
  · rw [h]
    exact .inl causalCheck_release
  · exact .inr (h ▸ ⟨rfl, by decide⟩)

theorem passed_release : releaseVerdict.passed = true := by
  have hchecks : releaseOfReceipt.checks ++ releaseChecks =
      allChecks (releaseEvidence releaseId releaseSignature) releaseFiles releaseRecipient
        (releaseEntries releaseId releaseSignature) (sampleFiles releaseTrust) "." evidenceFormat
        (releaseYaml releaseId releaseSignature) (releaseReceipt releaseId releaseSignature) := by
    unfold releaseOfReceipt releaseChecks
    exact checks_receiptVerdict readsAs_release
  have hnames : ∀ name ∈ ["signature", "artifacts", "capsule", "chain-linkage"],
      name ∈ checkNames ∧ name ∉ ["timestamp", "recompute", "identity"] := by decide
  have hreason : ∀ name ∈ ["signature", "artifacts", "capsule", "chain-linkage"],
      checkReason { releaseOfReceipt with checks := releaseOfReceipt.checks ++ releaseChecks } name =
        none := by
    intro name hname
    apply checkReason_of_all
    · dsimp only
      rw [hchecks, ← List.mem_map, names_allChecks]
      exact List.mem_append_left _ (hnames name hname).1
    · intro check hcheck hcheckName
      rw [hchecks] at hcheck
      rcases status_release hcheck with h | ⟨_, hskipped⟩
      · exact h
      · rw [hcheckName] at hskipped
        exact absurd hskipped (hnames name hname).2
  unfold releaseVerdict
  rw [passed_applyPolicy]
  constructor
  · intro check hcheck
    rw [hchecks] at hcheck
    rcases status_release hcheck with h | ⟨h, _⟩
    · rw [h]
      decide
    · rw [h]
      decide
  · intro requirement hrequirement
    have hrequired : requiredOf releaseRecipient =
        [.signature, .success, .artifacts, .capsule, .linkage] := rfl
    rw [hrequired] at hrequirement
    simp only [List.mem_cons, List.not_mem_nil, or_false] at hrequirement
    rcases hrequirement with rfl | rfl | rfl | rfl | rfl
    · simp only [unmetReason, Requirement.name]
      exact hreason "signature" (by decide)
    · apply unmetReason_success execution_receiptVerdict
      intro step hstep
      rw [List.mem_singleton.mp hstep]
    · simp only [unmetReason, Requirement.name]
      exact hreason "artifacts" (by decide)
    · simp only [unmetReason, Requirement.name]
      exact hreason "capsule" (by decide)
    · simp only [unmetReason]
      exact hreason "chain-linkage" (by decide)

theorem verified_evidence_complete_release :
    ∃ format receiptBytes receipt,
      entryBytes (releaseEntries releaseId releaseSignature) "receipt.yaml" = some receiptBytes ∧
      readReceipt (releaseEvidence releaseId releaseSignature).verify receiptBytes = .ok receipt ∧
      CompleteEvidence (releaseEvidence releaseId releaseSignature) releaseFiles releaseRecipient
        (releaseEntries releaseId releaseSignature) (sampleFiles releaseTrust) "." sampleDate format
        receiptBytes receipt releaseVerdict :=
  verified_evidence_complete verify_release passed_release

end Attest.Evidence
