import Attest.Evidence.Verification
import Attest.Identity.Workflow
import Attest.Interop.Import

/-! The in-toto projection of a receipt, as `interop.rs` has it.

A statement says of a receipt what the other format has words for: the files, the pipeline, when it
finished. The receipt itself travels inside, byte for byte, and the statement is held against it.
`projectReceipt` is that projection; its JSON tells everything that is in it (`json_injective`). -/
namespace Attest.Interop.Projection
open Library Library.Fallible Storage Verify
open Trust (Bytes Crates DateTime utf8 hexEncode isLowerHexDigit minSecs maxSecs)
open Trust.DateTime (padded)
open Evidence (EvidenceError inventory)
open Identity (IdentityVerification context)

/-! ### The wire format -/

def dssePayloadType : String := "application/vnd.in-toto+json"

def statementType : String := "https://in-toto.io/Statement/v1"

def predicateType : String := "https://slsa.dev/provenance/v1"

def buildType : String :=
  "https://github.com/Alien6-Studio/continuum-attest/blob/main/docs/specifications/attest-pipeline-v2.md"

def legacyBuildType : String := "https://alien6.com/attest/pipeline/v1"

def unknownBuilder : String := "urn:attest:builder:unverified"

def evidenceFormat : String := "attest-original-evidence/v1"

/-- A DSSE envelope. -/
structure Envelope where
  payload : String
  payloadType : String
  signatures : List EnvelopeSignature

structure ResourceDescriptor where
  blake3 : String
  name : String
deriving DecidableEq

structure EmbeddedBlob where
  content : String
  mediaType : String
  sha256 : String
deriving DecidableEq

structure EvidenceProducer where
  name : String
  version : String
deriving DecidableEq

/-- The receipt, byte for byte, with its context; nothing of it authorises a signer. -/
structure OriginalEvidence where
  artifactBinding : String
  format : String
  originalSigner : Option String
  producer : EvidenceProducer
  receipt : EmbeddedBlob
  semantics : List String
  trustMaterial : SortedMap String EmbeddedBlob
  workflow : Option IdentityVerification
  workflowBundle : Option EmbeddedBlob
deriving DecidableEq

structure Predicate where
  evidence : Option OriginalEvidence
  buildType : String
  pipelineHash : String
  resolvedDependencies : List ResourceDescriptor
  builder : String
  finishedOn : String
  invocationId : String
  startedOn : String
deriving DecidableEq

structure Statement where
  type : String
  predicate : Predicate
  predicateType : String
  subject : List ResourceDescriptor
deriving DecidableEq

/-! ### Its JSON, in the order of the names -/

def ResourceDescriptor.json (descriptor : ResourceDescriptor) : Json :=
  .object [("digest", .object [("blake3", .text descriptor.blake3)]), ("name", .text descriptor.name)]

def EmbeddedBlob.json (blob : EmbeddedBlob) : Json :=
  .object [("content", .text blob.content), ("mediaType", .text blob.mediaType),
    ("sha256", .text blob.sha256)]

def optional {α : Type} (json : α → Json) : Option α → Json
  | none => .null
  | some a => json a

def identityJson (identity : IdentityVerification) : Json :=
  .object [("issuer", .text identity.issuer), ("repository", .text identity.repository),
    ("workflow", .text identity.workflow), ("revision", .text identity.revision)]

def OriginalEvidence.json (evidence : OriginalEvidence) : Json :=
  .object [("artifactBinding", .text evidence.artifactBinding), ("format", .text evidence.format),
    ("originalSigner", optional .text evidence.originalSigner),
    ("producer", .object [("name", .text evidence.producer.name),
      ("version", .text evidence.producer.version)]),
    ("receipt", evidence.receipt.json), ("semantics", .array (evidence.semantics.map .text)),
    ("trustMaterial", .object (evidence.trustMaterial.entries.map fun entry => (entry.1, entry.2.json))),
    ("workflow", optional identityJson evidence.workflow),
    ("workflowBundle", optional EmbeddedBlob.json evidence.workflowBundle)]

def Predicate.json (predicate : Predicate) : Json :=
  .object ((match predicate.evidence with
    | none => []
    | some evidence => [("attest_evidence", evidence.json)]) ++
    [("buildDefinition", .object [("buildType", .text predicate.buildType),
        ("externalParameters", .object [("pipelineHash", .text predicate.pipelineHash)]),
        ("resolvedDependencies", .array (predicate.resolvedDependencies.map ResourceDescriptor.json))]),
      ("runDetails", .object [("builder", .object [("id", .text predicate.builder)]),
        ("metadata", .object [("finishedOn", .text predicate.finishedOn),
          ("invocationId", .text predicate.invocationId), ("startedOn", .text predicate.startedOn)])])])

def Statement.json (statement : Statement) : Json :=
  .object [("_type", .text statement.type), ("predicate", statement.predicate.json),
    ("predicateType", .text statement.predicateType),
    ("subject", .array (statement.subject.map ResourceDescriptor.json))]

/-- `Context::context` of what may be missing. -/
def given {α : Type} (message : String) : Option α → Except EvidenceError α
  | none => .error (.message message)
  | some a => .ok a

theorem given_eq_ok {α : Type} {message : String} {x : Option α} {a : α} :
    given message x = .ok a ↔ x = some a := by
  cases x with
  | none => simp [given]
  | some b => simp [given]

/-! ### Blobs -/

section Blobs
variable (sha256 : Bytes → Vector UInt8 32)

def sha256Text (bytes : Bytes) : String := hexEncode (sha256 bytes).toList

def EmbeddedBlob.new (bytes : Bytes) (mediaType : String) : EmbeddedBlob :=
  ⟨Base64.encode bytes, mediaType, sha256Text sha256 bytes⟩

/-- The text of the base64 reader's own error is left out. -/
def EmbeddedBlob.bytes (blob : EmbeddedBlob) (limit : Nat) : Except EvidenceError Bytes := do
  refuseIf (limit * 4 / 3 + 4 < blob.content.utf8ByteSize)
    (.message "embedded evidence exceeds size limit")
  let bytes ← given "embedded evidence is not valid base64" (Base64.decode blob.content)
  refuseIf (limit < bytes.length) (.message "embedded evidence exceeds size limit")
  refuseIf (sha256Text sha256 bytes ≠ blob.sha256)
    (.message "embedded evidence SHA-256 does not match its bytes")
  return bytes

end Blobs

/-! ### The projection -/

def projectionSemantics : List String :=
  ["projection: the original receipt is authoritative for Attest verification",
    "receipt-signature and RFC3161 timestamp are carried in the original receipt",
    "trust-material is producer-supplied context, never recipient authorization",
    "step manifests, causal references, isolation, reproducibility and source observations are " ++
      "carried only in the original receipt",
    "external causal objects, capsule manifests, source files and artifact bytes are omitted and " ++
      "require separately delivered evidence",
    "resolvedDependencies is empty: input manifests are not individual resource digests",
    "symlinks are carried in the original inventory but are not file-digest subjects",
    "workflow identifies the authorizing signing workflow, not runner integrity or build correctness",
    "no separate artifact signature is asserted",
    "startedOn is derived from the producer-reported completion and duration, not trusted time"]

/-- A receipt that lists files. -/
def Bound (receipt : Receipt) : Prop := ∃ p ∈ receipt.provenance, p.artifacts ≠ []

instance (receipt : Receipt) : Decidable (Bound receipt) :=
  match h : receipt.provenance with
  | none => isFalse (by simp [Bound, h])
  | some p => decidable_of_iff (p.artifacts ≠ []) (by simp [Bound, h])

def artifactBinding (receipt : Receipt) : String :=
  if Bound receipt then "signed-file-inventory" else "unavailable"

def addSubject (subjects : SortedMap String String) (artifact : ArtifactInfo) :
    Except EvidenceError (SortedMap String String) :=
  if artifact.kind ≠ "file" then .ok subjects
  else do
    refuseIf (∃ previous ∈ subjects.lookup artifact.path, previous ≠ artifact.digest)
      (.message "one artifact path has conflicting digests")
    return subjects.insert artifact.path artifact.digest

def listedArtifacts (receipt : Receipt) : Except EvidenceError (List ArtifactInfo) :=
  match receipt.provenance with
  | none => .error (.message "missing artifact inventory")
  | some provenance => .ok provenance.artifacts

def fileSubjects (c : Crates) (receipt : Receipt) : Except EvidenceError (SortedMap String String) :=
  if artifactBinding receipt = "unavailable" then .ok .empty
  else do
    inventory c receipt
    let listed ← listedArtifacts receipt
    listed.foldlM addSubject .empty

/-- The most seconds that `Duration::try_seconds` takes. -/
def maxDuration : Nat := 9223372036854775

/-- `finished.checked_sub_signed`, by whole seconds. Out of a leap second the second that follows
is what is counted from. -/
def subSeconds (t : DateTime) (seconds : Nat) : Option DateTime :=
  let leap := 1000000000 ≤ t.nanos ∧ 0 < seconds
  let secs := (if leap then t.secs + 1 else t.secs) - seconds
  if h : minSecs ≤ secs ∧ secs ≤ maxSecs then
    some ⟨secs, if leap then t.nanos - 1000000000 else t.nanos, h, by
      have := t.nanos_lt
      split <;> omega⟩
  else none

def startedAt (receipt : Receipt) : Except EvidenceError DateTime := do
  refuseIf (maxDuration < receipt.totalDurationSecs.toNat)
    (.message "total_duration_secs out of range")
  given "derived start time is out of range"
    (subSeconds receipt.timestamp receipt.totalDurationSecs.toNat)

/-- The time of day without its fraction; a leap second is second 60. -/
def secondsText (t : DateTime) : String :=
  let second := (t.secs % 86400).toNat
  padded 2 (second / 3600) ++ ":" ++ padded 2 (second / 60 % 60) ++ ":" ++
    padded 2 (second % 60 + t.nanos / 1000000000)

/-- `to_rfc3339_opts(SecondsFormat::Secs, true)`. -/
def rfc3339 (t : DateTime) : String := t.dateText ++ "T" ++ secondsText t ++ "Z"

def projectReceipt (c : Crates) (receipt : Receipt) (evidence : OriginalEvidence) :
    Except EvidenceError Statement := do
  let subjects ← fileSubjects c receipt
  let started ← startedAt receipt
  return {
    type := statementType
    predicate := {
      evidence := some evidence
      buildType := buildType
      pipelineHash := receipt.pipelineHash
      resolvedDependencies := []
      builder := match evidence.workflow with
        | some identity => identity.workflow
        | none => unknownBuilder
      finishedOn := rfc3339 receipt.timestamp
      invocationId := evidence.receipt.sha256
      startedOn := rfc3339 started }
    predicateType := predicateType
    subject := subjects.entries.map fun entry => ⟨entry.2, entry.1⟩ }

/-! ### Their JSON tells them apart -/

theorem optional_injective {α : Type} {json : α → Json} (hjson : Function.Injective json)
    (hnull : ∀ a, json a ≠ .null) : Function.Injective (optional json) := by
  intro a b h
  cases a with
  | none =>
    cases b with
    | none => rfl
    | some b => exact absurd h.symm (hnull b)
  | some a =>
    cases b with
    | none => exact absurd h (hnull a)
    | some b => exact congrArg some (hjson h)

theorem text_injective : Function.Injective Json.text := fun _ _ h => Json.text.inj h

theorem ResourceDescriptor.json_injective : Function.Injective ResourceDescriptor.json := by
  intro a b h
  simp only [ResourceDescriptor.json, Json.object.injEq, List.cons.injEq, Prod.mk.injEq,
    Json.text.injEq, true_and, and_true] at h
  rw [ResourceDescriptor.mk.injEq]
  exact h

theorem EmbeddedBlob.json_injective : Function.Injective EmbeddedBlob.json := by
  intro a b h
  simp only [EmbeddedBlob.json, Json.object.injEq, List.cons.injEq, Prod.mk.injEq,
    Json.text.injEq, true_and, and_true] at h
  rw [EmbeddedBlob.mk.injEq]
  exact h

theorem identityJson_injective : Function.Injective identityJson := by
  intro a b h
  simp only [identityJson, Json.object.injEq, List.cons.injEq, Prod.mk.injEq, Json.text.injEq,
    true_and, and_true] at h
  rw [IdentityVerification.mk.injEq]
  exact h

theorem OriginalEvidence.json_injective : Function.Injective OriginalEvidence.json := by
  intro a b h
  simp only [OriginalEvidence.json, Json.object.injEq, List.cons.injEq, Prod.mk.injEq,
    Json.text.injEq, Json.array.injEq, true_and, and_true] at h
  obtain ⟨hbinding, hformat, hsigner, hproducer, hreceipt, hsemantics, hmaterial, hworkflow,
    hbundle⟩ := h
  have hentry : Function.Injective fun entry : String × EmbeddedBlob => (entry.1, entry.2.json) := by
    intro entry other hsame
    obtain ⟨hname, hblob⟩ := Prod.mk.inj hsame
    exact Prod.ext hname (EmbeddedBlob.json_injective hblob)
  rw [OriginalEvidence.mk.injEq, EvidenceProducer.mk.injEq]
  exact ⟨hbinding, hformat, optional_injective text_injective (by simp) hsigner, hproducer,
    EmbeddedBlob.json_injective hreceipt, text_injective.list_map hsemantics,
    SortedMap.ext_entries (hentry.list_map hmaterial),
    optional_injective identityJson_injective (by simp [identityJson]) hworkflow,
    optional_injective EmbeddedBlob.json_injective (by simp [EmbeddedBlob.json]) hbundle⟩

theorem Predicate.json_injective : Function.Injective Predicate.json := by
  intro a b h
  obtain ⟨evidence, _⟩ := a
  obtain ⟨evidence', _⟩ := b
  cases evidence with
  | none =>
    cases evidence' with
    | none =>
      simp only [Predicate.json, List.nil_append, Json.object.injEq, List.cons.injEq, Prod.mk.injEq,
        Json.text.injEq, Json.array.injEq, true_and, and_true, and_assoc,
        ResourceDescriptor.json_injective.list_map.eq_iff] at h
      rw [Predicate.mk.injEq]
      exact ⟨rfl, h⟩
    | some evidence' => simp [Predicate.json] at h
  | some evidence =>
    cases evidence' with
    | none => simp [Predicate.json] at h
    | some evidence' =>
      simp only [Predicate.json, List.cons_append, List.nil_append, Json.object.injEq,
        List.cons.injEq, Prod.mk.injEq, Json.text.injEq, Json.array.injEq, true_and, and_true,
        and_assoc, ResourceDescriptor.json_injective.list_map.eq_iff,
        OriginalEvidence.json_injective.eq_iff] at h
      rw [Predicate.mk.injEq]
      exact ⟨congrArg some h.1, h.2⟩

/-- **The JSON of a statement tells all of it.** -/
theorem Statement.json_injective : Function.Injective Statement.json := by
  intro a b h
  simp only [Statement.json, Json.object.injEq, List.cons.injEq, Prod.mk.injEq, Json.text.injEq,
    Json.array.injEq, true_and, and_true] at h
  obtain ⟨htype, hpredicate, hpredicateType, hsubject⟩ := h
  rw [Statement.mk.injEq]
  exact ⟨htype, Predicate.json_injective hpredicate, hpredicateType,
    ResourceDescriptor.json_injective.list_map hsubject⟩

/-! ### Blobs that open -/

section Blobs
variable {sha256 : Bytes → Vector UInt8 32} {blob : EmbeddedBlob} {limit : Nat} {bytes : Bytes}

theorem EmbeddedBlob.bytes_eq_ok : blob.bytes sha256 limit = .ok bytes ↔
    blob.content.utf8ByteSize ≤ limit * 4 / 3 + 4 ∧ Base64.decode blob.content = some bytes ∧
      bytes.length ≤ limit ∧ sha256Text sha256 bytes = blob.sha256 := by
  simp only [EmbeddedBlob.bytes, except_bind_eq_ok, refuseIf_eq_ok, exists_const, given_eq_ok, not_lt,
    not_not, pure, Except.pure, Except.ok.injEq]
  constructor
  · intro h
    obtain ⟨hcontent, _, hdecode, hlength, hdigest, rfl⟩ := h
    exact ⟨hcontent, hdecode, hlength, hdigest⟩
  · intro h
    exact ⟨h.1, bytes, h.2.1, h.2.2.1, h.2.2.2, rfl⟩

/-- What is put in is what comes out. -/
theorem EmbeddedBlob.bytes_new {mediaType : String} (h : bytes.length ≤ limit) :
    (EmbeddedBlob.new sha256 bytes mediaType).bytes sha256 limit = .ok bytes := by
  rw [EmbeddedBlob.bytes_eq_ok]
  refine ⟨?_, Base64.decode_encode bytes, h, rfl⟩
  show (Base64.encode bytes).utf8ByteSize ≤ _
  rw [Base64.encode, Publication.Note.utf8ByteSize_encodeChars]
  omega

end Blobs

/-! ### The files of a receipt -/

/-- A file has one digest, whichever steps list it. -/
def OneDigest (listed : List ArtifactInfo) : Prop :=
  ∀ artifact ∈ listed, ∀ other ∈ listed, artifact.kind = "file" → other.kind = "file" →
    artifact.path = other.path → artifact.digest = other.digest

section Subjects
variable {listed : List ArtifactInfo} {subjects subjects' : SortedMap String String}
  {artifact : ArtifactInfo}

theorem addSubject_eq_ok : addSubject subjects artifact = .ok subjects' ↔
    artifact.kind ≠ "file" ∧ subjects' = subjects ∨
    artifact.kind = "file" ∧ (∀ digest ∈ subjects.lookup artifact.path, digest = artifact.digest) ∧
      subjects' = subjects.insert artifact.path artifact.digest := by
  unfold addSubject
  by_cases hkind : artifact.kind = "file"
  · simp only [hkind, ne_eq, not_true, if_false, except_bind_eq_ok, refuseIf_eq_ok, exists_const,
      not_exists, not_and, not_not, pure, Except.pure, Except.ok.injEq, false_and, false_or,
      true_and]
    exact and_congr_right fun _ => eq_comm
  · simp only [hkind, ne_eq, not_false_iff, if_true, Except.ok.injEq, true_and, false_and, or_false]
    exact eq_comm

/-- One after the other: a path keeps its digest, and the files are what is added. -/
theorem of_foldlM_addSubject (h : listed.foldlM addSubject subjects = .ok subjects') :
    OneDigest listed ∧
    (∀ artifact ∈ listed, artifact.kind = "file" →
      subjects'.lookup artifact.path = some artifact.digest) ∧
    (∀ path digest, subjects.lookup path = some digest → subjects'.lookup path = some digest) ∧
    ∀ path digest, subjects'.lookup path = some digest → subjects.lookup path = some digest ∨
      ∃ artifact ∈ listed, artifact.kind = "file" ∧ artifact.path = path ∧
        artifact.digest = digest := by
  suffices hsuffices : (∀ artifact ∈ listed, artifact.kind = "file" →
      subjects'.lookup artifact.path = some artifact.digest) ∧
    (∀ path digest, subjects.lookup path = some digest → subjects'.lookup path = some digest) ∧
    ∀ path digest, subjects'.lookup path = some digest → subjects.lookup path = some digest ∨
      ∃ artifact ∈ listed, artifact.kind = "file" ∧ artifact.path = path ∧
        artifact.digest = digest by
    refine ⟨?_, hsuffices⟩
    intro artifact hartifact other hother hkind hkind' hpath
    have hdigest := hsuffices.1 artifact hartifact hkind
    rw [hpath, hsuffices.1 other hother hkind'] at hdigest
    exact (Option.some.inj hdigest).symm
  induction listed generalizing subjects with
  | nil =>
    cases h
    exact ⟨by simp, fun _ _ hsame => hsame, fun _ _ hsame => .inl hsame⟩
  | cons artifact rest ih =>
    rw [List.foldlM_cons] at h
    obtain ⟨next, hnext, h⟩ := except_bind_eq_ok.mp h
    obtain ⟨hfiles, hkept, hmade⟩ := ih h
    obtain ⟨hkind, rfl⟩ | ⟨hkind, hagree, rfl⟩ := addSubject_eq_ok.mp hnext
    · refine ⟨?_, hkept, ?_⟩
      · intro other hother hfile
        rcases List.mem_cons.mp hother with rfl | hother
        · exact absurd hfile hkind
        · exact hfiles other hother hfile
      · intro path digest hlookup
        refine (hmade path digest hlookup).imp_right ?_
        intro hexists
        obtain ⟨other, hother, hrest⟩ := hexists
        exact ⟨other, List.mem_cons_of_mem _ hother, hrest⟩
    · refine ⟨?_, ?_, ?_⟩
      · intro other hother hfile
        rcases List.mem_cons.mp hother with rfl | hother
        · exact hkept _ _ (by rw [SortedMap.lookup_insert, if_pos rfl])
        · exact hfiles other hother hfile
      · intro path digest hlookup
        apply hkept
        rw [SortedMap.lookup_insert]
        split
        next hpath =>
          rw [hpath] at hlookup
          rw [hagree digest hlookup]
        next => exact hlookup
      · intro path digest hlookup
        rcases hmade path digest hlookup with hnow | ⟨other, hother, hrest⟩
        · rw [SortedMap.lookup_insert] at hnow
          split at hnow
          next hpath =>
            exact .inr ⟨artifact, List.mem_cons_self .., hkind, hpath.symm, Option.some.inj hnow⟩
          next => exact .inl hnow
        · exact .inr ⟨other, List.mem_cons_of_mem _ hother, hrest⟩

theorem foldlM_addSubject (h : OneDigest listed)
    (hagree : ∀ artifact ∈ listed, artifact.kind = "file" →
      ∀ digest ∈ subjects.lookup artifact.path, digest = artifact.digest) :
    ∃ subjects', listed.foldlM addSubject subjects = .ok subjects' := by
  induction listed generalizing subjects with
  | nil => exact ⟨subjects, rfl⟩
  | cons artifact rest ih =>
    have hrest : OneDigest rest := fun a ha b hb =>
      h a (List.mem_cons_of_mem _ ha) b (List.mem_cons_of_mem _ hb)
    simp only [List.foldlM_cons]
    by_cases hkind : artifact.kind = "file"
    · have hnext : addSubject subjects artifact =
          .ok (subjects.insert artifact.path artifact.digest) :=
        addSubject_eq_ok.mpr (.inr ⟨hkind, hagree artifact (List.mem_cons_self ..) hkind, rfl⟩)
      rw [hnext, except_ok_bind]
      refine ih hrest ?_
      intro other hother hfile digest hdigest
      rw [Option.mem_def, SortedMap.lookup_insert] at hdigest
      split at hdigest
      next hpath =>
        rw [← Option.some.inj hdigest]
        exact h artifact (List.mem_cons_self ..) other (List.mem_cons_of_mem _ hother) hkind hfile
          hpath.symm
      next => exact hagree other (List.mem_cons_of_mem _ hother) hfile digest hdigest
    · have hnext : addSubject subjects artifact = .ok subjects :=
        addSubject_eq_ok.mpr (.inl ⟨hkind, rfl⟩)
      rw [hnext, except_ok_bind]
      exact ih hrest fun other hother => hagree other (List.mem_cons_of_mem _ hother)

end Subjects

section Project
variable {c : Crates} {receipt : Receipt} {evidence : OriginalEvidence} {statement : Statement}
  {subjects : SortedMap String String}

theorem artifactBinding_eq_unavailable : artifactBinding receipt = "unavailable" ↔ ¬ Bound receipt := by
  unfold artifactBinding
  split
  next h => simp [h]
  next h => simp [h]

/-- A file that a receipt lists, with its digest. -/
def Lists (receipt : Receipt) (descriptor : ResourceDescriptor) : Prop :=
  ∃ provenance ∈ receipt.provenance, ∃ artifact ∈ provenance.artifacts, artifact.kind = "file" ∧
    artifact.path = descriptor.name ∧ artifact.digest = descriptor.blake3

/-- What the files of a receipt have to be for a statement to name them. -/
structure Nameable (c : Crates) (receipt : Receipt) : Prop where
  inventoried : Bound receipt → inventory c receipt = .ok ()
  oneDigest : ∀ provenance ∈ receipt.provenance, OneDigest provenance.artifacts

/-- The subjects are the files, each with its digest, and nothing else. -/
theorem fileSubjects_eq_ok : fileSubjects c receipt = .ok subjects ↔
    Nameable c receipt ∧
      ∀ path digest, subjects.lookup path = some digest ↔ Lists receipt ⟨digest, path⟩ := by
  unfold fileSubjects
  by_cases hbound : Bound receipt
  · rw [if_neg (fun h => artifactBinding_eq_unavailable.mp h hbound)]
    obtain ⟨provenance, hprovenance, hsome⟩ := hbound
    have hlisted : listedArtifacts receipt = .ok provenance.artifacts := by
      unfold listedArtifacts
      rw [Option.mem_def.mp hprovenance]
    have hlists : ∀ path digest, Lists receipt ⟨digest, path⟩ ↔ ∃ artifact ∈ provenance.artifacts,
        artifact.kind = "file" ∧ artifact.path = path ∧ artifact.digest = digest := by
      intro path digest
      rw [Lists, Option.mem_def.mp hprovenance]
      simp
    simp only [except_bind_eq_ok, hlisted, Except.ok.injEq, exists_eq_left']
    constructor
    · intro h
      obtain ⟨_, hinventory, h⟩ := h
      obtain ⟨hone, hfiles, _, hmade⟩ := of_foldlM_addSubject h
      refine ⟨⟨fun _ => hinventory, ?_⟩, ?_⟩
      · intro other hother
        obtain rfl := Option.mem_unique hprovenance hother
        exact hone
      · intro path digest
        rw [hlists]
        constructor
        · intro hlookup
          exact (hmade path digest hlookup).resolve_left (by simp [SortedMap.lookup_empty])
        · intro hexists
          obtain ⟨artifact, hartifact, hkind, rfl, rfl⟩ := hexists
          exact hfiles artifact hartifact hkind
    · intro h
      obtain ⟨⟨hinventory, hone⟩, hlookup⟩ := h
      obtain ⟨made, hmade⟩ := foldlM_addSubject (hone provenance hprovenance)
        (fun _ _ _ _ h => nomatch h : ∀ artifact ∈ _, _ → ∀ digest ∈ SortedMap.empty.lookup _, _)
      refine ⟨(), hinventory ⟨provenance, hprovenance, hsome⟩, ?_⟩
      obtain ⟨_, hfiles, _, hback⟩ := of_foldlM_addSubject hmade
      rw [hmade]
      refine congrArg Except.ok (SortedMap.ext_lookup ?_)
      intro path
      apply Option.ext
      intro digest
      rw [hlookup path digest, hlists]
      constructor
      · intro hfound
        exact (hback path digest hfound).resolve_left (by simp [SortedMap.lookup_empty])
      · intro hexists
        obtain ⟨artifact, hartifact, hkind, rfl, rfl⟩ := hexists
        exact hfiles artifact hartifact hkind
  · rw [if_pos (artifactBinding_eq_unavailable.mpr hbound), Except.ok.injEq]
    have hnone : ∀ provenance ∈ receipt.provenance, provenance.artifacts = [] := by
      intro provenance hprovenance
      by_contra hsome
      exact hbound ⟨provenance, hprovenance, hsome⟩
    have hlists : ∀ descriptor, ¬ Lists receipt descriptor := by
      intro descriptor h
      obtain ⟨provenance, hprovenance, artifact, hartifact, _⟩ := h
      rw [hnone provenance hprovenance] at hartifact
      cases hartifact
    constructor
    · intro h
      rw [← h]
      refine ⟨⟨fun h => absurd h hbound, ?_⟩, ?_⟩
      · intro provenance hprovenance
        rw [hnone provenance hprovenance]
        intro artifact hartifact
        cases hartifact
      · intro path digest
        simp [SortedMap.lookup_empty, hlists]
    · intro h
      refine SortedMap.ext_lookup ?_
      intro path
      apply Option.ext
      intro digest
      simp [SortedMap.lookup_empty, h.2, hlists]

/-- What a statement says of its receipt. -/
structure Projects (receipt : Receipt) (original : OriginalEvidence) (statement : Statement) :
    Prop where
  type : statement.type = statementType
  predicateType : statement.predicateType = Projection.predicateType
  evidence : statement.predicate.evidence = some original
  buildType : statement.predicate.buildType = Projection.buildType
  pipelineHash : statement.predicate.pipelineHash = receipt.pipelineHash
  /-- Input manifests are no resources. -/
  resolvedDependencies : statement.predicate.resolvedDependencies = []
  /-- The builder is the workflow that was verified, and no other is named. -/
  builder : statement.predicate.builder =
    (original.workflow.map IdentityVerification.workflow).getD unknownBuilder
  finishedOn : statement.predicate.finishedOn = rfc3339 receipt.timestamp
  startedOn : ∃ started, startedAt receipt = .ok started ∧
    statement.predicate.startedOn = rfc3339 started
  invocationId : statement.predicate.invocationId = original.receipt.sha256
  /-- Each file once, in the order of the paths. -/
  sorted : (statement.subject.map ResourceDescriptor.name).Pairwise (· < ·)
  subject : ∀ descriptor, descriptor ∈ statement.subject ↔ Lists receipt descriptor

/-- The subjects that a map of paths stands for. -/
theorem mem_subjects {descriptor : ResourceDescriptor} :
    descriptor ∈ subjects.entries.map (fun entry => ResourceDescriptor.mk entry.2 entry.1) ↔
      subjects.lookup descriptor.name = some descriptor.blake3 := by
  rw [SortedMap.lookup_eq_some, List.mem_map]
  constructor
  · intro h
    obtain ⟨entry, hentry, rfl⟩ := h
    exact hentry
  · intro h
    exact ⟨_, h, rfl⟩

/-- **A statement is the projection of a receipt exactly when it says of it what it should.** -/
theorem projectReceipt_eq_ok : projectReceipt c receipt evidence = .ok statement ↔
    Nameable c receipt ∧ Projects receipt evidence statement := by
  simp only [projectReceipt, except_bind_eq_ok, pure, Except.pure, Except.ok.injEq]
  constructor
  · intro h
    obtain ⟨subjects, hsubjects, started, hstarted, rfl⟩ := h
    obtain ⟨hnameable, hlookup⟩ := fileSubjects_eq_ok.mp hsubjects
    refine ⟨hnameable, rfl, rfl, rfl, rfl, rfl, rfl, ?_, rfl, ⟨started, hstarted, rfl⟩, rfl, ?_, ?_⟩
    · cases evidence.workflow <;> rfl
    · rw [List.map_map, List.pairwise_map]
      exact subjects.sorted
    · intro descriptor
      rw [mem_subjects, hlookup]
  · intro h
    obtain ⟨hnameable, h⟩ := h
    obtain ⟨started, hstarted, hstartedOn⟩ := h.startedOn
    have hsorted : (statement.subject.map fun d => (d.name, d.blake3)).Pairwise
        fun a b => a.1 < b.1 := by
      rw [List.pairwise_map]
      exact List.pairwise_map.mp h.sorted
    refine ⟨⟨_, hsorted⟩, fileSubjects_eq_ok.mpr ⟨hnameable, ?_⟩, started, hstarted, ?_⟩
    · intro path digest
      rw [SortedMap.lookup_eq_some, ← h.subject ⟨digest, path⟩, List.mem_map]
      constructor
      · intro hentry
        obtain ⟨descriptor, hdescriptor, hsame⟩ := hentry
        obtain ⟨rfl, rfl⟩ := Prod.mk.inj hsame
        exact hdescriptor
      · intro hdescriptor
        exact ⟨_, hdescriptor, rfl⟩
    · have hback : (statement.subject.map fun d : ResourceDescriptor => (d.name, d.blake3)).map
          (fun entry => ResourceDescriptor.mk entry.2 entry.1) = statement.subject := by
        rw [List.map_map]
        exact List.map_id' _
      simp only [hback]
      obtain ⟨type, ⟨_, _, _, _, _, _, _, _⟩, predicateType, subject⟩ := statement
      rw [Statement.mk.injEq, Predicate.mk.injEq]
      refine ⟨h.type.symm, ⟨h.evidence.symm, h.buildType.symm, h.pipelineHash.symm,
        h.resolvedDependencies.symm, ?_, h.finishedOn.symm, h.invocationId.symm, hstartedOn.symm⟩,
        h.predicateType.symm, rfl⟩
      have hbuilder := h.builder
      refine Eq.trans ?_ hbuilder.symm
      cases evidence.workflow <;> rfl

end Project

end Attest.Interop.Projection
