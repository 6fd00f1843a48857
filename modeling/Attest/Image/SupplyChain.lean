import Attest.Image.Signing
import Attest.Verify.Checks

/-! Verifying an image, after `crypto/supply_chain.rs`.

What is attached to an image is inspected as JSON, of one platform or of several, and the
documents in it are collected. `checkDocuments_ok` says that a check holds of all of them and that
there is one, `platforms_covered` which of what was inspected that is. -/
namespace Attest.Image
open Library Library.Fallible
open Trust (Bytes)
open Verify (Check CheckStatus Requirement Unmet PolicyOutcome)

/-! ### JSON -/

/-- `serde_json::Value`. -/
inductive Value
  | null
  | bool (b : Bool)
  | number (text : String)
  | string (text : String)
  | array (items : List Value)
  | object (fields : List (String × Value))

namespace Value

/-- `Value::get` of a name. -/
def get (key : String) : Value → Option Value
  | object fields => fields.lookup key
  | _ => none

/-- `Value::pointer`, by names of which none is an index. -/
def pointer (value : Value) (names : List String) : Option Value :=
  names.foldlM (fun v name => v.get name) value

def asStr : Value → Option String
  | string text => some text
  | _ => none

def isString (value : Value) : Bool := value.asStr.isSome

def isNonemptyString (value : Value) : Bool := value.asStr.any (· ≠ "")

def isObject : Value → Bool
  | object _ => true
  | _ => false

def isArray : Value → Bool
  | array _ => true
  | _ => false

def isNonemptyArray : Value → Bool
  | array items => !items.isEmpty
  | _ => false

end Value

/-! ### Documents -/

/-- The one document under the key, or those of the platforms. -/
def collectDocuments (value : Value) (key : String) : List Value :=
  match value with
  | .object fields =>
    match fields.lookup key with
    | some document => [document]
    | none => fields.filterMap fun platform => platform.2.get key
  | _ => []

def validateSpdxDocument (document : Value) : Except String Unit := do
  refuseIf ((document.get "SPDXID").bind Value.asStr ≠ some "SPDXRef-DOCUMENT")
    "SPDXID is not \"SPDXRef-DOCUMENT\""
  refuseIf ((document.get "spdxVersion").any Value.isString = false) "spdxVersion is not a string"
  refuseIf ((document.pointer ["creationInfo", "created"]).any Value.isString = false)
    "creationInfo.created is not a string"
  refuseIf ((document.get "packages").any Value.isArray = false) "packages is not an array"

def validSlsaV02 (document : Value) : Bool :=
  (document.get "buildType").any Value.isNonemptyString &&
    (document.get "builder").any Value.isObject &&
    (document.get "invocation").any Value.isObject &&
    (document.pointer ["metadata", "buildStartedOn"]).any Value.isString &&
    (document.pointer ["metadata", "buildFinishedOn"]).any Value.isString &&
    (document.get "materials").any Value.isNonemptyArray

def validSlsaV1 (document : Value) : Bool :=
  (document.pointer ["buildDefinition", "buildType"]).any Value.isNonemptyString &&
    (document.pointer ["buildDefinition", "externalParameters"]).any Value.isObject &&
    (document.pointer ["buildDefinition", "resolvedDependencies"]).any Value.isNonemptyArray &&
    (document.pointer ["runDetails", "builder"]).any Value.isObject &&
    (document.pointer ["runDetails", "metadata", "startedOn"]).any Value.isString &&
    (document.pointer ["runDetails", "metadata", "finishedOn"]).any Value.isString &&
    (document.pointer ["runDetails", "metadata", "invocationId"]).any Value.isNonemptyString

/-- The revision that buildkit records in a SLSA v1 document. -/
def slsaV1Revision (document : Value) : Option String :=
  (document.pointer ["runDetails", "metadata", "buildkit_metadata", "vcs", "revision"]).bind
    Value.asStr

def validateSlsaDocument (document : Value) : Except String Unit :=
  refuseIf (validSlsaV02 document = false ∧ validSlsaV1 document = false)
    "document satisfies neither the SLSA v0.2 nor the SLSA v1 field set"

/-! ### Checks -/

/-- That there are documents, and that each is valid. -/
def checkDocuments (missing label : String) (validate : Value → Except String Unit)
    (documents : List Value) : Except String Nat := do
  refuseIf (documents.isEmpty = true) missing
  documents.zipIdx.forM fun numbered =>
    (validate numbered.1).mapError (s!"{label} document {numbered.2}: " ++ ·)
  return documents.length

def checkSbom (sbom : Value) : Except String Nat :=
  checkDocuments "no SPDX document attached to the image" "SPDX" validateSpdxDocument
    (collectDocuments sbom "SPDX")

def checkProvenance (provenance : Value) : Except String Nat :=
  checkDocuments "no SLSA provenance document attached to the image" "SLSA" validateSlsaDocument
    (collectDocuments provenance "SLSA")

/-- How many documents of SLSA v1 record the revision, where none records another. -/
def compareRevisions (expected : String) : List Value → Nat → Except String Nat
  | [], compared => .ok compared
  | document :: rest, compared =>
    if validSlsaV1 document then
      match slsaV1Revision document with
      | some actual =>
        if actual = expected then compareRevisions expected rest (compared + 1)
        else .error
          s!"provenance revision mismatch: expected {expected}, provenance has {actual}"
      | none =>
        .error s!"SLSA v1 document has no buildkit vcs.revision (expected {expected})"
    else compareRevisions expected rest compared

def checkRevisionBinding (provenance : Value) (expected : String) : Except String (Option Nat) := do
  let compared ← compareRevisions expected (collectDocuments provenance "SLSA") 0
  return if compared = 0 then none else some compared

/-! ### The report -/

structure SupplyChainRequest where
  imageRef : String
  requireSbom : Bool
  requireProvenance : Bool
  expectedRevision : Option String
  keyUri : Option String
  certificateIdentity : Option String
  certificateOidcIssuer : Option String
deriving DecidableEq

namespace SupplyChainRequest

/-- The identity a signature is held to: nothing less than a certificate identity and its issuer. -/
def identity (request : SupplyChainRequest) : Option (String × String) :=
  match request.certificateIdentity, request.certificateOidcIssuer with
  | some identity, some issuer => some (identity, issuer)
  | _, _ => none

def signatureRequested (request : SupplyChainRequest) : Bool :=
  request.keyUri.isSome ||
    request.certificateIdentity.isSome && request.certificateOidcIssuer.isSome

def required (request : SupplyChainRequest) : List Requirement :=
  (if request.requireSbom then [.sbom] else []) ++
    (if request.requireProvenance then [.provenance] else []) ++
    (if request.expectedRevision.isSome then [.revision] else []) ++
    if request.signatureRequested then [.signature] else []

end SupplyChainRequest

inductive Signer
  | key (key : String)
  | identity (identity issuer : String)

structure SupplyChainReport where
  image : String
  verdict : String
  checks : List Check
  policy : PolicyOutcome

/-- `docker`, and `cosign` where a signature is verified. -/
structure SupplyChainVerifier where
  run : String → List String → Except String Output
  lossy : Bytes → String
  /-- `serde_json::from_slice`. -/
  fromSlice : Bytes → Except String Value
  docker : String
  cosign : String
  /-- The public half of a key, in a file of its own. -/
  exportKmsPublicKey : String → String → Except SignFailure String

section Report
variable (verifier : SupplyChainVerifier) (request : SupplyChainRequest)

def trimmed (bytes : Bytes) : String :=
  String.ofList (Trust.trimChars (verifier.lossy bytes).toList)

def inspect (imageRef field : String) : Except SignFailure Value := do
  let output ← (verifier.run verifier.docker ["buildx", "imagetools", "inspect", imageRef,
    "--format", "\x7b\x7bjson ." ++ field ++ "\x7d\x7d"]).mapError fun e =>
      .operational ("failed to execute docker: " ++ e)
  refuseIf (output.success = false) (.operational ("docker buildx imagetools inspect failed for " ++
    imageRef ++ ": " ++ trimmed verifier output.stderr))
  (verifier.fromSlice output.stdout).mapError fun e =>
    .operational (s!"cannot parse imagetools {field} JSON: " ++ e)

def verifySignature (signer : Signer) : Except String Unit := do
  let signerArgs := match signer with
    | .key key => ["--key", key]
    | .identity identity issuer =>
      ["--certificate-identity", identity, "--certificate-oidc-issuer", issuer]
  let revisionArgs := match request.expectedRevision with
    | some revision => ["-a", s!"{revisionAnnotationKey}={revision}"]
    | none => []
  let output ← (verifier.run verifier.cosign
    ("verify" :: signerArgs ++ revisionArgs ++ [request.imageRef])).mapError
      ("failed to execute cosign verify: " ++ ·)
  refuseIf (output.success = false)
    ("cosign verify failed: " ++ trimmed verifier output.stderr)

/-- The status of a check and what it says, from what it found. -/
def resultOf {α : Type} (name : String) (detail : α → String) : Except String α → Check
  | .ok found => ⟨name, .pass, detail found⟩
  | .error detail => ⟨name, .fail, detail⟩

def sbomResult (sbom : Value) : Check :=
  resultOf "sbom" (fun count => s!"{count} valid SPDX document(s)") (checkSbom sbom)

def provenanceResult (provenance : Value) : Check :=
  resultOf "provenance" (fun count => s!"{count} valid SLSA document(s)")
    (checkProvenance provenance)

/-- A revision that nothing records is not passed over. -/
def revisionResult (provenance : Value) (expected : String) : Check :=
  match checkRevisionBinding provenance expected with
  | .ok (some count) =>
    ⟨"revision", .pass, s!"{count} SLSA v1 document(s) record revision {expected}"⟩
  | .ok none =>
    ⟨"revision", .fail,
      s!"no SLSA v1 document carries a vcs.revision to compare against {expected}"⟩
  | .error detail => ⟨"revision", .fail, detail⟩

def sbomCheck : Except SignFailure Check :=
  if request.requireSbom then do
    let sbom ← inspect verifier request.imageRef "SBOM"
    return sbomResult sbom
  else .ok ⟨"sbom", .skipped, "not enforced (pass --require-sbom)"⟩

/-- Both checks of the provenance, which is inspected once. -/
def provenanceChecks : Except SignFailure (List Check) := do
  let structureOf (check : Check) : Check :=
    if request.requireProvenance then check
    else ⟨"provenance", .skipped, "not enforced (pass --require-provenance)"⟩
  match request.requireProvenance, request.expectedRevision with
  | _, some expected =>
    let provenance ← inspect verifier request.imageRef "Provenance"
    return [structureOf (provenanceResult provenance), revisionResult provenance expected]
  | true, none =>
    let provenance ← inspect verifier request.imageRef "Provenance"
    return [structureOf (provenanceResult provenance),
      ⟨"revision", .skipped, "not enforced (pass --expected-revision)"⟩]
  | false, none =>
    return [⟨"provenance", .skipped, "not enforced (pass --require-provenance)"⟩,
      ⟨"revision", .skipped, "not enforced (pass --expected-revision)"⟩]

def signer : Option Signer :=
  match request.keyUri with
  | some key => some (.key key)
  | none => request.identity.map fun pinned => .identity pinned.1 pinned.2

def signatureDetail (signer : Signer) : String :=
  let binding := match request.expectedRevision with
    | some revision => s!" with {revisionAnnotationKey}={revision}"
    | none => ""
  match signer with
  | .key _ => "cosign signature valid" ++ binding
  | .identity identity issuer => s!"cosign signature valid for {identity} issued by {issuer}" ++ binding

def signatureCheck : Except SignFailure Check :=
  match signer request with
  | some signer => do
    let signer ← match signer with
      | .key key =>
        if kmsScheme.isPrefixOf key.toList then do
          let path ← verifier.exportKmsPublicKey verifier.cosign key
          pure (Signer.key path)
        else pure signer
      | .identity _ _ => pure signer
    return resultOf "signature" (fun () => signatureDetail request signer)
      (verifySignature verifier request signer)
  | none => .ok ⟨"signature", .skipped,
      "not enforced (pass --key, or --certificate-identity with --certificate-oidc-issuer)"⟩

def validateRequest : Except SignFailure Unit := do
  validateDigestRef request.imageRef
  match request.expectedRevision with
  | some revision => validateRevision revision
  | none => .ok ()

def unmetOf (checks : List Check) (required : List Requirement) : List Unmet :=
  required.filterMap fun requirement =>
    (checks.find? fun c => c.name = requirement.name).bind fun check =>
      if check.status = .pass then none
      else some ⟨requirement, s!"{check.name} check failed: {check.detail}"⟩

def verify : Except SignFailure SupplyChainReport := do
  validateRequest request
  let sbom ← sbomCheck verifier request
  let provenance ← provenanceChecks verifier request
  let signature ← signatureCheck verifier request
  let checks := sbom :: provenance ++ [signature]
  let unmet := unmetOf checks request.required
  let verdict :=
    if (checks.any fun c => c.status = .fail) || !unmet.isEmpty then "fail" else "pass"
  return ⟨request.imageRef, verdict, checks, ⟨request.required, unmet⟩⟩

end Report

/-! ### What the checks promise -/

theorem mem_collectDocuments {fields : List (String × Value)} {key : String} {d : Value} :
    d ∈ collectDocuments (.object fields) key ↔ fields.lookup key = some d ∨
      fields.lookup key = none ∧ ∃ platform ∈ fields, platform.2.get key = some d := by
  rw [collectDocuments]
  cases h : fields.lookup key with
  | none => simp
  | some document => simp [eq_comm]

theorem checkDocuments_ok {missing label : String} {validate : Value → Except String Unit}
    {documents : List Value} {n : Nat} :
    checkDocuments missing label validate documents = .ok n ↔
      n = documents.length ∧ documents ≠ [] ∧ ∀ d ∈ documents, validate d = .ok () := by
  have heach : (documents.zipIdx.forM fun numbered =>
      (validate numbered.1).mapError (s!"{label} document {numbered.2}: " ++ ·)) = .ok () ↔
      ∀ d ∈ documents, validate d = .ok () := by
    rw [forM_eq_ok]
    constructor
    · intro h d hd
      obtain ⟨i, hi, rfl⟩ := List.getElem_of_mem hd
      exact mapError_eq_ok.mp (h (documents[i], i) (List.mk_mem_zipIdx_iff_getElem?.mpr (by simp)))
    · intro h numbered hnumbered
      exact mapError_eq_ok.mpr (h _ (List.fst_mem_of_mem_zipIdx hnumbered))
  rw [checkDocuments, except_bind_eq_ok]
  constructor
  · intro h
    obtain ⟨_, hsome, h⟩ := h
    obtain ⟨_, hvalid, h⟩ := except_bind_eq_ok.mp h
    cases h
    refine ⟨rfl, ?_, heach.mp hvalid⟩
    simpa using refuseIf_eq_ok.mp hsome
  · intro h
    obtain ⟨rfl, hsome, hvalid⟩ := h
    refine ⟨(), refuseIf_eq_ok.mpr (by simpa using hsome), ?_⟩
    rw [heach.mpr hvalid, except_ok_bind]
    rfl

theorem compareRevisions_ok {expected : String} {documents : List Value} {compared n : Nat} :
    compareRevisions expected documents compared = .ok n ↔
      n = compared + (documents.filter validSlsaV1).length ∧
        ∀ d ∈ documents, validSlsaV1 d = true → slsaV1Revision d = some expected := by
  induction documents generalizing compared with
  | nil =>
    rw [compareRevisions, Except.ok.injEq, eq_comm]
    simp
  | cons d rest ih =>
    rw [compareRevisions, List.forall_mem_cons, List.filter_cons]
    by_cases hv1 : validSlsaV1 d = true
    · rw [if_pos hv1, if_pos hv1, List.length_cons]
      cases hrevision : slsaV1Revision d with
      | none => simp [hv1]
      | some actual =>
        by_cases hsame : actual = expected
        · simp only [hsame, if_true, ih]
          rw [Nat.add_assoc, Nat.add_comm 1]
          simp
        · simp [hsame, hv1]
    · rw [if_neg hv1, if_neg hv1, ih]
      simp [hv1]

theorem status_resultOf {α : Type} {name : String} {detail : α → String} {found : Except String α} :
    (resultOf name detail found).status = .pass ↔ ∃ a, found = .ok a := by
  cases found <;> simp [resultOf]

theorem checkSbom_ok {inspected : Value} : (∃ n, checkSbom inspected = .ok n) ↔
    collectDocuments inspected "SPDX" ≠ [] ∧
      ∀ d ∈ collectDocuments inspected "SPDX", validateSpdxDocument d = .ok () := by
  simp [checkSbom, checkDocuments_ok]

theorem checkProvenance_ok {inspected : Value} : (∃ n, checkProvenance inspected = .ok n) ↔
    collectDocuments inspected "SLSA" ≠ [] ∧
      ∀ d ∈ collectDocuments inspected "SLSA", validateSlsaDocument d = .ok () := by
  simp [checkProvenance, checkDocuments_ok]

theorem checkRevisionBinding_ok {inspected : Value} {expected : String} :
    (∃ n, checkRevisionBinding inspected expected = .ok (some n)) ↔
      (∃ d ∈ collectDocuments inspected "SLSA", validSlsaV1 d = true) ∧
        ∀ d ∈ collectDocuments inspected "SLSA", validSlsaV1 d = true →
          slsaV1Revision d = some expected := by
  rw [← List.length_filter_pos_iff]
  constructor
  · intro h
    obtain ⟨n, h⟩ := h
    obtain ⟨compared, hcompared, h⟩ := except_bind_eq_ok.mp h
    obtain ⟨hcount, hall⟩ := compareRevisions_ok.mp hcompared
    refine ⟨Nat.pos_of_ne_zero fun hzero => ?_, hall⟩
    rw [hcount, hzero] at h
    cases h
  · intro h
    obtain ⟨hpos, hall⟩ := h
    refine ⟨((collectDocuments inspected "SLSA").filter validSlsaV1).length,
      except_bind_eq_ok.mpr ⟨_, compareRevisions_ok.mpr ⟨rfl, hall⟩, ?_⟩⟩
    rw [Nat.zero_add, if_neg hpos.ne']
    rfl

theorem status_revisionResult {inspected : Value} {expected : String} :
    (revisionResult inspected expected).status = .pass ↔
      ∃ n, checkRevisionBinding inspected expected = .ok (some n) := by
  rw [revisionResult]
  split <;> simp_all

/-- A check passes when there is a document and each that was collected holds: of an object with
the key the one under it, else those of the platforms that carry the key. The revision is compared
where a document has the fields of SLSA v1, and there is one. -/
theorem platforms_covered (inspected : Value) :
    ((sbomResult inspected).status = .pass ↔ collectDocuments inspected "SPDX" ≠ [] ∧
      ∀ d ∈ collectDocuments inspected "SPDX", validateSpdxDocument d = .ok ()) ∧
    ((provenanceResult inspected).status = .pass ↔ collectDocuments inspected "SLSA" ≠ [] ∧
      ∀ d ∈ collectDocuments inspected "SLSA", validateSlsaDocument d = .ok ()) ∧
    (∀ expected, (revisionResult inspected expected).status = .pass ↔
      (∃ d ∈ collectDocuments inspected "SLSA", validSlsaV1 d = true) ∧
        ∀ d ∈ collectDocuments inspected "SLSA", validSlsaV1 d = true →
          slsaV1Revision d = some expected) ∧
    ∀ (fields : List (String × Value)) (key : String) (d : Value),
      d ∈ collectDocuments (.object fields) key ↔ fields.lookup key = some d ∨
        fields.lookup key = none ∧ ∃ platform ∈ fields, platform.2.get key = some d := by
  refine ⟨?_, ?_, fun expected => ?_, fun fields key d => mem_collectDocuments⟩
  · rw [sbomResult, status_resultOf, checkSbom_ok]
  · rw [provenanceResult, status_resultOf, checkProvenance_ok]
  · rw [status_revisionResult, checkRevisionBinding_ok]

/-! ### A report that passes -/

section Passed
variable {verifier : SupplyChainVerifier} {request : SupplyChainRequest} {checks : List Check}

theorem pass_of_not_fail {α : Type} {name : String} {detail : α → String} {found : Except String α}
    (h : (resultOf name detail found).status ≠ .fail) :
    (resultOf name detail found).status = .pass := by
  cases found with
  | ok a => rfl
  | error e => exact absurd rfl h

theorem revisionResult_pass {inspected : Value} {expected : String}
    (h : (revisionResult inspected expected).status ≠ .fail) :
    (revisionResult inspected expected).status = .pass := by
  rw [revisionResult] at h ⊢
  split at h
  · rfl
  · exact absurd rfl h
  · exact absurd rfl h

theorem sbomCheck_ok {check : Check} (h : sbomCheck verifier request = .ok check)
    (hrequired : request.requireSbom = true) :
    ∃ sbom, inspect verifier request.imageRef "SBOM" = .ok sbom ∧ check = sbomResult sbom := by
  rw [sbomCheck, if_pos hrequired] at h
  obtain ⟨sbom, hsbom, h⟩ := except_bind_eq_ok.mp h
  cases h
  exact ⟨sbom, hsbom, rfl⟩

theorem provenanceChecks_structure (h : provenanceChecks verifier request = .ok checks)
    (hrequired : request.requireProvenance = true) :
    ∃ provenance, inspect verifier request.imageRef "Provenance" = .ok provenance ∧
      provenanceResult provenance ∈ checks := by
  rw [provenanceChecks, hrequired] at h
  cases hexpected : request.expectedRevision with
  | none | some _ =>
    rw [hexpected] at h
    obtain ⟨provenance, hprovenance, h⟩ := except_bind_eq_ok.mp h
    cases h
    exact ⟨provenance, hprovenance, List.mem_cons_self⟩

theorem provenanceChecks_revision {expected : String}
    (h : provenanceChecks verifier request = .ok checks)
    (hexpected : request.expectedRevision = some expected) :
    ∃ provenance, inspect verifier request.imageRef "Provenance" = .ok provenance ∧
      revisionResult provenance expected ∈ checks := by
  rw [provenanceChecks, hexpected] at h
  obtain ⟨provenance, hprovenance, h⟩ := except_bind_eq_ok.mp h
  cases h
  exact ⟨provenance, hprovenance, List.mem_cons_of_mem _ List.mem_cons_self⟩

/-- A report that passes has looked at what was required, and what it looked at passed. -/
theorem verify_passed {report : SupplyChainReport} (h : verify verifier request = .ok report)
    (hpass : report.verdict = "pass") :
    (request.requireSbom = true → ∃ sbom, inspect verifier request.imageRef "SBOM" = .ok sbom ∧
      (sbomResult sbom).status = .pass) ∧
    (request.requireProvenance = true → ∃ provenance,
      inspect verifier request.imageRef "Provenance" = .ok provenance ∧
        (provenanceResult provenance).status = .pass) ∧
    ∀ expected, request.expectedRevision = some expected → ∃ provenance,
      inspect verifier request.imageRef "Provenance" = .ok provenance ∧
        (revisionResult provenance expected).status = .pass := by
  obtain ⟨_, -, h⟩ := except_bind_eq_ok.mp h
  obtain ⟨sbom, hsbom, h⟩ := except_bind_eq_ok.mp h
  obtain ⟨provenance, hprovenance, h⟩ := except_bind_eq_ok.mp h
  obtain ⟨signature, -, h⟩ := except_bind_eq_ok.mp h
  cases h
  have hnone : ∀ c ∈ sbom :: provenance ++ [signature], c.status ≠ .fail := by
    intro c hc hfail
    have hany : ((sbom :: provenance ++ [signature]).any fun c => c.status = .fail) = true :=
      List.any_eq_true.mpr ⟨c, hc, decide_eq_true hfail⟩
    simp only [hany, Bool.true_or, if_true] at hpass
    exact absurd hpass (by decide)
  refine ⟨?_, ?_, ?_⟩
  · intro hrequired
    obtain ⟨inspected, hinspected, rfl⟩ := sbomCheck_ok hsbom hrequired
    exact ⟨inspected, hinspected, pass_of_not_fail (hnone _ List.mem_cons_self)⟩
  · intro hrequired
    obtain ⟨inspected, hinspected, hmem⟩ := provenanceChecks_structure hprovenance hrequired
    exact ⟨inspected, hinspected, pass_of_not_fail (hnone _
      (List.mem_append_left _ (List.mem_cons_of_mem _ hmem)))⟩
  · intro expected hexpected
    obtain ⟨inspected, hinspected, hmem⟩ := provenanceChecks_revision hprovenance hexpected
    exact ⟨inspected, hinspected, revisionResult_pass (hnone _
      (List.mem_append_left _ (List.mem_cons_of_mem _ hmem)))⟩

end Passed

/-! ### Platforms and documents that are passed over -/

def spdxDocument : Value :=
  .object [("SPDXID", .string "SPDXRef-DOCUMENT"), ("spdxVersion", .string "SPDX-2.3"),
    ("creationInfo", .object [("created", .string "2026-08-01T00:00:00Z")]), ("packages", .array [])]

def slsaV02Document : Value :=
  .object [("buildType", .string "buildkit"), ("builder", .object []), ("invocation", .object []),
    ("metadata", .object [("buildStartedOn", .string "t"), ("buildFinishedOn", .string "t")]),
    ("materials", .array [.null])]

def slsaV1Document (revision : String) : Value :=
  .object [
    ("buildDefinition", .object [("buildType", .string "buildkit"),
      ("externalParameters", .object []), ("resolvedDependencies", .array [.null])]),
    ("runDetails", .object [("builder", .object []), ("metadata", .object [
      ("startedOn", .string "t"), ("finishedOn", .string "t"), ("invocationId", .string "i"),
      ("buildkit_metadata", .object [("vcs", .object [("revision", .string revision)])])])])]

def twoPlatforms (amd64 arm64 : List (String × Value)) : Value :=
  .object [("linux/amd64", .object amd64), ("linux/arm64", .object arm64)]

/-- A platform without the key, and a document in the older shape beside one of SLSA v1. -/
theorem platforms_passed_over :
    (sbomResult (twoPlatforms [("SPDX", spdxDocument)] [])).status = .pass ∧
    (provenanceResult (twoPlatforms [("SLSA", slsaV02Document)] [])).status = .pass ∧
    ((revisionResult (twoPlatforms [("SLSA", slsaV1Document "r")] [("SLSA", slsaV02Document)])
        "r").status = .pass ∧
      slsaV02Document ∈ collectDocuments (twoPlatforms [("SLSA", slsaV1Document "r")]
        [("SLSA", slsaV02Document)]) "SLSA" ∧
      slsaV1Revision slsaV02Document = none) := by
  refine ⟨by decide, by decide, by decide, ?_, by decide⟩
  exact mem_collectDocuments.mpr (Or.inr ⟨by decide, ("linux/arm64", .object [("SLSA", slsaV02Document)]),
    List.mem_cons_of_mem _ List.mem_cons_self, by simp [Value.get]⟩)

end Attest.Image
