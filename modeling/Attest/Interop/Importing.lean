import Attest.Archive.Verification
import Attest.Interop.Projection
import Attest.Verify.Policy

/-! Importing an in-toto statement, as `import_statement_file` does it.

A statement of the current build type carries the receipt it was made from, and both are judged:
the envelope by its one signature, the receipt by the recipient's own trust. What the statement
says beside is held against the receipt. An older statement carries no receipt, and establishes
nothing but the signature of its envelope. `importStatement_passes_iff` says which statements a
recipient's import lets pass. -/
namespace Attest.Interop.Projection
open Library Library.Fallible Storage Hashing
open Trust (Bytes Crates DateTime hexEncode)
open Verify
open Evidence (EvidenceError alsoRequire artifactBytes)
open Archive (readReceipt)
open Identity (IdentityHost IdentityPolicy IdentityVerification verifyReceiptIdentity)

/-! ### Options and results -/

structure ImportOptions where
  workspace : String
  trustStore : Option String
  trustStatementTime : Bool
  required : List Requirement
  identityPolicy : Option IdentityPolicy
  /-- The root of the delivered artifacts, in the recipient's files. -/
  artifactRoot : Option Path

/-- The part of the options that the check of the envelope reads. -/
def ImportOptions.ofEnvelope (options : ImportOptions) : Interop.ImportOptions :=
  ⟨options.workspace, options.trustStore, options.trustStatementTime⟩

/-- What an import calls and this model leaves open. -/
structure ImportHost where
  verify : Backend
  /-- `serde_json::from_slice::<Value>`. -/
  readJson : Bytes → Option Json
  /-- `serde_json::from_value::<Envelope>`. -/
  readEnvelope : Json → Except String Envelope
  /-- `serde_json::from_slice::<Statement>`. -/
  readStatement : Bytes → Except String Statement
  /-- `DateTime::parse_from_rfc3339`. -/
  parseRfc3339 : String → Option DateTime
  /-- The recipient's cosign. -/
  identity : IdentityHost
  /-- `{error:#}`. -/
  render : EvidenceError → String

structure IdentityPrincipals where
  evidenceProducer : Option String
  workflow : Option String
  artifactSigner : Option String

structure IdentityOutcome where
  required : Option IdentityPolicy
  verified : Option IdentityVerification
  principals : IdentityPrincipals

structure InteropOutcome where
  projection : Bool
  envelopeSigner : Option String
  originalSigner : Option String
  originalReceiptSha256 : Option String
  originalVerdict : Option ReceiptVerdict
  semantics : List String

/-- The verdict on a statement. -/
structure ImportVerdict extends ReceiptVerdict where
  identity : Option IdentityOutcome
  interop : Option InteropOutcome

def maxStatementBytes : Nat := 16 * 1024 * 1024

section Import
variable (host : ImportHost) (trust : Files) (fs : FileSystem) (options : ImportOptions)
  (now : DateTime)

def effectivePolicy : List Requirement :=
  if options.identityPolicy.isSome then alsoRequire options.required .identity
  else options.required

/-! ### The statement -/

/-- `parse_envelope`. -/
def parseEnvelope (value : Json) : Except String (Envelope × Bytes × Statement) := do
  let envelope ← (host.readEnvelope value).mapError ("not a DSSE envelope: " ++ ·)
  refuseIf (envelope.payloadType ≠ dssePayloadType)
    s!"unsupported payloadType '{envelope.payloadType}' (expected {dssePayloadType})"
  let payload ← Identity.context "payload is not valid base64" (Base64.decode envelope.payload)
  let statement ← (host.readStatement payload).mapError ("payload is not an in-toto statement: " ++ ·)
  refuseIf (statement.type ≠ statementType)
    s!"unsupported statement _type '{statement.type}' (expected {statementType})"
  refuseIf (statement.predicateType ≠ predicateType)
    s!"unsupported predicateType '{statement.predicateType}' (expected {predicateType})"
  return (envelope, payload, statement)

def digestProblem (descriptor : ResourceDescriptor) : List String :=
  if isDigest descriptor.blake3 then []
  else [s!"'{descriptor.name}': blake3 digest is not a 64-char lowercase hex digest"]

def timeProblem (name stamp : String) : List String :=
  if (host.parseRfc3339 stamp).isSome then [] else [s!"{name} is not an RFC 3339 timestamp"]

def consistencyProblems (statement : Statement) : List String :=
  let predicate := statement.predicate
  (if predicate.buildType ≠ buildType ∧ predicate.buildType ≠ legacyBuildType
    then [s!"buildType '{predicate.buildType}' is not the ATTEST pipeline buildType"] else []) ++
  (if isDigest predicate.pipelineHash then []
    else ["pipelineHash is not a 64-char lowercase hex digest"]) ++
  (statement.subject ++ predicate.resolvedDependencies).flatMap digestProblem ++
  (if isDigest predicate.invocationId then []
    else ["invocationId is not a 64-char lowercase hex digest"]) ++
  timeProblem host "startedOn" predicate.startedOn ++
  timeProblem host "finishedOn" predicate.finishedOn ++
  (if predicate.buildType = legacyBuildType ∧
      ¬ "https://alien6.com/attest@v".toList <+: predicate.builder.toList
    then [s!"builder.id '{predicate.builder}' is not an ATTEST builder"] else []) ++
  (if statement.subject = [] ∧ predicate.buildType = legacyBuildType
    then ["statement has an empty subject"] else [])

def consistencyCheck (statement : Statement) : Check :=
  if consistencyProblems host statement = [] then
    ⟨"consistency", .pass, "statement is coherent"⟩
  else ⟨"consistency", .fail, "; ".intercalate (consistencyProblems host statement)⟩

/-- The signature over the payload, judged by the recipient's trust store. -/
def envelopeSignature (envelope : Envelope) (payload : Bytes) (statement : Statement) :
    SignatureVerdict :=
  signatureCheck host.verify.crates trust host.parseRfc3339
    ⟨envelope.payloadType, envelope.signatures⟩ payload ⟨statement.predicate.finishedOn⟩
    options.ofEnvelope

/-! ### The original evidence -/

/-- The receipt that a statement was made from, and the evidence it came in. -/
structure Original where
  evidence : OriginalEvidence
  receiptBytes : Bytes
  receipt : Receipt

/-- A transported trust file is held against its digest, and not read. -/
def openMaterial (entry : String × EmbeddedBlob) : Except EvidenceError Unit := do
  let _ ← entry.2.bytes host.verify.sha256 Evidence.maxIdentityBytes
  return ()

/-- The first part of `verify_original_projection`: the statement is the projection of the receipt
in it. -/
def openOriginal (statement : Statement) : Except EvidenceError Original := do
  let evidence ← given "v2 projection is missing original evidence" statement.predicate.evidence
  refuseIf (evidence.format ≠ evidenceFormat)
    (.message "unsupported original evidence format")
  refuseIf (evidence.receipt.mediaType ≠ "application/yaml")
    (.message "unsupported original receipt media type")
  refuseIf (evidence.semantics ≠ projectionSemantics)
    (.message "projection must explicitly preserve its trust and omission semantics")
  refuseIf (evidence.producer.name = "" ∨ evidence.producer.version = "")
    (.message "missing evidence producer tool identity")
  let receiptBytes ← evidence.receipt.bytes host.verify.sha256 Evidence.maxReceiptBytes
  let receipt ← (readReceipt host.verify receiptBytes).mapError EvidenceError.message
  refuseIf (evidence.originalSigner ≠ receipt.signerPublicKey)
    (.message "original signer identity differs from the original receipt")
  refuseIf (evidence.artifactBinding ≠ artifactBinding receipt)
    (.message "artifact binding claim differs from the original receipt")
  refuseIf (evidence.workflow.isSome ≠ evidence.workflowBundle.isSome)
    (.message "workflow claims require their original cryptographic evidence")
  refuseIf (257 < evidence.trustMaterial.entries.length) (.message "too many transported trust files")
  evidence.trustMaterial.entries.forM (openMaterial host)
  let expected ← projectReceipt host.verify.crates receipt evidence
  -- The two are compared as JSON, which tells them apart where they differ (`json_injective`).
  refuseIf (statement ≠ expected)
    (.message "SLSA projection does not match its original receipt and workflow claims")
  return ⟨evidence, receiptBytes, receipt⟩

/-- How the receipt is verified: by the recipient's trust, its own timestamp never taken. -/
def originalOptions : VerifyOptions where
  checkSignatures := true
  recompute := false
  workspace := options.workspace
  trustStore := options.trustStore
  trustReceiptTimestamp := false
  required := [.signature]

def verifyOriginal (original : Original) : Except EvidenceError ReceiptVerdict :=
  (verifyReceiptBytes host.verify trust original.receiptBytes "embedded original receipt"
    (originalOptions options) now).mapError EvidenceError.message

/-! ### The workflow and the artifacts -/

/-- The recipient's cosign, which reads receipts as the verifier does. -/
def identityHost : IdentityHost := { host.identity with readReceipt := readReceipt host.verify }

def authenticated (original : Original) (policy : IdentityPolicy) :
    Except String IdentityVerification := do
  let bundle ← Identity.context "required workflow identity evidence is missing"
    original.evidence.workflowBundle
  let bytes ← (bundle.bytes host.verify.sha256 Evidence.maxIdentityBytes).mapError host.render
  let identity ← verifyReceiptIdentity (identityHost host) original.receiptBytes bytes policy
  refuseIf (some identity ≠ original.evidence.workflow)
    "projected workflow identity differs from the authenticated certificate"
  return identity

/-- The identity that is verified, where one is asked for. -/
def verifiedIdentity (original : Original) : Option IdentityVerification :=
  options.identityPolicy.bind fun policy => (authenticated host original policy).toOption

def identityCheck (original : Original) : Check :=
  match options.identityPolicy with
  | none => ⟨"identity", .skipped,
      "no recipient identity policy; projected builder workflow is not approved"⟩
  | some policy =>
    match authenticated host original policy with
    | .ok _ => ⟨"identity", .pass,
        "original receipt workflow matches independent recipient policy"⟩
    | .error error => ⟨"identity", .fail, error⟩

def deliveredArtifact (root : Path) (artifact : ArtifactInfo) : Except EvidenceError Unit := do
  let bytes ← artifactBytes fs root artifact
  refuseIf (hexEncode (host.verify.crates.blake3 bytes).toList ≠ artifact.digest)
    (.message s!"delivered artifact {artifact.path} differs from original receipt")

def deliveredArtifacts (original : Original) (root : Path) : Except EvidenceError Unit := do
  refuseIf (artifactBinding original.receipt = "unavailable")
    (.message "original receipt has no signed file inventory")
  let listed ← listedArtifacts original.receipt
  listed.forM (deliveredArtifact host fs root)

def artifactsCheck (original : Original) : Check :=
  match options.artifactRoot with
  | none => ⟨"artifacts", .skipped,
      "artifact bytes were not provided; use --artifact-root and --require artifacts"⟩
  | some root =>
    match deliveredArtifacts host fs original root with
    | .ok () => ⟨"artifacts", .pass, "delivered bytes match the original signed file inventory"⟩
    | .error error => ⟨"artifacts", .fail, host.render error⟩

/-! ### The verdict -/

/-- The checks that the original evidence adds. -/
def originalChecks (original : Original) (nested : ReceiptVerdict) : List Check :=
  [⟨"original-evidence", if nested.passed then .pass else .fail,
    "original receipt verified independently against recipient trust; " ++
      "see interop.original_verdict"⟩] ++
  (nested.checks.find? fun check => check.name == "timestamp").toList ++
  [identityCheck host options original, artifactsCheck host fs options original]

/-- The check at the end, on the envelope and on what is in it. -/
def combinedCheck (statement : Statement) (envelopePassed originalPassed : Bool) : Check where
  name := "signature"
  status := if envelopePassed && originalPassed then .pass else .fail
  detail := if statement.predicate.buildType = buildType then
      "requires both trusted DSSE signature and independently trusted original receipt"
    else "legacy DSSE envelope signature only; original receipt trust is unavailable"

def requestedIdentity : Option IdentityOutcome :=
  options.identityPolicy.map fun policy => ⟨some policy, none, ⟨none, none, none⟩⟩

/-- What every statement that parses gets, of its envelope and its shape. -/
def envelopeVerdict (label : String) (envelope : Envelope) (payload : Bytes) (statement : Statement) :
    ImportVerdict :=
  let signature := envelopeSignature host trust options envelope payload statement
  { receipt := label
    verdict := "fail"
    checks := [⟨"schema", .pass, "DSSE envelope and in-toto statement match schema"⟩,
      consistencyCheck host statement, { signature.check with name := "dsse-signature" }]
    signedBy := signature.signedBy
    warnings := signature.warnings
    trustMaterial := none
    execution := none
    identity := requestedIdentity options
    interop := some ⟨true, signature.signedBy, none, none, none, projectionSemantics⟩ }

/-- The verdict with what the original evidence adds. -/
def ImportVerdict.withOriginal (verdict : ImportVerdict) (original : Original)
    (nested : ReceiptVerdict) : ImportVerdict :=
  let verified := verifiedIdentity host options original
  { verdict with
    checks := verdict.checks ++ originalChecks host fs options original nested
    execution := nested.execution
    trustMaterial := nested.trustMaterial
    identity := some ⟨options.identityPolicy, verified,
      ⟨nested.signedBy, verified.map IdentityVerification.workflow, none⟩⟩
    interop := verdict.interop.map fun outcome =>
      { outcome with
        originalSigner := nested.signedBy
        originalReceiptSha256 := some original.evidence.receipt.sha256
        originalVerdict := some nested }
    warnings := verdict.warnings ++ ["SLSA is a projection; original Attest evidence and its " ++
      "separate verdict are retained; transported trust files never authorize their own signer"] }

/-- `verify_original_projection`, and whether the receipt passed. -/
def verifyOriginalProjection (statement : Statement) (verdict : ImportVerdict) :
    Except EvidenceError (ImportVerdict × Bool) := do
  let original ← openOriginal host statement
  let nested ← verifyOriginal host trust options now original
  return (verdict.withOriginal host fs options original nested, nested.passed)

/-- The checks of a statement that carries no receipt. -/
def legacyChecks : List Check :=
  [⟨"original-evidence", .skipped, "legacy projection carries no original receipt"⟩,
    ⟨"artifacts", .skipped, "legacy step manifest digests do not identify artifact bytes"⟩,
    ⟨"identity", if options.identityPolicy.isSome then .fail else .skipped,
      "legacy projection carries no workflow identity evidence"⟩]

def ImportVerdict.withChecks (verdict : ImportVerdict) (added : List Check) : ImportVerdict :=
  { verdict with checks := verdict.checks ++ added }

/-- The verdict with its evidence looked at, and whether that passed. -/
def judgeEvidence (statement : Statement) (verdict : ImportVerdict) : ImportVerdict × Bool :=
  if statement.predicate.buildType = buildType then
    match verifyOriginalProjection host trust fs options now statement verdict with
    | .ok judged => judged
    | .error error =>
      (verdict.withChecks [⟨"original-evidence", .fail, host.render error⟩], false)
  else
    ({ verdict.withChecks (legacyChecks options) with
        warnings := verdict.warnings ++ ["legacy projection: only the DSSE envelope is verified; " ++
          "original receipt signer, trusted time, workflow, artifact bytes and Attest trust " ++
          "semantics are unavailable"] }, true)

/-- `crate::verify::apply_policy`, on the part that it reads. -/
def ImportVerdict.applied (verdict : ImportVerdict) : ImportVerdict :=
  { verdict with toReceiptVerdict := applyPolicy verdict.toReceiptVerdict (effectivePolicy options) }

/-- The verdict on a statement that parses. -/
def statementVerdict (label : String) (envelope : Envelope) (payload : Bytes) (statement : Statement) :
    ImportVerdict :=
  let envelopePassed :=
    (envelopeSignature host trust options envelope payload statement).check.status == .pass
  let (verdict, originalPassed) := judgeEvidence host trust fs options now statement
    (envelopeVerdict host trust options label envelope payload statement)
  (verdict.withChecks [combinedCheck statement envelopePassed originalPassed]).applied options

/-- The verdict on JSON that is no statement. -/
def unparsedVerdict (label error : String) : ImportVerdict :=
  ImportVerdict.applied options
    { receipt := label, verdict := "fail", checks := [⟨"schema", .fail, error⟩], signedBy := none,
      warnings := [], trustMaterial := none, execution := none
      identity := requestedIdentity options, interop := none }

/-- `import_statement_file`, of the bytes of the file. -/
def importStatement (label : String) (content : Bytes) : Except String ImportVerdict := do
  refuseIf (maxStatementBytes < content.length) s!"cannot read statement file: {label}"
  let value ← Identity.context s!"unreadable JSON in {label}" (host.readJson content)
  match parseEnvelope host value with
  | .error error => return unparsedVerdict options label error
  | .ok (envelope, payload, statement) =>
    return statementVerdict host trust fs options now label envelope payload statement

end Import

end Attest.Interop.Projection
