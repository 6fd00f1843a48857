import Attest.Interop.Importing
import Attest.Trust.Selection

/-! Exporting a receipt as an in-toto statement, as `export_receipt_file` does it.

What is exported is looked at first: a signature that is broken is not carried into another format,
and neither is a list of files that are not there. The public files of the trust store go along,
read in the order the directory gives them. `exported_passes_iff` says what an import asks of a
signed export that its own recipient decides. -/
namespace Attest.Interop.Projection
open Library Library.Fallible Storage Hashing
open Trust (Bytes Crates DateTime SigningKey VerifyingKey Workspace hexEncode keyId keyIdFromHex
  utf8 isFile)
open Trust.KeyStore (selectSigningKey)
open Verify
open Evidence (EvidenceError artifactBytes inventory)
open Archive (readReceipt)
open Identity (IdentityHost IdentityPolicy IdentityVerification verifyReceiptIdentity bounded)

/-! ### Options and results -/

structure ExportOptions where
  allowUnsigned : Bool
  key : Option String
  /-- The workspace root, with the artifacts. -/
  workspace : Path
  identityBundle : Option Path
  identityPolicy : Option IdentityPolicy
  trustStore : Option Path

/-- What an export calls and this model leaves open. -/
structure ExportHost where
  verify : Backend
  /-- `SigningKey::sign`. -/
  sign : SigningKey → Bytes → Vector UInt8 64
  identity : IdentityHost

/-- `env!("CARGO_PKG_VERSION")`. -/
def packageVersion : String := "0.4.0"

inductive ExportOutcome
  | written (json : String) (warnings : List String)
  | unsignedReceipt
  | invalidReceiptSignature (reason : String)
  | noSigningKey (reason : String)

section Export
variable (host : ExportHost) (fs : FileSystem) (keys : Workspace) (options : ExportOptions)

/-! ### The public trust files -/

def endsWith (suffix name : String) : Bool := suffix.toList.isSuffixOf name.toList

/-- The files of a directory of the trust store that are public. -/
def selected (directory name : String) : Bool :=
  if directory = "" then name == "trust.toml" || endsWith ".pub" name
  else if directory = "tsa" then [".crt", ".pem", ".der"].any fun suffix => endsWith suffix name
  else directory == "bundles" && endsWith ".json" name

def maxTrustFileBytes : Nat := 1024 * 1024

def maxSnapshotBytes : Nat := 4 * 1024 * 1024

/-- The files that are taken so far, and their size. -/
structure Snapshot where
  files : SortedMap String EmbeddedBlob
  total : Nat

/-- One entry of a directory. -/
def addTrustFile (directory : String) (snapshot : Snapshot) (entry : Name × Tree) :
    Except EvidenceError Snapshot := do
  let name := Lossy.text entry.1.bytes
  if selected directory name then
    match entry.2 with
    | .file bytes => do
      refuseIf (maxTrustFileBytes < bytes.length) (.message "public trust material is too large")
      let total := snapshot.total + bytes.length
      refuseIf (maxSnapshotBytes < total ∨ 256 ≤ snapshot.files.entries.length)
        (.message "public trust snapshot exceeds size limit")
      let relative := if directory = "" then name else directory ++ "/" ++ name
      return ⟨snapshot.files.insert relative
        (.new host.verify.sha256 bytes "application/octet-stream"), total⟩
    | _ => .error (.message "public trust material is not a regular file")
  else return snapshot

/-- One directory of the store; the store itself is looked at through a link. -/
def addTrustDir (root : Path) (snapshot : Snapshot) (directory : String) :
    Except EvidenceError Snapshot := do
  let path := root.join (Path.ofString directory)
  match entryAt fs true path with
  | .error _ => return snapshot
  | .ok entry =>
    if directory = "" ∧ entry.isDir = false then return snapshot
    else do
      let here ← (if directory = "" then .ok entry else symlinkMetadata fs path).mapError
        (EvidenceError.io "")
      match here with
      | .link _ => .error (.message "public trust directory is a symlink")
      | .dir names child =>
        (names.map fun name => (name, child name)).foldlM (addTrustFile host directory) snapshot
      | .file _ => .error (.io "" .notADirectory)

def publicTrustSnapshot (root : Path) : Except EvidenceError Snapshot :=
  ["", "tsa", "bundles"].foldlM (addTrustDir host fs root) ⟨.empty, 0⟩

/-! ### The receipt -/

def receiptSigned (receipt : Receipt) : Bool :=
  receipt.signature.isSome && receipt.signerPublicKey.isSome

/-- What is wrong with the signature of a receipt that has one. -/
def brokenSignature (receipt : Receipt) : Except EvidenceError (Option String) :=
  match receipt.signature, receipt.signerPublicKey with
  | some signature, some publicKey => do
    let text ← (receiptSigningBytes host.verify.receiptJson receipt).mapError EvidenceError.message
    match verifyWithPublicKey host.verify.crates publicKey (utf8 text) signature with
    | .ok true => return none
    | .ok false => return some "receipt signature does not verify against signer_public_key"
    | .error err => return some s!"malformed receipt signature material: {err}"
  | _, _ => return none

/-- An artifact that stands in the workspace as the receipt has it. -/
def heldArtifact (artifact : ArtifactInfo) : Except EvidenceError Unit := do
  let bytes ← artifactBytes fs options.workspace artifact
  refuseIf (hexEncode (host.verify.crates.blake3 bytes).toList ≠ artifact.digest)
    (.message s!"artifact {artifact.path} differs from the original receipt")

/-- The warning of a receipt that binds no files. -/
def checkHeld (receipt : Receipt) : Except EvidenceError (List String) :=
  if artifactBinding receipt ≠ "unavailable" then do
    inventory host.verify.crates receipt
    let listed ← listedArtifacts receipt
    listed.forM (heldArtifact host fs options)
    return []
  else return ["original receipt has no signed file inventory; artifact binding is unavailable and " ++
    "subject is empty"]

/-- The workflow that the bundle proves of these bytes, and the bundle. -/
def exportedWorkflow (content : Bytes) :
    Except EvidenceError (Option IdentityVerification × Option EmbeddedBlob) :=
  match options.identityBundle, options.identityPolicy with
  | some path, some policy => do
    let file ← (readFile fs path).mapError (EvidenceError.io "")
    let bytes ← (bounded "workflow identity" Identity.maxIdentityBytes file).mapError .message
    let verified ← (verifyReceiptIdentity
      { host.identity with readReceipt := readReceipt host.verify } content bytes policy).mapError
        .message
    return (some verified, some (.new host.verify.sha256 bytes
      "application/vnd.dev.sigstore.bundle.v0.3+json"))
  | _, _ => return (none, none)

/-- The trust files that go along. -/
def exportedTrust (trustDir : Path) : Except EvidenceError (SortedMap String EmbeddedBlob) := do
  let snapshot ← publicTrustSnapshot host fs trustDir
  match options.identityPolicy with
  | none => return snapshot.files
  | some policy => do
    let file ← (host.identity.file policy.trustedRoot).mapError .message
    let root ← (bounded "Sigstore trusted root" Identity.maxIdentityBytes file).mapError .message
    return snapshot.files.insert "sigstore-trusted-root.json"
      (.new host.verify.sha256 root "application/json")

def exportedEvidence (content : Bytes) (receipt : Receipt)
    (trustMaterial : SortedMap String EmbeddedBlob)
    (workflow : Option IdentityVerification × Option EmbeddedBlob) : OriginalEvidence where
  artifactBinding := artifactBinding receipt
  format := evidenceFormat
  originalSigner := receipt.signerPublicKey
  producer := ⟨"continuum-attest", packageVersion⟩
  receipt := .new host.verify.sha256 content "application/yaml"
  semantics := projectionSemantics
  trustMaterial := trustMaterial
  workflow := workflow.1
  workflowBundle := workflow.2

/-! ### The envelope -/

/-- The key that is asked of the store: the one named, or the one of the receipt where its private
half is at hand. -/
def requestedKey (receipt : Receipt) : Except EvidenceError (Option String) :=
  match options.key, receipt.signerPublicKey with
  | some id, _ => .ok (some id)
  | none, some publicKey => do
    let id ← (keyIdFromHex host.verify.crates publicKey).mapError EvidenceError.message
    return if isFile (keys.keys.lookup id) then some id else none
  | none, none => .ok none

/-- An unsigned receipt is not signed for. -/
def envelopeKey (receipt : Receipt) : Except EvidenceError (Option SigningKey) :=
  if receiptSigned receipt then do
    let requested ← requestedKey host keys options receipt
    (selectSigningKey host.verify.crates keys requested).mapError EvidenceError.message
  else return none

def signEnvelope (key : SigningKey) (payload : String) : EnvelopeSignature where
  keyid := keyId host.verify.crates (host.verify.crates.verifyingKey key)
  sig := Base64.encode (host.sign key (pae dssePayloadType (utf8 payload))).toList

def EnvelopeSignature.json (signature : EnvelopeSignature) : Json :=
  .object [("keyid", .text signature.keyid), ("sig", .text signature.sig)]

def Envelope.json (envelope : Envelope) : Json :=
  .object [("payload", .text envelope.payload), ("payloadType", .text envelope.payloadType),
    ("signatures", .array (envelope.signatures.map EnvelopeSignature.json))]

/-- The envelope's key is not the receipt's. -/
def keyWarning (receipt : Receipt) (key : SigningKey) : List String :=
  let verifyingKey := host.verify.crates.verifyingKey key
  match receipt.signerPublicKey with
  | none => []
  | some receiptKey =>
    if hexEncode verifyingKey.bytes.toList = receiptKey then []
    else [s!"DSSE envelope signed by local key {keyId host.verify.crates verifyingKey} but the " ++
      s!"receipt was signed by key {(keyIdFromHex host.verify.crates receiptKey).toOption.getD receiptKey}"]

/-- The signatures of an envelope, with what is said of them; or that no key can sign it. -/
def envelopeSignatures (receipt : Receipt) (payload : String) (key : Option SigningKey) :
    Option (List EnvelopeSignature × List String) :=
  match key with
  | some key => some ([signEnvelope host key payload], keyWarning host receipt key)
  | none =>
    if receiptSigned receipt = false then
      some ([], ["receipt is unsigned; DSSE envelope carries no signatures"])
    else if options.allowUnsigned then
      some ([], ["no local signing key; DSSE envelope carries no signatures"])
    else none

def envelopeText (payload : String) (signatures : List EnvelopeSignature) : String :=
  Json.compact (Envelope.json ⟨Base64.encode (utf8 payload), dssePayloadType, signatures⟩) ++ "\n"

def statementWarnings (statement : Statement) : List String :=
  ["in-toto/SLSA is a projection; original receipt and public trust context are carried in " ++
    "predicate.attest_evidence; recipient trust must be configured independently"] ++
  if statement.subject = [] then ["receipt declares no step outputs; exported subject is empty"]
  else []

/-- The statement of a receipt that may be exported, and the warnings up to it. -/
def exportedStatement (trustDir : Path) (content : Bytes) (receipt : Receipt) :
    Except EvidenceError (Statement × List String) := do
  let warnings ← checkHeld host fs options receipt
  refuseIf (options.identityBundle.isSome ≠ options.identityPolicy.isSome)
    (.message "workflow export requires both --identity-bundle and --identity-policy")
  let workflow ← exportedWorkflow host fs options content
  let trustMaterial ← exportedTrust host fs options trustDir
  let statement ← projectReceipt host.verify.crates receipt
    (exportedEvidence host content receipt trustMaterial workflow)
  return (statement, warnings ++ statementWarnings statement)

/-- The envelope of a statement. -/
def exportStatement (receipt : Receipt) (statement : Statement) (warnings : List String) :
    Except EvidenceError ExportOutcome := do
  let payload := Json.compact statement.json
  let key ← envelopeKey host keys options receipt
  match envelopeSignatures host options receipt payload key with
  | none => return .noSigningKey ("no local private key to sign the DSSE envelope (generate one " ++
      "with 'attest keys generate' or pass --allow-unsigned)")
  | some (signatures, more) => do
    let json := envelopeText payload signatures
    refuseIf (maxStatementBytes < json.utf8ByteSize)
      (.message "exported envelope exceeds the supported statement size limit")
    return .written json (warnings ++ more)

/-- `options.trust_store`, or the workspace's own. -/
def ExportOptions.trustDir : Path :=
  options.trustStore.getD (options.workspace.join (Path.ofString ".attest/trust"))

/-- `export_receipt_file`, of the bytes of the receipt. -/
def exportReceipt (content : Bytes) : Except EvidenceError ExportOutcome := do
  let content ← (bounded "receipt" Identity.maxReceiptBytes content).mapError .message
  let receipt ← (readReceipt host.verify content).mapError .message
  match ← brokenSignature host receipt with
  | some reason => return .invalidReceiptSignature reason
  | none =>
    if receiptSigned receipt = false ∧ options.allowUnsigned = false then return .unsignedReceipt
    else do
      let (statement, warnings) ← exportedStatement host fs options options.trustDir content receipt
      exportStatement host keys options receipt statement warnings

end Export

end Attest.Interop.Projection
