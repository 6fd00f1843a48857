import Attest.Library.Base64
import Attest.Storage.ReceiptFormat
import Attest.Trust.Import
import Attest.Trust.Judgement

/-! Receipt verification, as `verify.rs` has it.

The checks run in order and are reported one by one: schema, consistency, signature,
timestamp, recompute. The token is looked at before the signature, since a revoked key
is judged by the time the token attests. Everything is a function of the receipt's
bytes, the options, the files they lead to and the clock. What `serde`, the token
verifier and the recomputation of a pipeline do is a parameter. -/
namespace Attest.Verify
open Trust Storage Library

/-! ### Options and results -/

inductive Requirement
  | signature
  | timestamp
  | recompute
  | linkage
  | trust
  | success
  | sbom
  | provenance
  | revision
  | identity
  | artifacts
  | capsule
  | logInclusion
  | logConsistency
deriving DecidableEq

def Requirement.name : Requirement → String
  | .signature => "signature"
  | .timestamp => "timestamp"
  | .recompute => "recompute"
  | .linkage => "linkage"
  | .trust => "trust"
  | .success => "success"
  | .sbom => "sbom"
  | .provenance => "provenance"
  | .revision => "revision"
  | .identity => "identity"
  | .artifacts => "artifacts"
  | .capsule => "capsule"
  | .logInclusion => "log-inclusion"
  | .logConsistency => "log-consistency"

structure VerifyOptions where
  checkSignatures : Bool
  recompute : Bool
  workspace : String
  trustStore : Option String
  trustReceiptTimestamp : Bool
  required : List Requirement

inductive CheckStatus
  | pass
  | fail
  | skipped
deriving DecidableEq

structure Check where
  name : String
  status : CheckStatus
  detail : String
deriving DecidableEq

/-- How current the trust material behind a verdict is. -/
structure TrustMaterial where
  state : String
  issuer : Option String := none
  sequence : Option UInt64 := none
  validUntil : Option DateTime := none
  judgedBy : String := "local clock"
deriving DecidableEq

structure ExecutionOutcome where
  outcome : String
  failedSteps : Nat
deriving DecidableEq

structure Unmet where
  requirement : Requirement
  reason : String
deriving DecidableEq

/-- The policy as applied: what was required, and what of that was not established. -/
structure PolicyOutcome where
  required : List Requirement
  unmet : List Unmet
deriving DecidableEq

/-- A verdict on a receipt, without the parts that other surfaces add. -/
structure ReceiptVerdict where
  receipt : String
  verdict : String
  checks : List Check
  signedBy : Option String
  warnings : List String
  trustMaterial : Option TrustMaterial
  execution : Option ExecutionOutcome
  policy : Option PolicyOutcome := none
deriving DecidableEq

def ReceiptVerdict.passed (verdict : ReceiptVerdict) : Bool := verdict.verdict == "pass"

/-! ### The policy -/

def checkReason (verdict : ReceiptVerdict) (name : String) : Option String :=
  match verdict.checks.find? (fun c => c.name == name) with
  | some c =>
    match c.status with
    | .pass => none
    | .fail => some s!"{name} check failed: {c.detail}"
    | .skipped => some s!"{name} check not performed: {c.detail}"
  | none => some s!"no {name} check on this surface"

/-- Why a requirement is not met, when it is not. -/
def unmetReason (verdict : ReceiptVerdict) : Requirement → Option String
  | .linkage => checkReason verdict "chain-linkage"
  | .trust =>
    match verdict.trustMaterial with
    | some material =>
      if material.state = "current" then none
      else some s!"trust material is {material.state}; a current trust bundle is required"
    | none => some "no trust material on this surface"
  | .success =>
    match verdict.execution with
    | some execution =>
      if execution.outcome = "success" then none
      else some (s!"the receipt records a {execution.outcome} with {execution.failedSteps} " ++
        "failed step(s)")
    | none => some "no execution outcome on this surface"
  | requirement => checkReason verdict requirement.name

def applyPolicy (verdict : ReceiptVerdict) (required : List Requirement) : ReceiptVerdict :=
  let unmet := required.filterMap fun requirement =>
    (unmetReason verdict requirement).map (Unmet.mk requirement)
  let failed := verdict.checks.any fun c => c.status == .fail
  { verdict with
    verdict := if failed || !unmet.isEmpty then "fail" else "pass"
    policy := some ⟨required, unmet⟩ }

/-! ### What is given -/

/-- A YAML document, as the verifier reads it: the number under `schema_version`, and the receipt
it is. -/
structure Document where
  schemaVersion : Option UInt64
  receipt : Except String Receipt

/-- What the verifier calls and this model leaves open. -/
structure Backend where
  crates : Crates
  sha256 : Bytes → Vector UInt8 32
  /-- `serde_json::to_string::<Receipt>`. -/
  receiptJson : Receipt → Except String String
  /-- `serde_yaml::from_slice`. -/
  readYaml : Bytes → Except String Document
  /-- `crypto::timestamp::verify_token`: the time and the signer of a token. -/
  verifyToken : Bytes → Vector UInt8 32 → List Bytes → Except String (DateTime × String)
  /-- `recompute_check`, of a receipt in a workspace. -/
  recomputeCheck : Receipt → String → Check

/-- The files a verification reads, by their paths. -/
structure Files where
  /-- The trust directory at a path, when that path is a directory. -/
  store : String → Option TrustDir
  /-- The certificates under `tsa/` of a store, as `tsa_issuers` reads them. -/
  tsaIssuers : String → List Bytes
  file : String → Option (Node Bytes)

/-- `opts.trust_store`, or the workspace's own. -/
def VerifyOptions.store (opts : VerifyOptions) : String :=
  opts.trustStore.getD (joinPath (joinPath opts.workspace ".attest") "trust")

def localKeyPath (workspace : String) : String :=
  joinPath (joinPath (joinPath workspace ".attest") "keys") "public.key"

/-! ### Consistency -/

def isLowerHex (s : String) : Bool := s.toList.all isLowerHexDigit

def isDigest (s : String) : Bool := s.utf8ByteSize == 64 && isLowerHex s

def stepProblems (step : StepResult) : List String :=
  (if isDigest step.inputHash then []
    else [s!"step '{step.name}': input_hash is not a 64-char lowercase hex digest"]) ++
  (if isDigest step.outputHash then []
    else [s!"step '{step.name}': output_hash is not a 64-char lowercase hex digest"])

def consistencyProblems (receipt : Receipt) : List String :=
  (if receipt.attestVersion = "" then ["attest_version is empty"] else []) ++
  (if isDigest receipt.pipelineHash then []
    else ["pipeline_hash is not a 64-char lowercase hex digest"]) ++
  (if receipt.steps = [] then ["receipt has no steps"] else []) ++
  receipt.steps.flatMap stepProblems

def consistencyCheck (receipt : Receipt) : Check :=
  if consistencyProblems receipt = [] then ⟨"consistency", .pass, "receipt is coherent"⟩
  else ⟨"consistency", .fail, "; ".intercalate (consistencyProblems receipt)⟩

section Verification
variable (b : Backend) (files : Files)

/-! ### The timestamp -/

def signatureImprint (signatureHex : String) : Except String (Vector UInt8 32) :=
  match hexDecode signatureHex with
  | none => .error "malformed response from the timestamp authority: receipt signature is not hex"
  | some raw => .ok (b.sha256 raw)

/-- The check of the token, and the time a verified one attests. -/
def timestampCheck (receipt : Receipt) (opts : VerifyOptions) : Check × Option DateTime :=
  let failed (detail : String) : Check × Option DateTime := (⟨"timestamp", .fail, detail⟩, none)
  match receipt.timestampToken with
  | none => (⟨"timestamp", .skipped, "receipt carries no timestamp token"⟩, none)
  | some encoded =>
    match receipt.signature with
    | none => failed "receipt has a timestamp token but no signature for it to cover"
    | some signatureHex =>
      match Base64.decode encoded with
      | none => failed "timestamp token is not valid base64"
      | some token =>
        match signatureImprint b signatureHex with
        | .error err => failed err
        | .ok imprint =>
          let issuers := files.tsaIssuers opts.store
          let pinned := joinPath opts.store "tsa"
          if issuers = [] then
            failed (s!"no pinned timestamp authority in {pinned}; add the issuing CA " ++
              "certificate to verify this token")
          else
            match b.verifyToken token imprint issuers with
            | .error err => failed err
            | .ok (genTime, signer) =>
              (⟨"timestamp", .pass, s!"signature timestamped {genTime.toRfc3339} by {signer}"⟩,
                some genTime)

/-! ### The signature -/

/-- `verify_with_public_key`. -/
def verifyWithPublicKey (c : Crates) (publicKeyHex : String) (message : Bytes)
    (signatureHex : String) : Except String Bool :=
  match hexDecode publicKeyHex with
  | none => .error "Invalid public key hex"
  | some publicBytes =>
    match toVector 32 publicBytes with
    | none => .error "Invalid public key length"
    | some keyArray =>
      match fromBytes c keyArray with
      | .error e => .error s!"Invalid public key: {e}"
      | .ok verifyingKey =>
        match hexDecode signatureHex with
        | none => .error "Invalid signature hex"
        | some signatureBytes =>
          match toVector 64 signatureBytes with
          | none => .error "Invalid signature length"
          | some signature => .ok (c.verify verifyingKey message signature)

/-- The workspace's own key, where there is no trust store. -/
def localTrust (node : Option (Node Bytes)) (publicKeyHex : String) : Except String KeyTrust :=
  if isFile node then
    match contentOf node with
    | none => .error "cannot read public.key"
    | some bytes =>
      if bytes.length = 32 ∧ hexEncode bytes = publicKeyHex then .ok .trusted else .ok .unknown
  else .ok .unknown

/-- `key_trust_status`. -/
def keyTrustStatus (opts : VerifyOptions) (publicKeyHex : String) : Except String KeyTrust :=
  match files.store opts.store with
  | some dir => storeTrustStatus b.crates opts.store dir publicKeyHex
  | none => localTrust (files.file (localKeyPath opts.workspace)) publicKeyHex

/-- What `signature_check` gives: the check, the key that signed when it passes, and warnings. -/
structure SignatureVerdict where
  check : Check
  signedBy : Option String := none
  warnings : List String := []

def refused (detail : String) : SignatureVerdict := { check := ⟨"signature", .fail, detail⟩ }

/-- `signature_check` once the signature has verified. -/
def judged (publicKeyHex : String) (verdict : Trust.Verdict) : SignatureVerdict where
  check := ⟨"signature", if verdict.passed then .pass else .fail, verdict.detail⟩
  signedBy := if verdict.passed then some publicKeyHex else none
  warnings := verdict.warnings

def signatureCheck (receipt : Receipt) (opts : VerifyOptions) (trustedTime : Option DateTime) :
    SignatureVerdict :=
  match receipt.signature, receipt.signerPublicKey with
  | some signature, some publicKeyHex =>
    match receiptSigningBytes b.receiptJson receipt with
    | .error err => refused s!"cannot canonicalize receipt: {err}"
    | .ok signingBytes =>
      match verifyWithPublicKey b.crates publicKeyHex (utf8 signingBytes) signature with
      | .error err => refused s!"malformed signature material: {err}"
      | .ok false => refused "Ed25519 signature does not verify against signer_public_key"
      | .ok true =>
        judged publicKeyHex (judgeSigned b.crates (keyTrustStatus b files opts publicKeyHex)
          ⟨publicKeyHex, trustedTime, receipt.timestamp, opts.trustReceiptTimestamp⟩)
  | _, _ => refused "receipt is unsigned"

/-! ### Trust material and execution -/

/-- `accepted_bundles`, of the store at a path. -/
def bundlesAt (path : String) : Except String (List TrustBundle) :=
  let entries := ((files.store path).getD {}).bundles.entries
  entries.mapM fun ⟨name, node⟩ =>
    readBundle b.crates (joinPath (joinPath path "bundles") (name ++ ".json")) (some node)

/-- `Iterator::max_by_key` of the sequence: the last of the largest. -/
def latestBundle : List TrustBundle → Option TrustBundle
  | [] => none
  | bundle :: rest =>
    match latestBundle rest with
    | none => some bundle
    | some other => if bundle.sequence ≤ other.sequence then some other else some bundle

def bundleMaterial (bundle : TrustBundle) (now : DateTime) : TrustMaterial × List String :=
  let expired := bundle.validUntil < now
  let notYet := now < bundle.issuedAt
  let state :=
    if expired then "expired" else if notYet then "not-yet-valid" else "current"
  let warnings :=
    if expired then
      [s!"trust material from {bundle.issuer.keyId} expired at {bundle.validUntil} (judged by " ++
        s!"this machine's clock): revocations issued after bundle {bundle.sequence} are unknown here"]
    else if notYet then
      [s!"trust material from {bundle.issuer.keyId} was issued at {bundle.issuedAt}, after this " ++
        s!"machine's clock reads {now}; one of the two is wrong, and the bundle is not current " ++
        "until the clock reaches its issue time"]
    else []
  ({ state := state, issuer := some bundle.issuer.keyId, sequence := some bundle.sequence,
     validUntil := some bundle.validUntil }, warnings)

/-- `trust_material`, and the warnings it adds. -/
def trustMaterial (opts : VerifyOptions) (signer : Option String) (now : DateTime) :
    TrustMaterial × List String :=
  match signer.bind fun key => (keyIdFromHex b.crates key).toOption with
  | none => ({ state := "none" }, [])
  | some signerId =>
    let bundlesDir := joinPath opts.store "bundles"
    let (accepted, unread) := match bundlesAt b files opts.store with
      | .ok bundles => (bundles, [])
      | .error err => ([], [s!"cannot read the accepted trust bundles in {bundlesDir}: {err}; " ++
          "treating the store as having none on record"])
    match latestBundle (accepted.filter fun bundle => bundle.keys.any fun key => key.id == signerId) with
    | none =>
      ({ state := "none" }, unread ++ if accepted = [] then []
        else [s!"no accepted trust bundle vouches for signing key {signerId}; its trust rests on " ++
          "this store's manual entries alone"])
    | some bundle =>
      let (material, warnings) := bundleMaterial bundle now
      (material, unread ++ warnings)

def executionOutcome (receipt : Receipt) : ExecutionOutcome :=
  let failedSteps := receipt.steps.countP fun step => step.exitCode != 0
  ⟨if failedSteps = 0 then "success" else "failure", failedSteps⟩

/-! ### The whole verdict -/

def skippedChecks : List Check :=
  ["consistency", "signature", "timestamp", "recompute"].map fun name =>
    ⟨name, .skipped, "schema check failed"⟩

/-- The signature check as the options ask for it. -/
def optionalSignatureCheck (receipt : Receipt) (opts : VerifyOptions)
    (trustedTime : Option DateTime) : SignatureVerdict :=
  if opts.checkSignatures then signatureCheck b files receipt opts trustedTime
  else { check := ⟨"signature", .skipped, "disabled by --no-check-signatures"⟩ }

def optionalRecomputeCheck (receipt : Receipt) (opts : VerifyOptions) : Check :=
  if opts.recompute then b.recomputeCheck receipt opts.workspace
  else ⟨"recompute", .skipped, "enable with --recompute"⟩

/-- The verdict on a document that is no receipt of a schema this verifier reads. -/
def unreadVerdict (label : String) (opts : VerifyOptions) (detail : String)
    (material : Option TrustMaterial) : ReceiptVerdict :=
  applyPolicy
    { receipt := label, verdict := "fail", checks := ⟨"schema", .fail, detail⟩ :: skippedChecks,
      signedBy := none, warnings := [], trustMaterial := material,
      execution := some ⟨"unknown", 0⟩ }
    opts.required

/-- The verdict on a receipt. -/
def receiptVerdict (receipt : Receipt) (label : String) (opts : VerifyOptions) (now : DateTime) :
    ReceiptVerdict :=
  let (timestamp, trustedTime) := timestampCheck b files receipt opts
  let signature := optionalSignatureCheck b files receipt opts trustedTime
  let checks := [⟨"schema", .pass, "receipt matches schema"⟩, consistencyCheck receipt,
    signature.check, timestamp, optionalRecomputeCheck b receipt opts]
  let (material, warnings) := trustMaterial b files opts signature.signedBy now
  applyPolicy
    { receipt := label
      verdict := if checks.any fun c => c.status == .fail then "fail" else "pass"
      checks := checks
      signedBy := signature.signedBy
      warnings := signature.warnings ++ warnings
      trustMaterial := some material
      execution := some (executionOutcome receipt) }
    opts.required

/-- `verify_receipt_bytes`, at the clock reading `now`. -/
def verifyReceiptBytes (content : Bytes) (label : String) (opts : VerifyOptions) (now : DateTime) :
    Except String ReceiptVerdict :=
  match b.readYaml content with
  | .error _ => .error s!"unreadable YAML in {label}"
  | .ok document =>
    match document.schemaVersion.filter fun v => receiptSchemaVersion.toNat < v.toNat with
    | some v =>
      .ok (unreadVerdict label opts (s!"receipt schema_version {v} is newer than the latest " ++
        s!"supported version ({receiptSchemaVersion}); upgrade attest to verify this receipt") none)
    | none =>
      match document.receipt with
      | .error err => .ok (unreadVerdict label opts err (some { state := "none" }))
      | .ok receipt => .ok (receiptVerdict b files receipt label opts now)

end Verification

end Attest.Verify
