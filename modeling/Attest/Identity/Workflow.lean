import Attest.Identity.Source
import Attest.Image.Signing
import Attest.Library.Base64
import Attest.Library.Lossy
import Attest.Publication.Note

/-! The workflow that authorised a receipt, as `identity.rs` verifies it.

Cosign is given the bytes of the receipt and of the bundle, the recipient's own root and the
recipient's own policy, and only when it accepts them is the certificate in the same bundle read.
`verifyReceiptIdentity_eq_ok` says what an identity that is verified rests on, down to the
extensions of the certificate. -/
namespace Attest.Identity
open Library Library.Fallible Library.Text
open Storage (Receipt)
open Image (Output stripPrefix parseU32)
open Publication.Note (isControl)
open Trust (Bytes utf8 isLowerHexDigit isWhiteSpace trimChars)

/-! ### The policy -/

structure IdentityPolicy where
  issuer : String
  repository : String
  workflow : String
  revision : String
  trustedRoot : String
deriving DecidableEq

/-- What is read of `reqwest::Url`. -/
structure Url where
  scheme : String
  host : Option String
  username : String
  password : Option String

structure IdentityVerification where
  issuer : String
  repository : String
  workflow : String
  revision : String
deriving DecidableEq

/-- What one call of cosign is given: its arguments, and the files of its directory. -/
structure Call where
  args : List String
  files : List (String × Bytes)
deriving DecidableEq

/-- What a verification finds outside of the program. -/
structure IdentityHost where
  /-- `reqwest::Url::parse`. -/
  parseUrl : String → Option Url
  /-- `serde_yaml::from_slice::<Receipt>`. -/
  readReceipt : Bytes → Except String Receipt
  /-- `serde_json::from_slice::<Value>`. -/
  readJson : Bytes → Option Json
  /-- `which::which("cosign")`. -/
  findCosign : Option String
  /-- `Command::output` of the cosign at a path. -/
  run : String → Call → Except String Output
  /-- The file at a path, in the recipient's files. -/
  file : String → Except String Bytes

def maxReceiptBytes : Nat := 16 * 1024 * 1024

def maxIdentityBytes : Nat := 4 * 1024 * 1024

section Policy
variable (host : IdentityHost)

def checkUrl (name value : String) : Except String Unit := do
  let url ← context s!"identity policy {name} must be an HTTPS URL" (host.parseUrl value)
  refuseIf (url.scheme ≠ "https" ∨ url.host = none ∨ url.username ≠ "" ∨ url.password ≠ none ∨
      (value.toList.any fun c => isWhiteSpace c || isControl c) = true)
    s!"identity policy {name} must be an HTTPS URL without credentials"

/-- A full commit id in lower case. -/
def FullCommit (revision : String) : Prop :=
  (revision.utf8ByteSize = 40 ∨ revision.utf8ByteSize = 64) ∧
    revision.toList.all isLowerHexDigit = true

instance (revision : String) : Decidable (FullCommit revision) :=
  inferInstanceAs (Decidable (_ ∧ _))

def IdentityPolicy.validate (policy : IdentityPolicy) : Except String Unit := do
  checkUrl host "issuer" policy.issuer
  checkUrl host "repository" policy.repository
  checkUrl host "workflow" policy.workflow
  refuseIf (¬ FullCommit policy.revision)
    "identity policy revision must be a full lowercase SHA-1 or SHA-256 commit id"
  refuseIf (policy.trustedRoot = "")
    "identity policy requires an independently configured local trusted_root"

end Policy

/-! ### The bundle -/

/-- `Value::get` of a name. -/
def field (name : String) : Json → Option Json
  | .object fields => fields.lookup name
  | _ => none

/-- `Value::as_str`. -/
def asText : Json → Option String
  | .text s => some s
  | _ => none

def bundleMediaType : String := "application/vnd.dev.sigstore.bundle.v0.3+json"

def olderMediaType : String := "application/vnd.dev.sigstore.bundle+json;version=0.3"

/-- `material.pointer("/certificate/rawBytes")`. -/
def rawBytes (material : Json) : Option String :=
  ((field "certificate" material).bind (field "rawBytes")).bind asText

def bundleCertificate (readJson : Bytes → Option Json) (bytes : Bytes) : Except String Bytes := do
  let bundle ← context "invalid Sigstore bundle JSON" (readJson bytes)
  let media := (field "mediaType" bundle).bind asText
  refuseIf (media ≠ some bundleMediaType ∧ media ≠ some olderMediaType)
    "workflow identity requires a Sigstore v0.3 bundle"
  let material ← context "missing Sigstore verification material"
    (field "verificationMaterial" bundle)
  refuseIf ((field "publicKey" material).isSome = true ∨
      (field "x509CertificateChain" material).isSome = true)
    "workflow bundle must carry one leaf certificate"
  refuseIf ((field "messageSignature" bundle).isNone = true ∨
      (field "dsseEnvelope" bundle).isSome = true)
    "workflow bundle must hold a blob signature over the receipt"
  let encoded ← context "workflow bundle has no leaf certificate" (rawBytes material)
  context "invalid workflow certificate encoding" (Base64.decode encoded)

/-! ### Cosign -/

/-- The major version that a line states. -/
def majorOf (line : List Char) : Option Nat := do
  let version ← stripPrefix "GitVersion:".toList (trimChars line)
  let version ← stripPrefix ['v'] (trimChars version)
  let major ← (version.splitOn '.').head?
  parseU32 major

section Cosign
variable (host : IdentityHost) (cosign : String)

/-- The major version that cosign states. -/
def statedMajor (output : Output) : Option Nat :=
  (lines (Lossy.text output.stdout ++ "\n" ++ Lossy.text output.stderr).toList).findSome? majorOf

def checkCosignVersion : Except String Unit := do
  let output ← host.run cosign ⟨["version"], []⟩
  refuseIf (output.success = false)
    "cannot determine cosign version; workflow identity requires cosign 3"
  refuseIf (∀ major ∈ statedMajor output, major < 3) "workflow identity requires cosign 3 or newer"

/-- What cosign is asked: these bytes, under this root, for this workflow and this issuer, with the
proof of the log and without the network. -/
def verifyBlobCall (receipt bundle root : Bytes) (policy : IdentityPolicy) : Call where
  args := ["verify-blob", "--offline=true", "--new-bundle-format=true",
    "--insecure-ignore-tlog=false", "--insecure-ignore-sct=false", "--trusted-root",
    "trusted-root.json", "--bundle", "workflow.sigstore.json", "--certificate-identity",
    policy.workflow, "--certificate-oidc-issuer", policy.issuer, "receipt.yaml"]
  files := [("receipt.yaml", receipt), ("workflow.sigstore.json", bundle), ("trusted-root.json", root)]

def verifyBlobBytes (receipt bundle root : Bytes) (policy : IdentityPolicy) :
    Except String IdentityVerification := do
  checkCosignVersion host cosign
  let output ← host.run cosign (verifyBlobCall receipt bundle root policy)
  refuseIf (output.success = false)
    "workflow signature, certificate identity or Sigstore proof rejected by cosign"
  let certificate ← bundleCertificate host.readJson bundle
  let (repository, revision) ← certificateSource certificate
  refuseIf (repository ≠ policy.repository)
    "certified source repository does not match identity policy"
  refuseIf (revision ≠ policy.revision) "certified source revision does not match identity policy"
  return ⟨policy.issuer, repository, policy.workflow, revision⟩

/-- `read_bounded`, of bytes that were read. -/
def bounded (label : String) (limit : Nat) (bytes : Bytes) : Except String Bytes := do
  refuseIf (limit < bytes.length) s!"{label} exceeds size limit"
  return bytes

def verifyWithCosign (receipt bundle : Bytes) (policy : IdentityPolicy) :
    Except String IdentityVerification := do
  policy.validate host
  let receiptBytes ← bounded "receipt" maxReceiptBytes receipt
  let bundleBytes ← bounded "workflow identity" maxIdentityBytes bundle
  let root ← host.file policy.trustedRoot
  let rootBytes ← bounded "Sigstore trusted root" maxIdentityBytes root
  let receipt ← (host.readReceipt receiptBytes).mapError ("invalid receipt: " ++ ·)
  let source ← context "workflow identity requires source revision in receipt provenance"
    (receipt.provenance.bind Storage.ExecutionProvenance.source)
  refuseIf (source.commit ≠ policy.revision)
    "receipt source revision does not match identity policy"
  verifyBlobBytes host cosign receiptBytes bundleBytes rootBytes policy

end Cosign

/-- `verify_receipt_identity`, of the bytes of the receipt and of the bundle. -/
def verifyReceiptIdentity (host : IdentityHost) (receipt bundle : Bytes) (policy : IdentityPolicy) :
    Except String IdentityVerification := do
  let cosign ← context "workflow identity requires cosign 3 on PATH" host.findCosign
  verifyWithCosign host cosign receipt bundle policy

/-! ### What an identity rests on -/

/-- What an identity that is verified says. -/
def IdentityPolicy.identity (policy : IdentityPolicy) : IdentityVerification :=
  ⟨policy.issuer, policy.repository, policy.workflow, policy.revision⟩

section Verified
variable {host : IdentityHost} {receipt bundle : Bytes} {policy : IdentityPolicy}
  {identity : IdentityVerification}

/-- The cosign at a path states a version from 3 on. -/
def Modern (host : IdentityHost) (cosign : String) : Prop :=
  ∃ output, host.run cosign ⟨["version"], []⟩ = .ok output ∧ output.success = true ∧
    ∃ major ∈ statedMajor output, 3 ≤ major

theorem checkCosignVersion_eq_ok {cosign : String} :
    checkCosignVersion host cosign = .ok () ↔ Modern host cosign := by
  simp only [checkCosignVersion, except_bind_eq_ok, refuseIf_eq_ok, exists_const, Bool.not_eq_false,
    not_forall, not_lt, exists_prop, Modern]

theorem bounded_eq_ok {label : String} {limit : Nat} {bytes bytes' : Bytes} :
    bounded label limit bytes = .ok bytes' ↔ bytes.length ≤ limit ∧ bytes = bytes' := by
  simp only [bounded, except_bind_eq_ok, refuseIf_eq_ok, exists_const, not_lt, pure, Except.pure,
    Except.ok.injEq]

/-- Everything that a verified identity rests on. -/
structure Authenticated (host : IdentityHost) (receipt bundle : Bytes) (policy : IdentityPolicy) :
    Prop where
  valid : policy.validate host = .ok ()
  fits : receipt.length ≤ maxReceiptBytes ∧ bundle.length ≤ maxIdentityBytes
  /-- The receipt itself names the revision. -/
  recorded : ∃ r source, host.readReceipt receipt = .ok r ∧
    r.provenance.bind Storage.ExecutionProvenance.source = some source ∧
    source.commit = policy.revision
  /-- Cosign accepted these bytes, under the recipient's root. -/
  accepted : ∃ cosign root output, host.findCosign = some cosign ∧ Modern host cosign ∧
    host.file policy.trustedRoot = .ok root ∧ root.length ≤ maxIdentityBytes ∧
    host.run cosign (verifyBlobCall receipt bundle root policy) = .ok output ∧ output.success = true
  /-- The certificate in the same bundle certifies the repository and the revision. -/
  certified : ∃ c : Certificate, bundleCertificate host.readJson bundle = .ok c.bytes ∧ c.Fits ∧
    c.afterExtensions = [] ∧ c.Sourced policy.repository policy.revision

theorem verifyBlobBytes_eq_ok {cosign : String} {root : Bytes} :
    verifyBlobBytes host cosign receipt bundle root policy = .ok identity ↔
      Modern host cosign ∧
      (∃ output, host.run cosign (verifyBlobCall receipt bundle root policy) = .ok output ∧
        output.success = true) ∧
      (∃ c : Certificate, bundleCertificate host.readJson bundle = .ok c.bytes ∧ c.Fits ∧
        c.afterExtensions = [] ∧ c.Sourced policy.repository policy.revision) ∧
      identity = policy.identity := by
  rw [verifyBlobBytes, except_bind_eq_ok]
  constructor
  · intro h
    obtain ⟨_, hmodern, h⟩ := h
    obtain ⟨output, hrun, h⟩ := except_bind_eq_ok.mp h
    obtain ⟨_, hsuccess, h⟩ := except_bind_eq_ok.mp h
    obtain ⟨certificate, hcertificate, h⟩ := except_bind_eq_ok.mp h
    obtain ⟨⟨repository, revision⟩, hsource, h⟩ := except_bind_eq_ok.mp h
    obtain ⟨_, hrepository, h⟩ := except_bind_eq_ok.mp h
    obtain ⟨_, hrevision, h⟩ := except_bind_eq_ok.mp h
    rw [not_not.mp (refuseIf_eq_ok.mp hrepository), not_not.mp (refuseIf_eq_ok.mp hrevision)] at hsource h
    obtain ⟨c, hbytes, hc⟩ := certificateSource_iff.mp hsource
    rw [hbytes] at hcertificate
    refine ⟨checkCosignVersion_eq_ok.mp hmodern, ⟨output, hrun, ?_⟩, ⟨c, hcertificate, hc⟩,
      (Except.ok.inj h).symm⟩
    rwa [refuseIf_eq_ok, Bool.not_eq_false] at hsuccess
  · intro h
    obtain ⟨hmodern, ⟨output, hrun, hsuccess⟩, ⟨c, hcertificate, hc⟩, rfl⟩ := h
    refine ⟨(), checkCosignVersion_eq_ok.mpr hmodern, ?_⟩
    refine except_bind_eq_ok.mpr ⟨output, hrun, ?_⟩
    refine except_bind_eq_ok.mpr ⟨(), refuseIf_eq_ok.mpr (by simp [hsuccess]), ?_⟩
    refine except_bind_eq_ok.mpr ⟨c.bytes, hcertificate, ?_⟩
    refine except_bind_eq_ok.mpr ⟨_, certificateSource_iff.mpr ⟨c, rfl, hc⟩, ?_⟩
    refine except_bind_eq_ok.mpr ⟨(), refuseIf_eq_ok.mpr (not_not.mpr rfl), ?_⟩
    exact except_bind_eq_ok.mpr ⟨(), refuseIf_eq_ok.mpr (not_not.mpr rfl), rfl⟩

/-- **An identity is verified on the receipt's own bytes, or not at all.** -/
theorem verifyReceiptIdentity_eq_ok : verifyReceiptIdentity host receipt bundle policy = .ok identity ↔
    Authenticated host receipt bundle policy ∧ identity = policy.identity := by
  rw [verifyReceiptIdentity, except_bind_eq_ok]
  constructor
  · intro h
    obtain ⟨cosign, hcosign, h⟩ := h
    obtain ⟨_, hpolicy, h⟩ := except_bind_eq_ok.mp h
    obtain ⟨_, hreceipt, h⟩ := except_bind_eq_ok.mp h
    obtain ⟨_, hbundle, h⟩ := except_bind_eq_ok.mp h
    obtain ⟨root, hroot, h⟩ := except_bind_eq_ok.mp h
    obtain ⟨_, hrootBytes, h⟩ := except_bind_eq_ok.mp h
    obtain ⟨r, hread, h⟩ := except_bind_eq_ok.mp h
    obtain ⟨source, hsource, h⟩ := except_bind_eq_ok.mp h
    obtain ⟨_, hcommit, h⟩ := except_bind_eq_ok.mp h
    obtain ⟨hreceiptFits, rfl⟩ := bounded_eq_ok.mp hreceipt
    obtain ⟨hbundleFits, rfl⟩ := bounded_eq_ok.mp hbundle
    obtain ⟨hrootFits, rfl⟩ := bounded_eq_ok.mp hrootBytes
    obtain ⟨hmodern, ⟨output, hrun, hsuccess⟩, hcertified, hidentity⟩ := verifyBlobBytes_eq_ok.mp h
    refine ⟨⟨hpolicy, ⟨hreceiptFits, hbundleFits⟩, ?_, ?_, hcertified⟩, hidentity⟩
    · exact ⟨r, source, mapError_eq_ok.mp hread, context_eq_ok.mp hsource,
        not_not.mp (refuseIf_eq_ok.mp hcommit)⟩
    · exact ⟨cosign, root, output, context_eq_ok.mp hcosign, hmodern, hroot, hrootFits, hrun, hsuccess⟩
  · intro h
    obtain ⟨⟨hpolicy, ⟨hreceiptFits, hbundleFits⟩, ⟨r, source, hread, hsource, hcommit⟩,
      ⟨cosign, root, output, hcosign, hmodern, hroot, hrootFits, hrun, hsuccess⟩, hcertified⟩,
      hidentity⟩ := h
    refine ⟨cosign, context_eq_ok.mpr hcosign, ?_⟩
    refine except_bind_eq_ok.mpr ⟨(), hpolicy, ?_⟩
    refine except_bind_eq_ok.mpr ⟨receipt, bounded_eq_ok.mpr ⟨hreceiptFits, rfl⟩, ?_⟩
    refine except_bind_eq_ok.mpr ⟨bundle, bounded_eq_ok.mpr ⟨hbundleFits, rfl⟩, ?_⟩
    refine except_bind_eq_ok.mpr ⟨root, hroot, ?_⟩
    refine except_bind_eq_ok.mpr ⟨root, bounded_eq_ok.mpr ⟨hrootFits, rfl⟩, ?_⟩
    refine except_bind_eq_ok.mpr ⟨r, mapError_eq_ok.mpr hread, ?_⟩
    refine except_bind_eq_ok.mpr ⟨source, context_eq_ok.mpr hsource, ?_⟩
    refine except_bind_eq_ok.mpr ⟨(), refuseIf_eq_ok.mpr (not_not.mpr hcommit), ?_⟩
    exact verifyBlobBytes_eq_ok.mpr ⟨hmodern, ⟨output, hrun, hsuccess⟩, hcertified, hidentity⟩

end Verified

end Attest.Identity
