import Attest.Evidence.Verification
import Attest.Executor.Reproducibility
import Attest.Verify.ExplicitStore
import Attest.Verify.Stamped

/-! `attest sign`, and the file it leaves.

The command signs a receipt that another job made, and may have the signature timestamped.
Before it signs, the receipt goes through the verifier without its signature check. What is
asked is that no signer is named; a signature and a token of another signer can still be
there. The signature is replaced, the token only where an authority is asked.
`signed_file_verifies_iff` says when the file that is written verifies. -/
namespace Attest.Executor
open Library Library.Fallible Timestamp Verify
open Evidence (maxReceiptBytes)
open Trust (Bytes DateTime SigningKey hexEncode utf8)
open Storage

/-! ### The command -/

/-- `verify::read_bounded`, of the bytes of a receipt file. -/
def readReceiptFile (path : String) (content : Bytes) : Except String Bytes :=
  if maxReceiptBytes < content.length then
    .error (s!"resource limit (receipt): {path} is {content.length} bytes; the limit for a " ++
      s!"receipt is {maxReceiptBytes}")
  else .ok content

/-- What the command and the verifier of one program are given. -/
structure Desk where
  machine : Machine
  timestamps : TimestampCrates
  /-- `serde_yaml::from_slice::<Receipt>`. -/
  readReceipt : Bytes → Except String Receipt
  /-- `serde_yaml::from_slice::<Value>`, and what the verifier reads of the value. -/
  readYaml : Bytes → Except String Document
  recomputeCheck : Receipt → String → Check

/-- The verifier. -/
def Desk.backend (d : Desk) : Backend where
  crates := d.machine.recorder.crates
  sha256 := d.timestamps.sha256
  receiptJson := d.machine.receiptJson
  readYaml := d.readYaml
  verifyToken := fun token imprint issuers =>
    match verifyToken d.timestamps token imprint issuers with
    | .ok v => .ok (v.info.genTime, v.signer)
    | .error e => .error e.text
  recomputeCheck := d.recomputeCheck

/-- The options of the look at a receipt before it is signed. -/
def scrutiny (workspace : String) : VerifyOptions where
  checkSignatures := false
  recompute := false
  workspace := workspace
  trustStore := none
  trustReceiptTimestamp := false
  required := []

/-- How the command ends: its exit code, what it prints to the standard error, and the bytes of
the file it wrote. -/
structure Signing where
  exitCode : Int
  message : Option String := none
  written : Option Bytes := none

def failedChecks (verdict : ReceiptVerdict) : List String :=
  (verdict.checks.filter fun check => check.status = .fail).map fun check =>
    s!"{check.name}: {check.detail}"

/-- `sign_receipt_file`, by the key that `load_signing_keypair` gives. -/
def signReceiptFile (d : Desk) (files : Files) (workspace path : String)
    (keypair : Except String SigningKey) (tsa : Option String) (now : DateTime) (content : Bytes) :
    Except String Signing := do
  let bytes ← readReceiptFile path content
  match d.readReceipt bytes with
  | .error err => return ⟨1, some s!"error: {path} is not a receipt: {err}", none⟩
  | .ok receipt =>
    match receipt.signerPublicKey with
    | some signer =>
      return ⟨1, some (s!"error: {path} is already signed by {signer}; a signature is not " ++
        "re-issued, verify it instead"), none⟩
    | none =>
      let verdict ← verifyReceiptBytes d.backend files bytes path (scrutiny workspace) now
      let failed := failedChecks verdict
      if failed ≠ [] then
        let reasons := "; ".intercalate failed
        return ⟨1, some s!"error: refusing to sign {path}: {reasons}", none⟩
      else
        let key ← keypair
        let signed ← signReceipt d.machine (some key) receipt
        match timestampIfRequested d.machine tsa signed with
        | .error code => return ⟨code, none, none⟩
        | .ok receipt =>
          let yaml ← d.machine.receiptYaml receipt
          return ⟨0, none, some yaml⟩

/-- `verify_receipt_file`. -/
def verifyReceiptFile (b : Backend) (files : Files) (path : String) (opts : VerifyOptions)
    (now : DateTime) (content : Bytes) : Except String ReceiptVerdict :=
  match readReceiptFile path content with
  | .error err => .error s!"cannot read receipt file: {path}: {err}"
  | .ok bytes => verifyReceiptBytes b files bytes path opts now

/-! ### What is relied on -/

section Statement
variable (d : Desk) (files : Files) (workspace : String) (key : SigningKey) (files' : Files)
  (opts : VerifyOptions)

/-- `serde` reads one receipt from a document, directly or from its value, with the number of its
schema; and it reads what it wrote. -/
structure Desk.Serde : Prop where
  direct : ∀ {content document receipt receipt'}, d.readYaml content = .ok document →
    document.receipt = .ok receipt → d.readReceipt content = .ok receipt' → receipt' = receipt
  schema : ∀ {content document receipt}, d.readYaml content = .ok document →
    document.receipt = .ok receipt →
    document.schemaVersion = receipt.schemaVersion.map UInt32.toUInt64
  reads : ∀ {receipt content}, d.machine.receiptYaml receipt = .ok content →
    d.readYaml content = .ok ⟨receipt.schemaVersion.map UInt32.toUInt64, .ok receipt⟩

/-- A verifier that trusts the key, and pins the authorities of the workspace. A recomputation
is not asked for. -/
structure TrustsSigner : Prop where
  plain : opts.recompute = false
  trusted : keyTrustStatus d.backend files' opts
    (keyHex (d.machine.recorder.crates.verifyingKey key)) = .ok .trusted
  pinned : files.tsaIssuers (scrutiny workspace).store ⊆ files'.tsaIssuers opts.store

/-- The file is read, and no check of it fails. -/
def FileVerifies (path : String) (now : DateTime) (content : Bytes) : Prop :=
  ∃ verdict, verifyReceiptFile d.backend files' path opts now content = .ok verdict ∧
    ∀ check ∈ verdict.checks, check.status ≠ .fail

/-! ### When it verifies -/

/-- A token, as it stands in a receipt, is of a pinned authority over this signature. -/
def Covers (encoded signatureHex : String) : Prop :=
  ∃ token imprint v, Base64.decode encoded = some token ∧
    signatureImprint d.backend signatureHex = .ok imprint ∧
    verifyToken d.timestamps token imprint (files'.tsaIssuers opts.store) = .ok v

/-- The receipt as it is written: signed, and with a token where an authority is asked. -/
def issued (tsa : Option String) (receipt : Receipt) : Except String Receipt := do
  let signed ← signReceipt d.machine (some key) receipt
  match tsa with
  | none => return signed
  | some url =>
    let token ← d.machine.requestToken url signed
    return { signed with timestampToken := some token }

/-- The signature that is there is one the key would make: the same bytes have the same imprint. -/
def SignedAlready (receipt : Receipt) : Prop :=
  ∃ old signed new imprint, receipt.signature = some old ∧
    signReceipt d.machine (some key) receipt = .ok signed ∧ signed.signature = some new ∧
    signatureImprint d.backend old = .ok imprint ∧ signatureImprint d.backend new = .ok imprint

/-- No token of another signature stays: there is none, or it is of this signature, or an
authority is asked and gives one. -/
def NoStaleToken (tsa : Option String) (receipt : Receipt) : Prop :=
  match tsa with
  | none => receipt.timestampToken = none ∨ SignedAlready d key receipt
  | some url => ∀ signed token new, signReceipt d.machine (some key) receipt = .ok signed →
      d.machine.requestToken url signed = .ok token → signed.signature = some new →
      Covers d files' opts token new

/-- The file that is written is no larger than one the verifier reads. -/
def Fits (tsa : Option String) (receipt : Receipt) : Prop :=
  ∀ r yaml, issued d key tsa receipt = .ok r → d.machine.receiptYaml r = .ok yaml →
    yaml.length ≤ maxReceiptBytes

end Statement

/-! ### Tokens -/

section Tokens
variable {d : Desk} {files files' : Files} {opts opts' : VerifyOptions} {c : TimestampCrates}
  {token : Bytes} {imprint imprint' : Vector UInt8 32} {pinned pinned' : List Bytes}
  {v v' : VerifiedTimestamp} {receipt : Receipt} {encoded signatureHex : String}

theorem readTstInfo_imprint {tstInfo : Bytes} {said said' : String × String × Bytes}
    (h : readTstInfo tstInfo imprint = .ok said) (h' : readTstInfo tstInfo imprint' = .ok said') :
    imprint = imprint' := by
  obtain ⟨⟨info, _⟩, hinfo, h⟩ := except_bind_eq_ok.mp h
  obtain ⟨⟨_, versioned⟩, hversion, h⟩ := except_bind_eq_ok.mp h
  obtain ⟨⟨_, named⟩, hpolicy, h⟩ := except_bind_eq_ok.mp h
  obtain ⟨_, hdotted, h⟩ := except_bind_eq_ok.mp h
  obtain ⟨⟨covered, stamped⟩, hcovered, h⟩ := except_bind_eq_ok.mp h
  obtain ⟨⟨_, hashes⟩, halgorithm, h⟩ := except_bind_eq_ok.mp h
  obtain ⟨_, _, h⟩ := except_bind_eq_ok.mp h
  obtain ⟨⟨hashed, _⟩, hhashed, h⟩ := except_bind_eq_ok.mp h
  obtain ⟨_, hsame, _⟩ := except_bind_eq_ok.mp h
  obtain ⟨_, hinfo', h'⟩ := except_bind_eq_ok.mp h'
  cases hinfo.symm.trans hinfo'
  obtain ⟨_, hversion', h'⟩ := except_bind_eq_ok.mp h'
  cases hversion.symm.trans hversion'
  obtain ⟨_, hpolicy', h'⟩ := except_bind_eq_ok.mp h'
  cases hpolicy.symm.trans hpolicy'
  obtain ⟨_, hdotted', h'⟩ := except_bind_eq_ok.mp h'
  obtain ⟨_, hcovered', h'⟩ := except_bind_eq_ok.mp h'
  cases hcovered.symm.trans hcovered'
  obtain ⟨_, halgorithm', h'⟩ := except_bind_eq_ok.mp h'
  cases halgorithm.symm.trans halgorithm'
  obtain ⟨_, _, h'⟩ := except_bind_eq_ok.mp h'
  obtain ⟨_, hhashed', h'⟩ := except_bind_eq_ok.mp h'
  cases hhashed.symm.trans hhashed'
  obtain ⟨_, hsame', _⟩ := except_bind_eq_ok.mp h'
  have heq := not_not.mp (refuseIf_eq_ok.mp hsame)
  have heq' := not_not.mp (refuseIf_eq_ok.mp hsame')
  exact Vector.toList_inj.mp (heq.symm.trans heq')

/-- A token is over one imprint. -/
theorem verifyToken_imprint (h : verifyToken c token imprint pinned = .ok v)
    (h' : verifyToken c token imprint' pinned' = .ok v') : imprint = imprint' := by
  obtain ⟨_, _, hparsed, _⟩ := verifyToken_eq_ok h
  obtain ⟨_, _, hparsed', _⟩ := verifyToken_eq_ok h'
  obtain ⟨tstInfo, hinfo, hparsed⟩ := except_bind_eq_ok.mp hparsed
  obtain ⟨tstInfo', hinfo', hparsed'⟩ := except_bind_eq_ok.mp hparsed'
  cases hinfo.symm.trans hinfo'
  obtain ⟨_, hread, _⟩ := parseTstInfo_eq_ok hparsed
  obtain ⟨_, hread', _⟩ := parseTstInfo_eq_ok hparsed'
  exact readTstInfo_imprint hread hread'

/-- Another authority that is pinned takes no token away. -/
theorem verifyToken_mono (h : verifyToken c token imprint pinned = .ok v)
    (hsub : pinned ⊆ pinned') : verifyToken c token imprint pinned' = .ok v := by
  have hissued : ∀ signer, issuedByPinned c pinned signer = true →
      issuedByPinned c pinned' signer = true := by
    intro signer hsigner
    obtain ⟨der, hder, hissuer⟩ := issuedByPinned_iff.mp hsigner
    exact issuedByPinned_iff.mpr ⟨der, hsub hder, hissuer⟩
  obtain ⟨info, hinfo, h⟩ := except_bind_eq_ok.mp h
  obtain ⟨parts, hparts, h⟩ := except_bind_eq_ok.mp h
  obtain ⟨_, hdigest, h⟩ := except_bind_eq_ok.mp h
  obtain ⟨signer, hsigner, h⟩ := except_bind_eq_ok.mp h
  obtain ⟨_, hallowed, h⟩ := except_bind_eq_ok.mp h
  obtain ⟨_, hpinned, h⟩ := except_bind_eq_ok.mp h
  have hpinned' := hissued signer (Bool.eq_true_of_not_eq_false (refuseIf_eq_ok.mp hpinned))
  have hrefuse : refuseIf (issuedByPinned c pinned' signer = false) TimestampError.untrustedAuthority =
      .ok () := refuseIf_eq_ok.mpr (by simp [hpinned'])
  refine except_bind_eq_ok.mpr ⟨info, hinfo, except_bind_eq_ok.mpr ⟨parts, hparts, ?_⟩⟩
  refine except_bind_eq_ok.mpr ⟨(), hdigest, except_bind_eq_ok.mpr ⟨signer, hsigner, ?_⟩⟩
  exact except_bind_eq_ok.mpr ⟨(), hallowed, except_bind_eq_ok.mpr ⟨(), hrefuse, h⟩⟩

/-- The check of a token does not fail where there is none, or where it covers the signature. -/
theorem timestampCheck_ne_fail_iff :
    (timestampCheck d.backend files receipt opts).1.status ≠ .fail ↔
      ∀ encoded, receipt.timestampToken = some encoded →
        ∃ signatureHex, receipt.signature = some signatureHex ∧ Covers d files opts encoded signatureHex := by
  unfold timestampCheck Covers
  cases receipt.timestampToken with
  | none => simp
  | some encoded =>
    cases receipt.signature with
    | none => simp
    | some signatureHex =>
      cases hdecode : Base64.decode encoded with
      | none => simp [hdecode]
      | some token =>
        cases himprint : signatureImprint d.backend signatureHex with
        | error err => simp [himprint, hdecode]
        | ok imprint =>
          by_cases hissuers : files.tsaIssuers opts.store = []
          · have hnone : ∀ v, verifyToken d.timestamps token imprint [] ≠ .ok v := by
              intro v hverify
              obtain ⟨_, _, _, _, _, _, _, hpinned, _⟩ := verifyToken_eq_ok hverify
              obtain ⟨_, hder, _⟩ := issuedByPinned_iff.mp hpinned
              exact absurd hder List.not_mem_nil
            simp [hissuers, hdecode, himprint, hnone]
          · cases hverify : verifyToken d.timestamps token imprint (files.tsaIssuers opts.store) with
            | error e =>
              have hbackend : d.backend.verifyToken token imprint (files.tsaIssuers opts.store) =
                  .error e.text := by simp only [Desk.backend, hverify]
              simp [hissuers, hdecode, himprint, hverify, hbackend]
            | ok v =>
              have hbackend : d.backend.verifyToken token imprint (files.tsaIssuers opts.store) =
                  .ok (v.info.genTime, v.signer) := by simp only [Desk.backend, hverify]
              simp [hissuers, hdecode, himprint, hverify, hbackend]

end Tokens

/-! ### Verdicts -/

section Verdicts
variable {b : Backend} {files : Files} {receipt : Receipt} {opts : VerifyOptions} {content : Bytes}
  {label : String} {now : DateTime} {verdict : ReceiptVerdict}

/-- What is checked of a receipt, apart from its schema. -/
structure Unfailing (b : Backend) (files : Files) (opts : VerifyOptions) (receipt : Receipt) : Prop where
  consistency : (consistencyCheck receipt).status ≠ .fail
  signature : (optionalSignatureCheck b files receipt opts
    (timestampCheck b files receipt opts).2).check.status ≠ .fail
  timestamp : (timestampCheck b files receipt opts).1.status ≠ .fail
  recompute : (optionalRecomputeCheck b receipt opts).status ≠ .fail

theorem verifyReceiptBytes_of_readsAs (h : ReadsAs b content receipt) :
    verifyReceiptBytes b files content label opts now =
      .ok (receiptVerdict b files receipt label opts now) := by
  obtain ⟨document, hyaml, hschema, hreceipt⟩ := h
  simp only [verifyReceiptBytes, hyaml, hschema, hreceipt]

theorem receiptVerdict_unfailing_iff :
    (∀ check ∈ (receiptVerdict b files receipt label opts now).checks, check.status ≠ .fail) ↔
      Unfailing b files opts receipt := by
  have hchecks : (receiptVerdict b files receipt label opts now).checks =
      [⟨"schema", .pass, "receipt matches schema"⟩, consistencyCheck receipt,
        (optionalSignatureCheck b files receipt opts (timestampCheck b files receipt opts).2).check,
        (timestampCheck b files receipt opts).1, optionalRecomputeCheck b receipt opts] := rfl
  rw [hchecks]
  constructor
  · intro h
    simp only [List.forall_mem_cons] at h
    exact ⟨h.2.1, h.2.2.1, h.2.2.2.1, h.2.2.2.2.1⟩
  · intro h
    simp [h.consistency, h.signature, h.timestamp, h.recompute]

/-- Bytes without a failing check are a receipt. -/
theorem readsAs_of_unfailing (h : verifyReceiptBytes b files content label opts now = .ok verdict)
    (hchecks : ∀ check ∈ verdict.checks, check.status ≠ .fail) :
    ∃ receipt, ReadsAs b content receipt ∧ Unfailing b files opts receipt := by
  unfold verifyReceiptBytes at h
  cases hyaml : b.readYaml content with
  | error err =>
    rw [hyaml] at h
    cases h
  | ok document =>
    rw [hyaml] at h
    simp only at h
    cases hschema : document.schemaVersion.filter fun v => receiptSchemaVersion.toNat < v.toNat with
    | some v =>
      rw [hschema] at h
      cases h
      exact absurd rfl (hchecks _ (List.mem_cons_self))
    | none =>
      rw [hschema] at h
      simp only at h
      cases hreceipt : document.receipt with
      | error err =>
        rw [hreceipt] at h
        cases h
        exact absurd rfl (hchecks _ (List.mem_cons_self))
      | ok receipt =>
        rw [hreceipt] at h
        cases h
        exact ⟨receipt, ⟨document, hyaml, hschema, hreceipt⟩, receiptVerdict_unfailing_iff.mp hchecks⟩

theorem failedChecks_eq_nil_iff :
    failedChecks verdict = [] ↔ ∀ check ∈ verdict.checks, check.status ≠ .fail := by
  simp [failedChecks]

end Verdicts

/-! ### What is written -/

section Written
variable {d : Desk} {files files' : Files} {workspace path : String} {opts : VerifyOptions}
  {key : SigningKey} {tsa : Option String} {receipt signed r : Receipt} {data : String}

theorem signReceipt_eq_ok :
    signReceipt d.machine (some key) receipt = .ok signed ↔
      ∃ data, receiptSigningBytes d.machine.receiptJson receipt = .ok data ∧
        signed = { receipt with
          signature := some (hexEncode (d.machine.recorder.sign key (utf8 data)).toList)
          signerPublicKey := some (keyHex (d.machine.recorder.crates.verifyingKey key)) } := by
  rw [signReceipt, except_bind_eq_ok]
  refine exists_congr fun data => and_congr_right fun _ => ?_
  exact ⟨fun h => (Except.ok.inj h).symm, fun h => h ▸ rfl⟩

/-- Where an authority is asked, the token is its. -/
theorem issued_of_timestampIfRequested (hsign : signReceipt d.machine (some key) receipt = .ok signed)
    (h : timestampIfRequested d.machine tsa signed = .ok r) : issued d key tsa receipt = .ok r := by
  unfold timestampIfRequested at h
  unfold issued
  rw [hsign]
  cases tsa with
  | none =>
    cases h
    rfl
  | some url =>
    simp only at h
    split at h
    next => cases h
    next =>
      split at h
      next token htoken =>
        cases h
        show (d.machine.requestToken url signed >>= _) = _
        rw [htoken]
        rfl
      next => cases h

theorem timestampIfRequested_error {code : Int}
    (h : timestampIfRequested d.machine tsa signed = .error code) : code = 2 := by
  unfold timestampIfRequested at h
  cases tsa with
  | none => cases h
  | some url =>
    simp only at h
    split at h
    next => exact (Except.error.inj h).symm
    next =>
      split at h
      next => cases h
      next => exact (Except.error.inj h).symm

/-- A command that ends with code 0 has found nothing wrong with the receipt. -/
theorem signReceiptFile_zero {keypair : Except String SigningKey} {now : DateTime} {content : Bytes}
    {out : Signing} (h : signReceiptFile d files workspace path keypair tsa now content = .ok out)
    (hzero : out.exitCode = 0) :
    ∃ receipt verdict key r yaml, d.readReceipt content = .ok receipt ∧
      receipt.signerPublicKey = none ∧
      verifyReceiptBytes d.backend files content path (scrutiny workspace) now = .ok verdict ∧
      (∀ check ∈ verdict.checks, check.status ≠ .fail) ∧ keypair = .ok key ∧
      issued d key tsa receipt = .ok r ∧ d.machine.receiptYaml r = .ok yaml ∧
      out.written = some yaml := by
  obtain ⟨bytes, hbytes, h⟩ := except_bind_eq_ok.mp h
  obtain rfl : content = bytes := by
    unfold readReceiptFile at hbytes
    split at hbytes
    next => cases hbytes
    next => exact Except.ok.inj hbytes
  cases hread : d.readReceipt content with
  | error err =>
    rw [hread] at h
    cases h
    cases hzero
  | ok receipt =>
    rw [hread] at h
    cases hsigner : receipt.signerPublicKey with
    | some signer =>
      simp only [hsigner] at h
      cases h
      cases hzero
    | none =>
      simp only [hsigner] at h
      obtain ⟨verdict, hverdict, h⟩ := except_bind_eq_ok.mp h
      split at h
      next =>
        cases h
        cases hzero
      next hfailed =>
        obtain ⟨key, hkey, h⟩ := except_bind_eq_ok.mp h
        obtain ⟨signed, hsign, h⟩ := except_bind_eq_ok.mp h
        split at h
        next code hcode =>
          cases h
          rw [timestampIfRequested_error hcode] at hzero
          cases hzero
        next r hissued =>
          obtain ⟨yaml, hyaml, h⟩ := except_bind_eq_ok.mp h
          cases h
          exact ⟨receipt, verdict, key, r, yaml, rfl, hsigner, hverdict,
            failedChecks_eq_nil_iff.mp (not_not.mp hfailed), hkey,
            issued_of_timestampIfRequested hsign hissued, hyaml, rfl⟩

/-- What is written is the receipt with the signature of the key, and a token. -/
theorem issued_eq_ok (h : issued d key tsa receipt = .ok r) :
    ∃ data signed new, receiptSigningBytes d.machine.receiptJson receipt = .ok data ∧
      new = hexEncode (d.machine.recorder.sign key (utf8 data)).toList ∧
      signReceipt d.machine (some key) receipt = .ok signed ∧ signed.signature = some new ∧
      r = { receipt with
        signature := some new
        signerPublicKey := some (keyHex (d.machine.recorder.crates.verifyingKey key))
        timestampToken := r.timestampToken } ∧
      match tsa with
      | none => r.timestampToken = receipt.timestampToken
      | some url => ∃ token, d.machine.requestToken url signed = .ok token ∧
          r.timestampToken = some token := by
  obtain ⟨signed, hsign, h⟩ := except_bind_eq_ok.mp h
  obtain ⟨data, hdata, rfl⟩ := signReceipt_eq_ok.mp hsign
  refine ⟨data, _, _, hdata, rfl, hsign, rfl, ?_⟩
  cases tsa with
  | none =>
    cases h
    exact ⟨rfl, rfl⟩
  | some url =>
    obtain ⟨token, htoken, h⟩ := except_bind_eq_ok.mp h
    cases h
    exact ⟨rfl, token, htoken, rfl⟩

/-- The signature of the key passes where the key is trusted. -/
theorem signature_unfailing (hkey : SignsCorrectly d.machine.recorder key)
    (htrusted : keyTrustStatus d.backend files' opts
      (keyHex (d.machine.recorder.crates.verifyingKey key)) = .ok .trusted)
    (h : issued d key tsa receipt = .ok r) {time : Option DateTime} :
    (optionalSignatureCheck d.backend files' r opts time).check.status ≠ .fail := by
  obtain ⟨data, signed, new, hdata, hnew, -, -, hr, -⟩ := issued_eq_ok h
  unfold optionalSignatureCheck
  split
  next =>
    have hsigned : SignedBy d.backend r (keyHex (d.machine.recorder.crates.verifyingKey key)) := by
      refine ⟨new, data, by rw [hr], by rw [hr], ?_, ?_⟩
      · rw [hr]
        exact hdata
      · rw [hnew]
        exact (verifyWithPublicKey_hex hkey.point).trans (congrArg Except.ok (hkey.verifies _))
    have hpass : (signatureCheck d.backend files' r opts time).check.status = .pass :=
      signatureCheck_pass_iff.mpr ⟨_, hsigned, judgeSigned_passed_iff.mpr (.inl htrusted)⟩
    rw [hpass]
    decide
  next =>
    intro hskipped
    cases hskipped

/-- The token that is written covers the signature that is written, exactly where none is left
over. -/
theorem timestamp_unfailing_iff
    (hpinned : files.tsaIssuers (scrutiny workspace).store ⊆ files'.tsaIssuers opts.store)
    (hbefore : (timestampCheck d.backend files receipt (scrutiny workspace)).1.status ≠ .fail)
    (h : issued d key tsa receipt = .ok r) :
    (timestampCheck d.backend files' r opts).1.status ≠ .fail ↔
      NoStaleToken d key files' opts tsa receipt := by
  obtain ⟨data, signed, new, -, -, hsign, hsignature, hr, htoken⟩ := issued_eq_ok h
  have hnew : r.signature = some new := by rw [hr]
  have hcovers : (timestampCheck d.backend files' r opts).1.status ≠ .fail ↔
      ∀ encoded, r.timestampToken = some encoded → Covers d files' opts encoded new := by
    rw [timestampCheck_ne_fail_iff]
    simp only [hnew, Option.some.injEq, exists_eq_left']
  rw [hcovers]
  cases tsa with
  | some url =>
    obtain ⟨token, hrequest, htoken⟩ := htoken
    constructor
    · intro hall signed' token' new' hsign' hrequest' hsignature'
      cases hsign.symm.trans hsign'
      cases hrequest.symm.trans hrequest'
      cases hsignature.symm.trans hsignature'
      exact hall token htoken
    · intro hclear encoded hencoded
      cases htoken.symm.trans hencoded
      exact hclear signed token new hsign hrequest hsignature
  | none =>
    have hkept : r.timestampToken = receipt.timestampToken := htoken
    rw [hkept, NoStaleToken]
    cases hreceipt : receipt.timestampToken with
    | none => simp
    | some encoded =>
      rw [timestampCheck_ne_fail_iff] at hbefore
      obtain ⟨old, hold, token, imprint, v, hdecode, himprint, hverify⟩ := hbefore encoded hreceipt
      constructor
      · intro hall
        obtain ⟨token', imprint', v', hdecode', himprint', hverify'⟩ := hall encoded rfl
        cases hdecode.symm.trans hdecode'
        cases verifyToken_imprint hverify hverify'
        exact .inr ⟨old, signed, new, imprint, hold, hsign, hsignature, himprint, himprint'⟩
      · intro hclear other hother
        cases hother
        obtain ⟨old', signed', new', imprint', hold', hsign', hsignature', himprint', hsame⟩ :=
          hclear.resolve_left (fun hnone => by cases hnone)
        cases hold.symm.trans hold'
        cases hsign.symm.trans hsign'
        cases hsignature.symm.trans hsignature'
        cases himprint.symm.trans himprint'
        exact ⟨token, imprint, v, hdecode, hsame, verifyToken_mono hverify hpinned⟩

/-- What a file is read as, and what is checked of it. -/
theorem fileVerifies_iff {now : DateTime} {content : Bytes} (hreads : ReadsAs d.backend content r) :
    FileVerifies d files' opts path now content ↔
      content.length ≤ maxReceiptBytes ∧ Unfailing d.backend files' opts r := by
  unfold FileVerifies verifyReceiptFile readReceiptFile
  by_cases hsize : maxReceiptBytes < content.length
  · simp [hsize, Nat.not_le.mpr hsize]
  · simp only [if_neg hsize, verifyReceiptBytes_of_readsAs hreads, Except.ok.injEq, exists_eq_left',
      receiptVerdict_unfailing_iff, Nat.not_lt.mp hsize, true_and]

theorem fits_iff {yaml : Bytes} (h : issued d key tsa receipt = .ok r)
    (hyaml : d.machine.receiptYaml r = .ok yaml) :
    Fits d key tsa receipt ↔ yaml.length ≤ maxReceiptBytes := by
  constructor
  · intro hfits
    exact hfits r yaml h hyaml
  · intro hle r' yaml' h' hyaml'
    cases h.symm.trans h'
    cases hyaml.symm.trans hyaml'
    exact hle

/-- The file that a signing leaves verifies, where it is small enough to be read and no token of
another signature is in it. -/
theorem written_verifies_iff {now now' : DateTime} {path' : String} {content yaml : Bytes}
    {verdict : ReceiptVerdict} (hserde : d.Serde) (hkey : SignsCorrectly d.machine.recorder key)
    (hverifier : TrustsSigner d files workspace key files' opts)
    (hread : d.readReceipt content = .ok receipt)
    (hverdict : verifyReceiptBytes d.backend files content path (scrutiny workspace) now = .ok verdict)
    (hchecks : ∀ check ∈ verdict.checks, check.status ≠ .fail)
    (hissued : issued d key tsa receipt = .ok r) (hyaml : d.machine.receiptYaml r = .ok yaml) :
    FileVerifies d files' opts path' now' yaml ↔
      Fits d key tsa receipt ∧ NoStaleToken d key files' opts tsa receipt := by
  obtain ⟨receipt', ⟨document, hdocument, hschema, hreceipt⟩, hbefore⟩ :=
    readsAs_of_unfailing hverdict hchecks
  cases hserde.direct hdocument hreceipt hread
  obtain ⟨_, _, _, _, _, _, _, hr, _⟩ := issued_eq_ok hissued
  have hreads : ReadsAs d.backend yaml r := by
    refine ⟨_, hserde.reads hyaml, ?_, rfl⟩
    have hversion : r.schemaVersion = receipt.schemaVersion := by rw [hr]
    rw [hserde.schema hdocument hreceipt] at hschema
    rw [hversion]
    exact hschema
  have hconsistent : (consistencyCheck r).status ≠ .fail := by
    have hsame : consistencyCheck r = consistencyCheck receipt := by
      rw [hr]
      rfl
    rw [hsame]
    exact hbefore.consistency
  have hrecompute : (optionalRecomputeCheck d.backend r opts).status ≠ .fail := by
    rw [optionalRecomputeCheck, hverifier.plain, if_neg Bool.false_ne_true]
    decide
  rw [fileVerifies_iff hreads, ← fits_iff hissued hyaml,
    ← timestamp_unfailing_iff hverifier.pinned hbefore.timestamp hissued]
  constructor
  · intro h
    exact ⟨h.1, h.2.timestamp⟩
  · intro h
    exact ⟨h.1, hconsistent, signature_unfailing hkey hverifier.trusted hissued, h.2, hrecompute⟩

/-- The file that `attest sign` leaves when it ends with code 0 verifies exactly where it is small
enough to be read and no token of another signature is left in it. -/
theorem signed_file_verifies_iff {now now' : DateTime} {path' : String} {content : Bytes}
    {out : Signing} (hserde : d.Serde) (hkey : SignsCorrectly d.machine.recorder key)
    (hverifier : TrustsSigner d files workspace key files' opts)
    (hread : d.readReceipt content = .ok receipt)
    (h : signReceiptFile d files workspace path (.ok key) tsa now content = .ok out)
    (hzero : out.exitCode = 0) :
    ∃ yaml, out.written = some yaml ∧
      (FileVerifies d files' opts path' now' yaml ↔
        Fits d key tsa receipt ∧ NoStaleToken d key files' opts tsa receipt) := by
  obtain ⟨receipt', verdict, key', r, yaml, hread', -, hverdict, hchecks, hkeypair, hissued, hyaml,
    hwritten⟩ := signReceiptFile_zero h hzero
  cases hread.symm.trans hread'
  cases hkeypair
  exact ⟨yaml, hwritten, written_verifies_iff hserde hkey hverifier hread hverdict hchecks hissued hyaml⟩

end Written

/-! ### A receipt signed by one key and again by another -/

def sampleSignatureB : Vector UInt8 64 :=
  #v[20, 254, 178, 29, 229, 213, 134, 207, 230, 100, 231, 107, 118, 130, 235, 162,
    180, 246, 22, 253, 246, 95, 86, 114, 58, 63, 22, 203, 223, 98, 129, 36,
    162, 229, 30, 244, 161, 146, 167, 36, 240, 17, 33, 179, 121, 159, 232, 193,
    159, 193, 19, 122, 137, 63, 221, 248, 72, 74, 192, 130, 32, 50, 175, 4]

/-- What the second sample key signs. -/
def signB (message : Bytes) : Vector UInt8 64 :=
  if message = utf8 (sampleText sampleDate) then sampleSignatureB else Vector.replicate 64 0

def deskCrates : Trust.Crates :=
  { Trust.sampleCrates [] with
    verify := fun key message signature =>
      decide (key = Trust.samplePublicB ∧ signature = signB message) }

/-- The lines of the sample receipt before its signature, as `serde_yaml` writes them. -/
def deskHead : Bytes :=
  utf8 ("schema_version: 3\npipeline_hash: " ++ sampleDigest 'a' ++ "\nsteps:\n" ++
    sampleStepYaml "fetch" (sampleDigest 'b') (sampleDigest 'c') "1" ++
    sampleStepYaml "build" (sampleDigest 'c') (sampleDigest 'b') "2" ++
    "timestamp: 2026-08-01T00:00:00Z\ntotal_duration_secs: 3\nsignature: ")

/-- The lines between the signer and the token. -/
def deskMiddle : Bytes :=
  utf8 ("\nattest_version: 0.3.1\ncausal_events:\n- " ++ sampleDigest 'e' ++ "\n- " ++
    sampleDigest 'd' ++ "\ncausal_chain_hash: " ++ sampleDigest 'f' ++ "\n")

def tokenLine : Option String → Bytes
  | some token => utf8 "timestamp_token: " ++ utf8 token ++ utf8 "\n"
  | none => []

def deskTail (receipt : Receipt) : Bytes :=
  utf8 "\nsigner_public_key: " ++ utf8 (receipt.signerPublicKey.getD "null") ++ deskMiddle ++
    tokenLine receipt.timestampToken

/-- The file of the sample receipt with these three fields. -/
def deskYaml (receipt : Receipt) : Bytes :=
  deskHead ++ (utf8 (receipt.signature.getD "null") ++ deskTail receipt)

/-- A desk at which these two receipts are read and written. -/
def deskOf (before after : Receipt) : Desk where
  machine := { helloMachine sampleDate with
    recorder := ⟨deskCrates, fun _ => signB, "linux", "x86_64", fun _ => sampleDate⟩
    receiptJson := sampleJson
    receiptYaml := fun receipt =>
      if receipt = before ∨ receipt = after then .ok (deskYaml receipt) else .error "unused" }
  timestamps := tsaCrates
  readYaml content :=
    if content = deskYaml before then .ok ⟨some 3, .ok before⟩
    else if content = deskYaml after then .ok ⟨some 3, .ok after⟩
    else .error "expected value"
  readReceipt content :=
    if content = deskYaml before then .ok before
    else if content = deskYaml after then .ok after
    else .error "expected value"
  recomputeCheck _ _ := ⟨"recompute", .skipped, "not recomputed"⟩

theorem serde_deskOf {before after : Receipt} (hne : deskYaml before ≠ deskYaml after)
    (hbefore : before.schemaVersion = some 3) (hafter : after.schemaVersion = some 3) :
    (deskOf before after).Serde where
  direct := by
    intro content document receipt receipt' hyaml hreceipt hread
    simp only [deskOf] at hyaml hread
    split at hyaml
    next =>
      rw [if_pos ‹_›] at hread
      cases hyaml
      cases hreceipt
      exact (Except.ok.inj hread).symm
    next =>
      rw [if_neg ‹_›] at hread
      split at hyaml
      next =>
        rw [if_pos ‹_›] at hread
        cases hyaml
        cases hreceipt
        exact (Except.ok.inj hread).symm
      next => cases hyaml
  schema := by
    intro content document receipt hyaml hreceipt
    simp only [deskOf] at hyaml
    split at hyaml
    next =>
      cases hyaml
      cases hreceipt
      rw [hbefore]
      rfl
    next =>
      split at hyaml
      next =>
        cases hyaml
        cases hreceipt
        rw [hafter]
        rfl
      next => cases hyaml
  reads := by
    intro receipt content hyaml
    simp only [deskOf] at hyaml ⊢
    split at hyaml
    next heither =>
      cases hyaml
      rcases heither with rfl | rfl
      · rw [if_pos rfl, hbefore]
        rfl
      · rw [if_neg (Ne.symm hne), if_pos rfl, hafter]
        rfl
    next => cases hyaml

theorem verifyingKey_seedB : deskCrates.verifyingKey Trust.sampleSeedB = Trust.samplePublicB := by
  decide

theorem signsCorrectly_deskOf (before after : Receipt) :
    SignsCorrectly (deskOf before after).machine.recorder Trust.sampleSeedB where
  point := rfl
  verifies message := by
    show decide (deskCrates.verifyingKey Trust.sampleSeedB = Trust.samplePublicB ∧
      signB message = signB message) = true
    rw [verifyingKey_seedB]
    simp

/-- A trust store with one key, which is trusted. -/
def storeOf (c : Trust.Crates) (key : Trust.VerifyingKey) : Trust.TrustDir where
  trustToml := some (.file (some ⟨1, [⟨Trust.keyId c key, "release", .trusted, none⟩]⟩))
  pubs := AList.insert (Trust.keyId c key) (.file (some key)) ∅

def deskFiles : Files where
  store path := if path = "trust" then some (storeOf deskCrates Trust.samplePublicB) else none
  tsaIssuers _ := [tsaCertificate]
  file _ := none

/-- Signed by the first key and stamped, and then its signer was left out. -/
def strippedReceipt : Receipt :=
  { sampleReceipt sampleDate with
    signature := some (hexEncode sampleSignature.toList)
    timestampToken := some (Base64.encode stampToken) }

theorem length_utf8_ofList (chars : List Char) :
    (utf8 (String.ofList chars)).length ≤ 4 * chars.length := by
  rw [Trust.utf8_ofList]
  induction chars with
  | nil => rfl
  | cons c chars ih =>
    have hsize := c.utf8Size_le_four
    rw [List.flatMap_cons, List.length_append, String.length_utf8EncodeChar, List.length_cons]
    omega

theorem length_encodeChars (bytes : Bytes) :
    (Base64.encodeChars bytes).length ≤ 2 * bytes.length + 4 := by
  induction bytes using Base64.encodeChars.induct with
  | case1 => decide
  | case2 a => simp [Base64.encodeChars]
  | case3 a b => simp [Base64.encodeChars]
  | case4 a b c rest ih =>
    simp only [Base64.encodeChars, List.length_cons]
    omega

set_option maxRecDepth 10000 in
theorem length_stampToken : stampToken.length = 1242 := by
  decide

set_option maxRecDepth 10000 in
theorem length_desk : deskHead.length ≤ 1000 ∧ deskMiddle.length ≤ 1000 := by
  decide

theorem length_strippedReceipt : (deskYaml strippedReceipt).length ≤ maxReceiptBytes := by
  obtain ⟨hhead, hmiddle⟩ := length_desk
  have hsigner : (utf8 "\nsigner_public_key: " ++ utf8 "null").length ≤ 100 := by decide
  have hline : (utf8 "timestamp_token: ").length ≤ 100 ∧ (utf8 "\n").length ≤ 100 := by decide
  have hsignature : (utf8 (hexEncode sampleSignature.toList)).length = 128 := by
    rw [Trust.length_utf8, Trust.utf8ByteSize_hexEncode, Vector.length_toList]
  have htoken := (length_utf8_ofList _).trans (Nat.mul_le_mul_left 4 (length_encodeChars stampToken))
  rw [length_stampToken] at htoken
  have htext : (utf8 (Base64.encode stampToken)).length ≤ 4 * (2 * 1242 + 4) := htoken
  show (deskHead ++ (utf8 (hexEncode sampleSignature.toList) ++
    (utf8 "\nsigner_public_key: " ++ utf8 "null" ++ deskMiddle ++
      (utf8 "timestamp_token: " ++ utf8 (Base64.encode stampToken) ++ utf8 "\n")))).length ≤ _
  rw [List.length_append] at hsigner
  simp only [List.length_append, maxReceiptBytes]
  omega

theorem trusted_storeOf (c : Trust.Crates) (key : Trust.VerifyingKey) (path : String) :
    Trust.storeTrustStatus c path (storeOf c key) (keyHex key) = .ok .trusted := by
  have hlookup : (storeOf c key).pubs.lookup (Trust.keyId c key) = some (.file (some key)) :=
    AList.lookup_insert _
  have hsound : Trust.Sound c (storeOf c key).pubs [⟨Trust.keyId c key, "release", .trusted, none⟩] := by
    refine ⟨by simp, ?_, ?_⟩
    · intro entry hentry
      rw [List.mem_singleton.mp hentry]
      exact Trust.wellFormedId_keyId c key
    · intro entry hentry
      rw [List.mem_singleton.mp hentry]
      exact ⟨key, hlookup, rfl⟩
  have hcheck : Trust.checkEntries c path (storeOf c key).pubs []
      [⟨Trust.keyId c key, "release", .trusted, none⟩] = .ok () :=
    Trust.checkEntries_ok_iff.mpr ⟨hsound, by simp⟩
  have hload : Trust.TrustPolicy.load c path (storeOf c key) =
      .ok ⟨1, [⟨Trust.keyId c key, "release", .trusted, none⟩]⟩ := by
    simp only [Trust.TrustPolicy.load, storeOf, Trust.TrustPolicy.checkAgainst] at hcheck ⊢
    rw [hcheck]
  have hentries : (storeOf c key).pubs.entries = [⟨Trust.keyId c key, .file (some key)⟩] :=
    AList.entries_insert_of_notMem (AList.notMem_empty _)
  have hheld : held (storeOf c key) = {key} := by
    rw [held_eq_filed, hentries, filed_cons]
    simp [filed]
  have hfree : Set.InjOn (Trust.keyId c) (held (storeOf c key)) := by
    rw [hheld]
    exact Set.injOn_singleton _ _
  have hreadable : Readable c path (storeOf c key)
      ⟨1, [⟨Trust.keyId c key, "release", .trusted, none⟩]⟩ := by
    refine ⟨hload, ?_⟩
    rw [Trust.trustDirPublicKeys]
    exact ⟨_, rfl⟩
  rw [storeTrustStatus_of_held hfree hreadable (by rw [hheld]; rfl)]
  simp [Trust.entryTrust, Trust.TrustPolicy.entry]

/-- A verifier with a trust store. -/
def storeOptions : VerifyOptions where
  checkSignatures := true
  recompute := false
  workspace := "."
  trustStore := some "trust"
  trustReceiptTimestamp := false
  required := []

theorem trustsSigner_deskOf (before after : Receipt) :
    TrustsSigner (deskOf before after) deskFiles "." Trust.sampleSeedB deskFiles storeOptions where
  plain := rfl
  trusted := trusted_storeOf deskCrates Trust.samplePublicB "trust"
  pinned := List.Subset.refl _

/-- A receipt with the signature of the second key. -/
def signedAgain (receipt : Receipt) : Receipt :=
  { receipt with
    signature := some (hexEncode sampleSignatureB.toList)
    signerPublicKey := some (keyHex Trust.samplePublicB) }

theorem head?_utf8_hexEncode (b : UInt8) (rest : Bytes) :
    (utf8 (hexEncode (b :: rest))).head? =
      (String.utf8EncodeChar (Nat.digitChar (b.toNat / 16))).head? := by
  have hne : String.utf8EncodeChar (Nat.digitChar (b.toNat / 16)) ≠ [] := by
    rw [ne_eq, ← List.length_eq_zero_iff, String.length_utf8EncodeChar]
    exact (Char.utf8Size_pos _).ne'
  rw [hexEncode, Trust.utf8_ofList, List.flatMap_cons, List.flatMap_append, List.flatMap_cons,
    List.append_assoc, List.head?_append_of_ne_nil _ hne]

/-- The second signature starts with another digit. -/
theorem deskYaml_signedAgain_ne {receipt : Receipt} (h : receipt.signature = none ∨
    receipt.signature = some (hexEncode sampleSignature.toList)) :
    deskYaml receipt ≠ deskYaml (signedAgain receipt) := by
  have hafter : (utf8 (hexEncode sampleSignatureB.toList)).head? = some 49 :=
    head?_utf8_hexEncode 20 _
  have hbefore : ∃ b, (utf8 (receipt.signature.getD "null")).head? = some b ∧ b ≠ 49 := by
    rcases h with h | h
    · rw [h]
      exact ⟨110, by rfl, by decide⟩
    · rw [h]
      exact ⟨52, head?_utf8_hexEncode 71 _, by decide⟩
  obtain ⟨b, hbefore, hb⟩ := hbefore
  intro heq
  have htails := congrArg List.head? (List.append_cancel_left heq)
  rw [List.head?_append, List.head?_append, hbefore] at htails
  have hsigned : (utf8 ((signedAgain receipt).signature.getD "null")).head? = some 49 := hafter
  rw [hsigned] at htails
  exact hb (Option.some.inj htails)

/-- A receipt that the look at it lets through is signed, and written where it is small enough. -/
theorem signReceiptFile_of_unfailing {d : Desk} {files : Files} {workspace path : String}
    {key : SigningKey} {now : DateTime} {content yaml : Bytes} {receipt signed : Receipt}
    (hsize : content.length ≤ maxReceiptBytes) (hread : d.readReceipt content = .ok receipt)
    (hsigner : receipt.signerPublicKey = none) (hreads : ReadsAs d.backend content receipt)
    (hchecks : Unfailing d.backend files (scrutiny workspace) receipt)
    (hsign : signReceipt d.machine (some key) receipt = .ok signed)
    (hyaml : d.machine.receiptYaml signed = .ok yaml) :
    signReceiptFile d files workspace path (.ok key) none now content = .ok ⟨0, none, some yaml⟩ := by
  have hbytes : readReceiptFile path content = .ok content := if_neg (Nat.not_lt.mpr hsize)
  have hfailed : failedChecks (receiptVerdict d.backend files receipt path (scrutiny workspace) now) = [] :=
    failedChecks_eq_nil_iff.mpr (receiptVerdict_unfailing_iff.mpr hchecks)
  refine except_bind_eq_ok.mpr ⟨content, hbytes, ?_⟩
  simp only [hread, hsigner]
  refine except_bind_eq_ok.mpr ⟨_, verifyReceiptBytes_of_readsAs hreads, ?_⟩
  rw [hfailed, if_neg (not_not_intro rfl)]
  refine except_bind_eq_ok.mpr ⟨key, rfl, except_bind_eq_ok.mpr ⟨signed, hsign, ?_⟩⟩
  exact except_bind_eq_ok.mpr ⟨yaml, hyaml, rfl⟩

theorem isDigest_sampleDigest {c : Char} (h : c ∈ ['a', 'b', 'c']) :
    isDigest (sampleDigest c) = true := by
  have hchar : c.utf8Size = 1 ∧ Trust.isLowerHexDigit c = true := by
    revert c
    decide
  have hsize : (sampleDigest c).utf8ByteSize = 64 := by
    rw [← Trust.length_utf8, sampleDigest, Trust.utf8_ofList, List.length_flatMap, List.map_replicate,
      String.length_utf8EncodeChar, hchar.1]
    rfl
  have hlower : isLowerHex (sampleDigest c) = true := by
    rw [isLowerHex, sampleDigest, String.toList_ofList, List.all_replicate, hchar.2]
    rfl
  rw [isDigest, hsize, hlower]
  rfl

theorem consistencyCheck_sample {receipt : Receipt} (hversion : receipt.attestVersion = "0.3.1")
    (hpipeline : receipt.pipelineHash = sampleDigest 'a') (hsteps : receipt.steps = [sampleFetch, sampleBuild]) :
    (consistencyCheck receipt).status = .pass := by
  have hdigest := @isDigest_sampleDigest
  have hproblems : consistencyProblems receipt = [] := by
    simp [consistencyProblems, stepProblems, hversion, hpipeline, hsteps, sampleFetch, sampleBuild, hdigest]
  simp only [consistencyCheck, hproblems, if_true]

section Resigned
variable {receipt : Receipt}

theorem readsAs_deskOf (receipt after : Receipt) :
    ReadsAs (deskOf receipt after).backend (deskYaml receipt) receipt := by
  refine ⟨⟨some 3, .ok receipt⟩, ?_, rfl, rfl⟩
  simp only [Desk.backend, deskOf, if_true]

theorem signReceipt_deskOf {after : Receipt} (h : receipt.timestamp = sampleDate) :
    signReceipt (deskOf receipt after).machine (some Trust.sampleSeedB) receipt =
      .ok (signedAgain receipt) := by
  refine signReceipt_eq_ok.mpr ⟨sampleText sampleDate, ?_, ?_⟩
  · rw [receiptSigningBytes_eq_ok]
    show Except.ok (sampleText receipt.timestamp) = _
    rw [h]
  · have hsign : (deskOf receipt after).machine.recorder.sign Trust.sampleSeedB
        (utf8 (sampleText sampleDate)) = sampleSignatureB := by
      simp only [deskOf, signB, if_true]
    have hpublic : (deskOf receipt after).machine.recorder.crates.verifyingKey Trust.sampleSeedB =
        Trust.samplePublicB := verifyingKey_seedB
    rw [hsign, hpublic]
    rfl

/-- The look at a receipt of the sample's steps, with a token that covers its signature or none. -/
theorem unfailing_deskOf {after : Receipt} (hversion : receipt.attestVersion = "0.3.1")
    (hpipeline : receipt.pipelineHash = sampleDigest 'a') (hsteps : receipt.steps = [sampleFetch, sampleBuild])
    (htoken : ∀ encoded, receipt.timestampToken = some encoded → ∃ signatureHex,
      receipt.signature = some signatureHex ∧
        Covers (deskOf receipt after) deskFiles (scrutiny ".") encoded signatureHex) :
    Unfailing (deskOf receipt after).backend deskFiles (scrutiny ".") receipt where
  consistency := by
    rw [consistencyCheck_sample hversion hpipeline hsteps]
    decide
  signature := by
    intro h
    cases h
  timestamp := timestampCheck_ne_fail_iff.mpr htoken
  recompute := by
    intro h
    cases h

theorem signReceiptFile_deskOf (hunfailing : Unfailing (deskOf receipt (signedAgain receipt)).backend
      deskFiles (scrutiny ".") receipt)
    (hsize : (deskYaml receipt).length ≤ maxReceiptBytes) (hsigner : receipt.signerPublicKey = none)
    (htime : receipt.timestamp = sampleDate) :
    signReceiptFile (deskOf receipt (signedAgain receipt)) deskFiles "." "receipt.yaml"
        (.ok Trust.sampleSeedB) none sampleDate (deskYaml receipt) =
      .ok ⟨0, none, some (deskYaml (signedAgain receipt))⟩ := by
  have hread : (deskOf receipt (signedAgain receipt)).readReceipt (deskYaml receipt) = .ok receipt := by
    simp only [deskOf, if_true]
  have hyaml : (deskOf receipt (signedAgain receipt)).machine.receiptYaml (signedAgain receipt) =
      .ok (deskYaml (signedAgain receipt)) := by
    simp only [deskOf, or_true, if_true]
  exact signReceiptFile_of_unfailing hsize hread hsigner (readsAs_deskOf receipt _) hunfailing
    (signReceipt_deskOf htime) hyaml

end Resigned

theorem length_sampleReceipt :
    (deskYaml (sampleReceipt sampleDate)).length ≤ maxReceiptBytes ∧
      (deskYaml (signedAgain (sampleReceipt sampleDate))).length ≤ maxReceiptBytes := by
  obtain ⟨hhead, hmiddle⟩ := length_desk
  have hnull : (utf8 "\nsigner_public_key: ").length ≤ 100 ∧ (utf8 "null").length ≤ 100 := by decide
  have hsignature : (utf8 (hexEncode sampleSignatureB.toList)).length = 128 := by
    rw [Trust.length_utf8, Trust.utf8ByteSize_hexEncode, Vector.length_toList]
  have hsigner : (utf8 (keyHex Trust.samplePublicB)).length = 64 := by
    rw [Trust.length_utf8, keyHex, Trust.utf8ByteSize_hexEncode, Vector.length_toList]
  constructor
  · show (deskHead ++ (utf8 "null" ++
      (utf8 "\nsigner_public_key: " ++ utf8 "null" ++ deskMiddle ++ []))).length ≤ _
    simp only [List.length_append, List.length_nil, maxReceiptBytes]
    omega
  · show (deskHead ++ (utf8 (hexEncode sampleSignatureB.toList) ++
      (utf8 "\nsigner_public_key: " ++ utf8 (keyHex Trust.samplePublicB) ++ deskMiddle ++ []))).length ≤ _
    simp only [List.length_append, List.length_nil, maxReceiptBytes]
    omega

/-- The desk of a receipt that the second key signs. -/
def deskFor (receipt : Receipt) : Desk := deskOf receipt (signedAgain receipt)

theorem signed_file_verifies_sample :
    FileVerifies (deskFor (sampleReceipt sampleDate)) deskFiles storeOptions "receipt.yaml" sampleDate
      (deskYaml (signedAgain (sampleReceipt sampleDate))) := by
  have hserde : (deskFor (sampleReceipt sampleDate)).Serde :=
    serde_deskOf (deskYaml_signedAgain_ne (.inl rfl)) rfl rfl
  have hread : (deskFor (sampleReceipt sampleDate)).readReceipt (deskYaml (sampleReceipt sampleDate)) =
      .ok (sampleReceipt sampleDate) := by
    simp only [deskFor, deskOf, if_true]
  have hsigning := signReceiptFile_deskOf
    (unfailing_deskOf rfl rfl rfl (fun _ htoken => by cases htoken)) length_sampleReceipt.1 rfl rfl
  have hfits : Fits (deskFor (sampleReceipt sampleDate)) Trust.sampleSeedB none
      (sampleReceipt sampleDate) := by
    intro r yaml hissued hyaml
    obtain ⟨signed, hsign, hissued⟩ := except_bind_eq_ok.mp hissued
    cases hissued
    cases (signReceipt_deskOf rfl).symm.trans hsign
    simp only [deskFor, deskOf, or_true, if_true] at hyaml
    cases hyaml
    exact length_sampleReceipt.2
  have hverifies : ∃ yaml, some (deskYaml (signedAgain (sampleReceipt sampleDate))) = some yaml ∧
      (FileVerifies (deskFor (sampleReceipt sampleDate)) deskFiles storeOptions "receipt.yaml"
        sampleDate yaml ↔
        Fits (deskFor (sampleReceipt sampleDate)) Trust.sampleSeedB none (sampleReceipt sampleDate) ∧
          NoStaleToken (deskFor (sampleReceipt sampleDate)) Trust.sampleSeedB deskFiles storeOptions
            none (sampleReceipt sampleDate)) :=
    signed_file_verifies_iff hserde (signsCorrectly_deskOf _ _) (trustsSigner_deskOf _ _) hread hsigning rfl
  obtain ⟨yaml, hyaml, hiff⟩ := hverifies
  cases hyaml
  exact hiff.mpr ⟨hfits, .inl rfl⟩

theorem signatureImprint_hexEncode (b : Backend) (bytes : Bytes) :
    signatureImprint b (hexEncode bytes) = .ok (b.sha256 bytes) := by
  simp only [signatureImprint, Trust.hexDecode_hexEncode]

/-- The imprints of the two signatures, as the crates have them. -/
theorem imprints_stripped (after : Receipt) :
    signatureImprint (deskOf strippedReceipt after).backend (hexEncode sampleSignature.toList) =
        .ok stampedImprint ∧
      signatureImprint (deskOf strippedReceipt after).backend (hexEncode sampleSignatureB.toList) ≠
        .ok stampedImprint := by
  obtain ⟨-, -, -, hsignature, hother⟩ := texts_stamp
  have hinfo : sampleSignatureB.toList ≠ stampInfo := by
    intro h
    exact absurd (congrArg List.head? h) (by decide)
  have hfirst : sampleSignatureB.toList ≠ stampedSignature := by
    intro h
    rw [← hsignature] at h
    exact absurd (congrArg List.head? h) (by decide)
  have hzero : Vector.replicate 32 0 ≠ stampedImprint := by decide
  have hsha : (deskOf strippedReceipt after).backend.sha256 = tsaCrates.sha256 := rfl
  have hold : tsaCrates.sha256 sampleSignature.toList = stampedImprint := by
    simp only [tsaCrates]
    rw [if_neg hother, if_pos hsignature]
  have hnew : tsaCrates.sha256 sampleSignatureB.toList = Vector.replicate 32 0 := by
    simp only [tsaCrates]
    rw [if_neg hinfo, if_neg hfirst]
  constructor
  · rw [signatureImprint_hexEncode, hsha, hold]
  · rw [signatureImprint_hexEncode, hsha, hnew]
    exact fun h => hzero (Except.ok.inj h)

/-- The signer was taken out of a stamped receipt; another key signs it, and the token of the
first signature stays. -/
theorem stale_token_left :
    (deskFor strippedReceipt).Serde ∧
    SignsCorrectly (deskFor strippedReceipt).machine.recorder Trust.sampleSeedB ∧
    TrustsSigner (deskFor strippedReceipt) deskFiles "." Trust.sampleSeedB deskFiles storeOptions ∧
    signReceiptFile (deskFor strippedReceipt) deskFiles "." "receipt.yaml" (.ok Trust.sampleSeedB) none
        sampleDate (deskYaml strippedReceipt) =
      .ok ⟨0, none, some (deskYaml (signedAgain strippedReceipt))⟩ ∧
    (signedAgain strippedReceipt).timestampToken = strippedReceipt.timestampToken ∧
    ¬ FileVerifies (deskFor strippedReceipt) deskFiles storeOptions "receipt.yaml" sampleDate
      (deskYaml (signedAgain strippedReceipt)) := by
  have hserde : (deskFor strippedReceipt).Serde :=
    serde_deskOf (deskYaml_signedAgain_ne (.inr rfl)) rfl rfl
  have hread : (deskFor strippedReceipt).readReceipt (deskYaml strippedReceipt) =
      .ok strippedReceipt := by
    simp only [deskFor, deskOf, if_true]
  obtain ⟨himprint, hnew⟩ := imprints_stripped (signedAgain strippedReceipt)
  have hcovers : ∀ encoded, strippedReceipt.timestampToken = some encoded → ∃ signatureHex,
      strippedReceipt.signature = some signatureHex ∧
        Covers (deskFor strippedReceipt) deskFiles (scrutiny ".") encoded signatureHex := by
    intro encoded hencoded
    have htoken : Base64.encode stampToken = encoded := Option.some.inj hencoded
    subst htoken
    exact ⟨_, rfl, stampToken, stampedImprint, stampVerified, Base64.decode_encode _, himprint,
      verifyToken_stamp⟩
  have hunfailing := unfailing_deskOf rfl rfl rfl hcovers
  have hsigning := signReceiptFile_deskOf hunfailing length_strippedReceipt rfl rfl
  refine ⟨hserde, signsCorrectly_deskOf _ _, trustsSigner_deskOf _ _, hsigning, rfl, ?_⟩
  obtain ⟨receipt, verdict, key, r, yaml, hread', -, hverdict, hchecks, hkey, hissued, hyaml, hwritten⟩ :=
    signReceiptFile_zero hsigning rfl
  obtain rfl := Except.ok.inj hkey
  obtain rfl := Option.some.inj hwritten
  obtain rfl := Except.ok.inj (hread.symm.trans hread')
  rw [written_verifies_iff hserde (signsCorrectly_deskOf _ _) (trustsSigner_deskOf _ _) hread hverdict
    hchecks hissued hyaml]
  intro h
  obtain ⟨old, signed, new, imprint, hold, hsign, hsignature, himprint', hsame⟩ :=
    h.2.resolve_left (Option.some_ne_none _)
  obtain rfl := Option.some.inj hold
  obtain rfl := Except.ok.inj ((signReceipt_deskOf rfl).symm.trans hsign)
  obtain rfl := Option.some.inj hsignature
  obtain rfl := Except.ok.inj (himprint.symm.trans himprint')
  exact hnew hsame

end Attest.Executor
