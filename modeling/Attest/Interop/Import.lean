import Attest.Library.SelfDelimiting
import Attest.Verify.Checks

/-! The signature of an imported statement, as `interop.rs` judges it.

A DSSE envelope names its key by id. The key file with that id gives the key, the
policy entry with that id gives the trust, and there is no token: a revoked key's
statement is refused unless the caller takes the statement's own `finishedOn` for the
time it was signed. -/
namespace Attest.Interop
open Trust Verify Library

structure EnvelopeSignature where
  keyid : String
  sig : String

/-- A DSSE envelope; its payload is given decoded. -/
structure Envelope where
  payloadType : String
  signatures : List EnvelopeSignature

/-- What the signature check reads of a statement. -/
structure Statement where
  finishedOn : String

structure ImportOptions where
  workspace : String
  trustStore : Option String
  trustStatementTime : Bool

def ImportOptions.store (options : ImportOptions) : String :=
  options.trustStore.getD (joinPath (joinPath options.workspace ".attest") "trust")

/-- DSSE Pre-Authentication Encoding (v1). -/
def pae (payloadType : String) (payload : Bytes) : Bytes :=
  utf8 "DSSEv1 " ++ utf8 (toString payloadType.utf8ByteSize) ++ utf8 " " ++ utf8 payloadType ++
    utf8 " " ++ utf8 (toString payload.length) ++ utf8 " " ++ payload

def lengthText (n : Nat) : Bytes := utf8 (toString n)

theorem lengthText_injective : Function.Injective lengthText :=
  fun _ _ h => Text.toString_nat_inj (utf8_injective h)

/-- The type and the payload, each behind its length. -/
theorem pae_eq (payloadType : String) (payload : Bytes) : pae payloadType payload =
    utf8 "DSSEv1 " ++ (counted lengthText 32 (utf8 payloadType) ++
      32 :: counted lengthText 32 payload) := by
  have hspace : utf8 " " = [32] := by decide
  rw [counted, counted, length_utf8, pae, hspace]
  simp only [lengthText, List.append_assoc, List.cons_append, List.nil_append]

/-- **What is signed tells the type and the payload it was made from.** -/
theorem pae_injective : Function.Injective2 pae := by
  intro payloadType payloadType' payload payload' h
  rw [pae_eq, pae_eq] at h
  -- No length holds a blank, so each part is read off the front of what follows it.
  have hblank : ∀ n, 32 ∉ lengthText n := Trust.notMem_utf8_toString (by decide)
  have hcounted := selfDelimiting_counted hblank lengthText_injective
  obtain ⟨htype, hrest⟩ := hcounted _ _ _ _ (List.append_cancel_left h)
  exact ⟨utf8_injective htype, hcounted.injective (List.cons.inj hrest).2⟩

/-- `DateTime::<Utc>::MAX_UTC`. -/
def maxUtc : DateTime := ⟨maxSecs, 999999999, by decide, by decide⟩

section Check
variable (c : Crates) (files : Files) (parseRfc3339 : String → Option DateTime)

/-- The branch for a revoked key. -/
def judgeRevokedStatement (keyid : String) (publicKeyHex : String) (revokedAt : DateTime)
    (statement : Statement) (options : ImportOptions) : SignatureVerdict :=
  if !options.trustStatementTime then
    refused (s!"signed by revoked key {keyid} and an in-toto statement carries no independent " ++
      "proof of when it was signed, only a finishedOn the signer wrote inside the signed " ++
      "payload; verify the receipt itself with a timestamp token, or pass " ++
      "--trust-statement-time to accept the signer's own word")
  else
    let finished := (parseRfc3339 statement.finishedOn).getD maxUtc
    if revokedAt < finished then
      refused s!"signed by key {keyid} after its revocation at {revokedAt}"
    else
      { check := ⟨"signature", .pass, s!"valid DSSE signature by trusted key {keyid}"⟩
        signedBy := some publicKeyHex
        warnings := [s!"signed by key revoked later ({keyid} revoked at {revokedAt})"] }

/-- What the policy entry says of a signature that verifies. -/
def judgeEntry (keyid : String) (publicKeyHex : String) (entry : Option TrustEntry)
    (statement : Statement) (options : ImportOptions) : SignatureVerdict :=
  match entry with
  | none => refused s!"keyid {keyid} has a public key in the trust store but no trust entry"
  | some entry =>
    match entry.status with
    | .revoked =>
      judgeRevokedStatement parseRfc3339 keyid publicKeyHex (entry.revokedAt.getD .minUtc)
        statement options
    | .trusted =>
      { check := ⟨"signature", .pass, s!"valid DSSE signature by trusted key {keyid}"⟩
        signedBy := some publicKeyHex }

/-- The text of the base64 reader's own error is left out. -/
def signatureCheck (envelope : Envelope) (payload : Bytes) (statement : Statement)
    (options : ImportOptions) : SignatureVerdict :=
  match envelope.signatures with
  | [] => refused "envelope is unsigned"
  | _ :: _ :: _ =>
    refused ("multiple DSSE signatures are unsupported; no subset is represented as fully " ++
      "verified")
  | [signature] =>
    -- a store that is not a directory has no keys
    let dir := (files.store options.store).getD {}
    match trustDirPublicKeys c dir with
    | .error err => refused s!"cannot load trust store: {err}"
    | .ok trusted =>
      match trusted.lookup signature.keyid with
      | none => refused s!"keyid {signature.keyid} is not in the trust store"
      | some publicKeyHex =>
        match Base64.decode signature.sig with
        | none => refused "signature is not valid base64"
        | some signatureBytes =>
          match verifyWithPublicKey c publicKeyHex (pae envelope.payloadType payload)
              (hexEncode signatureBytes) with
          | .error err => refused s!"malformed signature material: {err}"
          | .ok false => refused "DSSE signature does not verify against the trusted key"
          | .ok true =>
            match TrustPolicy.load c options.store dir with
            | .error err => refused s!"cannot load trust policy: {err}"
            | .ok policy =>
              judgeEntry parseRfc3339 signature.keyid publicKeyHex (policy.entry signature.keyid)
                statement options

end Check

/-! ### Revoked keys -/

section Revoked
variable {c : Crates} {files : Files} {parseRfc3339 : String → Option DateTime}

/-- Whatever comes before, a statement passes by an entry that lets it. -/
theorem signatureCheck_pass {envelope : Envelope} {payload : Bytes} {statement : Statement}
    {options : ImportOptions}
    (h : (signatureCheck c files parseRfc3339 envelope payload statement options).check.status =
      .pass) :
    ∃ keyid sig hex policy, envelope.signatures = [⟨keyid, sig⟩] ∧
      TrustPolicy.load c options.store ((files.store options.store).getD {}) = .ok policy ∧
      (judgeEntry parseRfc3339 keyid hex (policy.entry keyid) statement options).check.status =
        .pass := by
  unfold signatureCheck at h
  split at h
  next => cases h
  next => cases h
  next signature hsignatures =>
    simp only at h
    split at h
    next => cases h
    next managed hmanaged =>
      split at h
      next => cases h
      next hex hhex =>
        split at h
        next => cases h
        next =>
          split at h
          next => cases h
          next => cases h
          next =>
            split at h
            next => cases h
            next policy hload => exact ⟨_, _, hex, policy, hsignatures, hload, h⟩

/-- The signature check passes or fails. -/
theorem signatureCheck_fail_iff {envelope : Envelope} {payload : Bytes} {statement : Statement}
    {options : ImportOptions} :
    (signatureCheck c files parseRfc3339 envelope payload statement options).check.status = .fail ↔
      ¬ (signatureCheck c files parseRfc3339 envelope payload statement options).check.status =
        .pass := by
  have hentry : ∀ keyid hex entry, (judgeEntry parseRfc3339 keyid hex entry statement
      options).check.status = .fail ↔ ¬ (judgeEntry parseRfc3339 keyid hex entry statement
        options).check.status = .pass := by
    intro keyid hex entry
    unfold judgeEntry judgeRevokedStatement
    split
    next => simp [refused]
    next =>
      split
      next =>
        split
        next => simp [refused]
        next =>
          simp only
          split
          next => simp [refused]
          next => simp
      next => simp
  unfold signatureCheck
  split
  next => simp [refused]
  next => simp [refused]
  next =>
    simp only
    split
    next => simp [refused]
    next =>
      split
      next => simp [refused]
      next =>
        split
        next => simp [refused]
        next =>
          split
          next => simp [refused]
          next => simp [refused]
          next =>
            split
            next => simp [refused]
            next => exact hentry _ _ _

/-- A revoked entry lets a statement pass when the statement's own time is taken and is not after
the revocation. -/
theorem judgeEntry_revoked_pass {keyid hex : String} {entry : TrustEntry} {statement : Statement}
    {options : ImportOptions} (hstatus : entry.status = .revoked)
    (h : (judgeEntry parseRfc3339 keyid hex (some entry) statement options).check.status = .pass) :
    options.trustStatementTime = true ∧
      (parseRfc3339 statement.finishedOn).getD maxUtc ≤ entry.revokedAt.getD .minUtc := by
  simp only [judgeEntry, hstatus, judgeRevokedStatement] at h
  split at h
  next => cases h
  next htime =>
    split at h
    next => cases h
    next hle => exact ⟨by simpa using htime, not_lt.mp hle⟩

end Revoked

end Attest.Interop
