import Mathlib.Data.Rat.Cast.Order
import Attest.Timestamp.Token
import Attest.Verify.Signatures

/-! Revocations and the time of a token.

A token can state a fraction of a second, and a revocation has nanoseconds. The time that
`verify_token` hands on is the whole second, so that a token from behind a revocation, in the same
second, is taken to be from before it. `later_token_refused_iff` says when it is refused. -/
namespace Attest.Verify
open Library Timestamp
open Trust (Bytes DateTime KeyTrust TrustEntry utf8 hexEncode keyId samplePublicA sampleIdA)
open Storage

/-! ### The time a token states -/

/-- The fraction behind the whole second: none, or digits behind a dot. -/
def fractionOf (stripped : List Char) : Option ℚ :=
  match stripped.dropWhile (· ≠ '.') with
  | [] => some 0
  | _ :: digits =>
    if digits ≠ [] ∧ digits.all Char.isDigit then
      some (Nat.ofDigitChars 10 digits 0 / 10 ^ digits.length)
    else none

/-- The whole second and the fraction that a `GeneralizedTime` denotes. -/
def statedTime (c : TimestampCrates) (raw : Bytes) : Option (DateTime × ℚ) := do
  let text ← textOf raw
  let stripped ← stripZ text
  let whole ← c.parseNaive (String.ofList (stripped.takeWhile (· ≠ '.')))
  let fraction ← fractionOf stripped
  return (whole, fraction)

/-- A moment is before a time that has a fraction. -/
def Precedes (d : DateTime) (stated : DateTime × ℚ) : Prop :=
  (d.ticks : ℚ) < stated.1.ticks + stated.2 * 1000000000

theorem parseGeneralizedTime_of_stated {c : TimestampCrates} {raw : Bytes} {whole : DateTime}
    {fraction : ℚ} (h : statedTime c raw = some (whole, fraction)) :
    parseGeneralizedTime c raw = .ok whole := by
  obtain ⟨text, htext, h⟩ := Option.bind_eq_some_iff.mp h
  obtain ⟨stripped, hstripped, h⟩ := Option.bind_eq_some_iff.mp h
  obtain ⟨found, hfound, h⟩ := Option.bind_eq_some_iff.mp h
  obtain ⟨_, _, h⟩ := Option.bind_eq_some_iff.mp h
  cases h
  simp only [parseGeneralizedTime, htext, hstripped, hfound]

/-! ### What the verifier takes -/

/-- The verifier, with tokens verified by `verify_token`. -/
def Backend.stamping (b : Backend) (c : TimestampCrates) : Backend :=
  { b with
    sha256 := c.sha256
    verifyToken := fun token imprint issuers =>
      match Timestamp.verifyToken c token imprint issuers with
      | .ok v => .ok (v.info.genTime, v.signer)
      | .error e => .error e.text }

section Stamped
variable {b : Backend} {c : TimestampCrates} {files : Files} {opts : VerifyOptions}
  {receipt : Receipt} {raw : Bytes} {whole d : DateTime} {fraction : ℚ} {publicKeyHex : String}

/-- The receipt carries a token over its signature that verifies, with a time in these bytes. -/
def Stamped (b : Backend) (c : TimestampCrates) (files : Files) (opts : VerifyOptions)
    (receipt : Receipt) (raw : Bytes) : Prop :=
  ∃ encoded signatureHex token imprint v tstInfo policy serial,
    receipt.timestampToken = some encoded ∧ receipt.signature = some signatureHex ∧
      Base64.decode encoded = some token ∧
      signatureImprint (b.stamping c) signatureHex = .ok imprint ∧
      verifyToken c token imprint (files.tsaIssuers opts.store) = .ok v ∧
      encapsulatedTstInfo token = .ok tstInfo ∧ readTstInfo tstInfo imprint = .ok (policy, serial, raw)

/-- The time that is handed on is the whole second. -/
theorem timestampCheck_of_stamped (h : Stamped b c files opts receipt raw)
    (hstated : statedTime c raw = some (whole, fraction)) :
    (timestampCheck (b.stamping c) files receipt opts).1.status = .pass ∧
      (timestampCheck (b.stamping c) files receipt opts).2 = some whole := by
  obtain ⟨encoded, signatureHex, token, imprint, v, tstInfo, policy, serial, htoken, hsignature,
    hdecode, himprint, hverify, hinfo, hread⟩ := h
  obtain ⟨_, _, hparsed, _, _, _, _, hpinned, _⟩ := verifyToken_eq_ok hverify
  have htime : v.info.genTime = whole := by
    obtain ⟨found, hfound, hparsed⟩ := Fallible.except_bind_eq_ok.mp hparsed
    obtain ⟨raw', hread', hraw⟩ := parseTstInfo_eq_ok hparsed
    cases hfound.symm.trans hinfo
    cases hread'.symm.trans hread
    exact Except.ok.inj (hraw.symm.trans (parseGeneralizedTime_of_stated hstated))
  have hissuers : files.tsaIssuers opts.store ≠ [] := by
    obtain ⟨der, hder, _⟩ := issuedByPinned_iff.mp hpinned
    exact List.ne_nil_of_mem hder
  have hbackend : (b.stamping c).verifyToken token imprint (files.tsaIssuers opts.store) =
      .ok (whole, v.signer) := by
    simp only [Backend.stamping, hverify, htime]
  simp only [timestampCheck, htoken, hsignature, hdecode, himprint, if_neg hissuers, hbackend, and_self]

theorem signatureCheck_of_revoked {time : DateTime}
    (hsigned : SignedBy b receipt publicKeyHex)
    (hrevoked : keyTrustStatus b files opts publicKeyHex = .ok (.revoked d)) :
    (signatureCheck b files receipt opts (some time)).check.status = .pass ↔ time ≤ d := by
  have hjudged : (Trust.judgeSigned b.crates (keyTrustStatus b files opts publicKeyHex)
      (asked receipt opts (some time) publicKeyHex)).passed = true ↔ time ≤ d := by
    rw [judgeSigned_passed_iff, hrevoked]
    simp [asked, Trust.Signed.signedAt]
  rw [signatureCheck_pass_iff, ← hjudged]
  constructor
  · intro h
    obtain ⟨hex, hhex, hpassed⟩ := h
    obtain ⟨_, _, _, hkey, _⟩ := hsigned
    obtain ⟨_, _, _, hkey', _⟩ := hhex
    rwa [← Option.some.inj (hkey.symm.trans hkey')] at hpassed
  · intro h
    exact ⟨publicKeyHex, hsigned, h⟩

theorem fractionOf_nonneg {stripped : List Char} (h : fractionOf stripped = some fraction) :
    0 ≤ fraction := by
  unfold fractionOf at h
  split at h
  next =>
    cases h
    exact le_refl 0
  next =>
    split at h
    next =>
      cases h
      exact div_nonneg (Nat.cast_nonneg _) (pow_nonneg (by decide) _)
    next => cases h

/-- The whole second is before the time that was stated, unless there is no fraction. -/
theorem precedes_self_iff (hstated : statedTime c raw = some (whole, fraction)) :
    Precedes whole (whole, fraction) ↔ fraction ≠ 0 := by
  obtain ⟨_, _, h⟩ := Option.bind_eq_some_iff.mp hstated
  obtain ⟨_, _, h⟩ := Option.bind_eq_some_iff.mp h
  obtain ⟨_, _, h⟩ := Option.bind_eq_some_iff.mp h
  obtain ⟨found, hfraction, h⟩ := Option.bind_eq_some_iff.mp h
  cases h
  have hnonneg := fractionOf_nonneg hfraction
  unfold Precedes
  constructor
  · intro h hzero
    simp [hzero] at h
  · intro h
    have hpos : 0 < fraction := lt_of_le_of_ne hnonneg (Ne.symm h)
    dsimp only
    linarith

/-- **A token from behind a revocation.** The time that is handed on is the whole second that the
token's own time begins with. A token that states a later time than the revocation is refused just
when the revocation does not come between that second and the time. -/
theorem later_token_refused_iff (hsigned : SignedBy (b.stamping c) receipt publicKeyHex)
    (hrevoked : keyTrustStatus (b.stamping c) files opts publicKeyHex = .ok (.revoked d))
    (hstamped : Stamped b c files opts receipt raw)
    (hstated : statedTime c raw = some (whole, fraction)) :
    ((Precedes d (whole, fraction) →
      (signatureCheck (b.stamping c) files receipt opts
        (timestampCheck (b.stamping c) files receipt opts).2).check.status = .fail) ↔
          ¬ (whole ≤ d ∧ Precedes d (whole, fraction))) ∧
      (timestampCheck (b.stamping c) files receipt opts).2 = some whole ∧
      (¬ Precedes whole (whole, fraction) ↔ fraction = 0) := by
  obtain ⟨_, htime⟩ := timestampCheck_of_stamped hstamped hstated
  have hpass := @signatureCheck_of_revoked (b.stamping c) files opts receipt d publicKeyHex whole
    hsigned hrevoked
  rw [htime, signatureCheck_fail_iff, hpass]
  refine ⟨?_, rfl, ?_⟩
  · exact ⟨fun h hboth => h hboth.2 hboth.1, fun h hlater hle => h ⟨hle, hlater⟩⟩
  · rw [precedes_self_iff hstated, not_not]

end Stamped

/-! ### The sample receipt, stamped

The token states nine tenths of a second past midnight. -/

def stampText : String := "20260801000000.9Z"

def stampedReceipt : Receipt :=
  { sampleSignedReceipt sampleDate sampleSignature with
    timestampToken := some (Base64.encode stampToken) }

/-- The key was revoked at a moment, and the authority is pinned. -/
def revokedEntry (d : DateTime) : TrustEntry := ⟨sampleIdA, "authority", .revoked, some d⟩

def stampedFiles (d : DateTime) : Files :=
  { sampleFiles (revokedEntry d) with tsaIssuers := fun _ => [tsaCertificate] }

def stampingBackend : Backend := sampleBackend.stamping tsaCrates

theorem texts_stamp :
    encapsulatedTstInfo stampToken = .ok stampInfo ∧
      readTstInfo stampInfo stampedImprint = .ok ("1.2.3", "01", ascii stampText) ∧
      textOf (ascii stampText) = some stampText ∧ sampleSignature.toList = stampedSignature ∧
      sampleSignature.toList ≠ stampInfo := by
  decide +kernel

theorem stamped_sample (d : DateTime) :
    Stamped sampleBackend tsaCrates (stampedFiles d) sampleOptions stampedReceipt
      (ascii stampText) := by
  obtain ⟨hinfo, hread, _, hsignature, hother⟩ := texts_stamp
  have himprint : signatureImprint (sampleBackend.stamping tsaCrates)
      (hexEncode sampleSignature.toList) = .ok stampedImprint := by
    simp only [signatureImprint, Trust.hexDecode_hexEncode]
    show Except.ok (if sampleSignature.toList = stampInfo then stampDigest
      else if sampleSignature.toList = stampedSignature then stampedImprint
      else Vector.replicate 32 0) = _
    rw [if_neg hother, if_pos hsignature]
  exact ⟨_, _, stampToken, stampedImprint, stampVerified, stampInfo, "1.2.3", "01", rfl, rfl,
    Base64.decode_encode _, himprint, verifyToken_stamp, hinfo, hread⟩

theorem statedTime_stamp : statedTime tsaCrates (ascii stampText) = some (stampDate, 9 / 10) := by
  have hstripped : stripZ stampText = some "20260801000000.9".toList := by rfl
  have hwhole : tsaCrates.parseNaive
      (String.ofList ("20260801000000.9".toList.takeWhile (· ≠ '.'))) = some stampDate := by
    rfl
  have hfraction : fractionOf "20260801000000.9".toList = some (9 / 10) := by
    have htail : "20260801000000.9".toList.dropWhile (· ≠ '.') = ['.', '9'] := by rfl
    rw [fractionOf, htail]
    norm_num [Nat.ofDigitChars]
    exact ⟨by decide, rfl⟩
  simp only [statedTime, texts_stamp.2.2.1, hstripped, hwhole, hfraction, bind, Option.bind, pure]

theorem keyTrustStatus_stamp (d : DateTime) :
    keyTrustStatus (sampleBackend.stamping tsaCrates) (stampedFiles d) sampleOptions
      (keyHex samplePublicA) = .ok (.revoked d) := by
  have hentry : Trust.TrustPolicy.entry ⟨1, [revokedEntry d]⟩
      (keyId (sampleBackend.stamping tsaCrates).crates samplePublicA) = some (revokedEntry d) := by
    rw [show keyId (sampleBackend.stamping tsaCrates).crates samplePublicA = sampleIdA from
      keyId_samplePublicA]
    simp [Trust.TrustPolicy.entry, revokedEntry]
  have hfree : Set.InjOn (keyId (sampleBackend.stamping tsaCrates).crates)
      (insert samplePublicA (held (sampleStore (revokedEntry d)))) := by
    have hpair := injOn_sampleStore (revokedEntry d)
    rwa [Set.singleton_union] at hpair
  have hdir : (stampedFiles d).store sampleOptions.store = some (sampleStore (revokedEntry d)) := rfl
  rw [keyTrustStatus_of_entry hdir hfree
    (readable_sampleStore keyId_samplePublicA rfl sampleOptions.store) hentry]
  simp only [Trust.entryTrust, hentry]
  rfl

theorem signedBy_stamp :
    SignedBy (sampleBackend.stamping tsaCrates) stampedReceipt (keyHex samplePublicA) :=
  signedBy_sample (.inl ⟨rfl, rfl⟩)

theorem earlier_inRange : Trust.minSecs ≤ 1785542399 ∧ 1785542399 ≤ Trust.maxSecs := by decide
theorem half_lt : 500000000 < 2000000000 := by decide

/-- Half a second before midnight. -/
def beforeMidnight : DateTime := ⟨1785542399, 500000000, earlier_inRange, half_lt⟩

/-- Half a second past midnight. -/
def pastMidnight : DateTime := ⟨1785542400, 500000000, stampDate_inRange, half_lt⟩

theorem later_token_refused_sample :
    ((Precedes beforeMidnight (stampDate, 9 / 10) →
      (signatureCheck (sampleBackend.stamping tsaCrates) (stampedFiles beforeMidnight) stampedReceipt
        sampleOptions (timestampCheck (sampleBackend.stamping tsaCrates)
          (stampedFiles beforeMidnight) stampedReceipt sampleOptions).2).check.status = .fail) ↔
        ¬ (stampDate ≤ beforeMidnight ∧ Precedes beforeMidnight (stampDate, 9 / 10))) ∧
      (timestampCheck (sampleBackend.stamping tsaCrates) (stampedFiles beforeMidnight) stampedReceipt
        sampleOptions).2 = some stampDate ∧
      (¬ Precedes stampDate (stampDate, 9 / 10) ↔ (9 / 10 : ℚ) = 0) :=
  later_token_refused_iff signedBy_stamp (keyTrustStatus_stamp _) (stamped_sample _) statedTime_stamp

/-- The key was revoked half a second past midnight, and a token of four tenths of a second later
is taken to be of midnight: the signature passes. -/
theorem later_token_passes :
    statedTime tsaCrates (ascii stampText) = some (stampDate, 9 / 10) ∧
      Precedes pastMidnight (stampDate, 9 / 10) ∧
      Stamped sampleBackend tsaCrates (stampedFiles pastMidnight) sampleOptions stampedReceipt
        (ascii stampText) ∧
      (signatureCheck (sampleBackend.stamping tsaCrates) (stampedFiles pastMidnight) stampedReceipt
        sampleOptions (timestampCheck (sampleBackend.stamping tsaCrates)
          (stampedFiles pastMidnight) stampedReceipt sampleOptions).2).check.status = .pass := by
  have hlater : Precedes pastMidnight (stampDate, 9 / 10) := by
    norm_num [Precedes, pastMidnight, stampDate, DateTime.ticks]
  refine ⟨statedTime_stamp, hlater, stamped_sample _, ?_⟩
  rw [(timestampCheck_of_stamped (stamped_sample pastMidnight) statedTime_stamp).2,
    signatureCheck_of_revoked signedBy_stamp (keyTrustStatus_stamp _)]
  decide

end Attest.Verify
