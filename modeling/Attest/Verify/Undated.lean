import Attest.Interop.Import
import Attest.Verify.Signatures

/-! Revocations without a date.

Both verifiers read a revocation without a date as one at `MIN_UTC`, and refuse what is
after it. A receipt carries any moment there is, so one dated `MIN_UTC` itself is not
refused. A statement carries an RFC 3339 text with a year of four digits, and every
such text is after `MIN_UTC`. -/
namespace Attest.Verify
open Trust Storage

/-- The first second of the day before the year 0, in UTC: an RFC 3339 text has a year of four
digits and an offset of less than a day. -/
def rfc3339Start : Int := -62167305600

theorem minUtc_lt_of_rfc3339 {t : DateTime} (h : rfc3339Start ≤ t.secs) : .minUtc < t := by
  show DateTime.minUtc.ticks < t.ticks
  simp only [DateTime.ticks, DateTime.minUtc, minSecs]
  unfold rfc3339Start at h
  omega

theorem minUtc_lt_maxUtc : DateTime.minUtc < Interop.maxUtc := minUtc_lt_of_rfc3339 (by decide)

section Interop
variable {c : Crates} {files : Files} {parseRfc3339 : String → Option DateTime}

/-- The importer passes no statement under a revocation without a date. -/
theorem interop_fail_of_undated
    (hrfc : ∀ text t, parseRfc3339 text = some t → rfc3339Start ≤ t.secs)
    {options : Interop.ImportOptions} {policy : TrustPolicy} {entry : TrustEntry} {id : String}
    (hload : TrustPolicy.load c options.store ((files.store options.store).getD {}) = .ok policy)
    (hentry : policy.entry id = some entry) (hstatus : entry.status = .revoked)
    (hdate : entry.revokedAt = none) {envelope : Interop.Envelope}
    (hkeyid : ∀ signature ∈ envelope.signatures, signature.keyid = id) {payload : Bytes}
    {statement : Interop.Statement} :
    (Interop.signatureCheck c files parseRfc3339 envelope payload statement options).check.status =
      .fail := by
  refine Interop.signatureCheck_fail_iff.mpr ?_
  intro hpass
  obtain ⟨keyid, sig, hex, policy', hsignatures, hload', hjudged⟩ :=
    Interop.signatureCheck_pass hpass
  have hpolicy : policy' = policy := Except.ok.inj (hload'.symm.trans hload)
  have hid : keyid = id := hkeyid ⟨keyid, sig⟩ (by rw [hsignatures]; exact List.mem_singleton_self _)
  rw [hpolicy, hid, hentry] at hjudged
  obtain ⟨-, hle⟩ := Interop.judgeEntry_revoked_pass hstatus hjudged
  rw [hdate, Option.getD_none] at hle
  -- whatever the statement says, it is after the first moment
  have hlt : DateTime.minUtc < (parseRfc3339 statement.finishedOn).getD Interop.maxUtc := by
    cases htext : parseRfc3339 statement.finishedOn with
    | none => exact minUtc_lt_maxUtc
    | some t => exact minUtc_lt_of_rfc3339 (hrfc _ t htext)
  exact absurd hlt (not_lt.mpr hle)

end Interop

/-- Both verifiers refuse what names the key: receipts here, statements in the importer. -/
structure RefusedByBoth (b : Backend) (files : Files) (parseRfc3339 : String → Option DateTime)
    (opts : VerifyOptions) (receipt : Receipt) (trustedTime : Option DateTime) (id : String) :
    Prop where
  receipts : (signatureCheck b files receipt opts trustedTime).check.status = .fail
  statements : ∀ envelope payload statement options, options.store = opts.store →
    (∀ signature ∈ Interop.Envelope.signatures envelope, signature.keyid = id) →
    (Interop.signatureCheck b.crates files parseRfc3339 envelope payload statement
      options).check.status = .fail

section Undated
variable {b : Backend} {files : Files} {parseRfc3339 : String → Option DateTime}
  {opts : VerifyOptions} {receipt : Receipt} {trustedTime : Option DateTime} {dir : TrustDir}
  {policy : TrustPolicy} {key : VerifyingKey} {entry : TrustEntry}

/-- A receipt signed by the key passes at the first moment only. -/
theorem pass_iff_of_undated (hdir : files.store opts.store = some dir)
    (hfree : Set.InjOn (keyId b.crates) (insert key (held dir)))
    (hload : TrustPolicy.load b.crates opts.store dir = .ok policy)
    (hentry : policy.entry (keyId b.crates key) = some entry) (hstatus : entry.status = .revoked)
    (hdate : entry.revokedAt = none) (hsigner : receipt.signerPublicKey = some (keyHex key)) :
    (signatureCheck b files receipt opts trustedTime).check.status = .pass ↔
      SignedBy b receipt (keyHex key) ∧ (∃ managed, trustDirPublicKeys b.crates dir = .ok managed) ∧
        timeUsed receipt opts trustedTime = some .minUtc := by
  constructor
  · intro hpass
    obtain ⟨hex, hsigned, hpassed⟩ := signatureCheck_pass_iff.mp hpass
    have hhex : hex = keyHex key := by
      obtain ⟨-, -, -, hnamed, -⟩ := hsigned
      exact Option.some.inj (hnamed.symm.trans hsigner)
    subst hhex
    -- the store was read, since the key resolved
    have hkeys : ∃ managed, trustDirPublicKeys b.crates dir = .ok managed := by
      rw [keyTrustStatus_of_dir hdir, judgeSigned_passed_iff] at hpassed
      rcases hpassed with htrusted | ⟨_, _, hrevoked, -⟩
      · obtain ⟨_, hread, -⟩ := storeTrustStatus_ok (hfree.mono (Set.subset_insert _ _)) htrusted
        exact hread.keys
      · obtain ⟨_, hread, -⟩ := storeTrustStatus_ok (hfree.mono (Set.subset_insert _ _)) hrevoked
        exact hread.keys
    have hrevoked : entryTrust policy (keyId b.crates key) = .revoked .minUtc :=
      entryTrust_revoked_iff.mpr ⟨entry, hentry, hstatus, by rw [hdate, Option.getD_none]⟩
    rw [keyTrustStatus_of_entry hdir hfree ⟨hload, hkeys⟩ hentry, hrevoked,
      judgeSigned_passed_iff] at hpassed
    refine ⟨hsigned, hkeys, ?_⟩
    rcases hpassed with htrusted | ⟨revokedAt, t, hat, htime, hle⟩
    · cases htrusted
    · cases hat
      rw [signedAt_asked] at htime
      rw [htime, le_bot_iff.mp hle]
      rfl
  · rintro ⟨hsigned, hkeys, htime⟩
    exact pass_of_undatedAtStart hdir hfree hsigned ⟨hload, hkeys⟩ hentry hstatus hdate htime

/-- **A revocation without a date rejects every signature but one judged at the first moment.** -/
theorem undated_revocation_rejects_iff (hdir : files.store opts.store = some dir)
    (hfree : Set.InjOn (keyId b.crates) (insert key (held dir)))
    (hload : TrustPolicy.load b.crates opts.store dir = .ok policy)
    (hentry : policy.entry (keyId b.crates key) = some entry) (hstatus : entry.status = .revoked)
    (hdate : entry.revokedAt = none) (hsigner : receipt.signerPublicKey = some (keyHex key))
    (hrfc : ∀ text t, parseRfc3339 text = some t → rfc3339Start ≤ t.secs) :
    RefusedByBoth b files parseRfc3339 opts receipt trustedTime (keyId b.crates key) ↔
      ¬ (SignedBy b receipt (keyHex key) ∧
        (∃ managed, trustDirPublicKeys b.crates dir = .ok managed) ∧
        timeUsed receipt opts trustedTime = some .minUtc) := by
  rw [← pass_iff_of_undated hdir hfree hload hentry hstatus hdate hsigner,
    ← signatureCheck_fail_iff]
  constructor
  · intro h
    exact h.receipts
  · intro hfail
    refine ⟨hfail, ?_⟩
    intro envelope payload statement options hstore hkeyid
    have hload' : TrustPolicy.load b.crates options.store
        ((files.store options.store).getD {}) = .ok policy := by
      rw [hstore, hdir, Option.getD_some]
      exact hload
    exact interop_fail_of_undated hrfc hload' hentry hstatus hdate hkeyid

end Undated

/-! ### The sample receipts -/

/-- The RFC 3339 reader, as it reads the date of the sample receipt. -/
def sampleParse (text : String) : Option DateTime :=
  if text = "2026-08-01T00:00:00Z" then some sampleDate else none

theorem load_sampleUndated : TrustPolicy.load sampleBackend.crates sampleOptions.store
    (sampleStore sampleUndated) = .ok ⟨1, [sampleUndated]⟩ :=
  load_sampleStore keyId_samplePublicA rfl _

theorem undated_revocation_rejects_sample :
    RefusedByBoth sampleBackend (sampleFiles sampleUndated) sampleParse sampleOptions
      (sampleSignedReceipt sampleDate sampleSignature) none
      (keyId sampleBackend.crates samplePublicA) := by
  have hrfc : ∀ text t, sampleParse text = some t → rfc3339Start ≤ t.secs := by
    intro text t h
    unfold sampleParse at h
    split at h
    · cases h
      decide
    · cases h
  refine (undated_revocation_rejects_iff rfl (injOn_insert (injOn_sampleStore sampleUndated) rfl)
    load_sampleUndated entry_sampleUndated rfl rfl rfl hrfc).mpr ?_
  rintro ⟨-, -, htime⟩
  have hdate : sampleDate = .minUtc := Option.some.inj htime
  exact absurd hdate (by decide)

/-- A receipt dated the first moment is not refused under a revocation without a date. -/
theorem undated_revocation_lets_through :
    (signatureCheck sampleBackend (sampleFiles sampleUndated)
      (sampleSignedReceipt .minUtc sampleSignatureAtStart) sampleOptions none).check.status ≠
        .fail := by
  have hpass : (signatureCheck sampleBackend (sampleFiles sampleUndated)
      (sampleSignedReceipt .minUtc sampleSignatureAtStart) sampleOptions none).check.status =
        .pass := by
    refine (pass_iff_of_undated rfl (injOn_insert (injOn_sampleStore sampleUndated) rfl)
      load_sampleUndated entry_sampleUndated rfl rfl rfl).mpr ?_
    exact ⟨signedBy_sample (.inr ⟨rfl, rfl⟩),
      (@readable_sampleStore _ sampleUndated keyId_samplePublicA rfl "trust").keys, rfl⟩
  intro hfail
  exact signatureCheck_fail_iff.mp hfail hpass

end Attest.Verify
