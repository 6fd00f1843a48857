import Attest.Trust.Stops

/-! Failures that nobody notices.

Whether a failed operation is noticed depends on how far it came, and on whether what it
had written by then is noticed: the directory takes the place of the workspace's own key,
a private key is one more to choose from, a public key can take a loose file's place or
make a policy load, and a merged policy brings its news. -/
namespace Attest.Trust
open Library.Fallible

/-- What a call has written by the time it fails is not noticed: the directory, the private key, each
public key, and for a bundle whose policy is saved the merge. -/
def Op.Harmless (c : Crates) (w : World) : Op → Prop
  | .generate signingKey _ =>
    let key := c.verifyingKey signingKey
    w.fs.keys.lookup (keyId c key) = none → w.fs.trustDir.pubs.lookup (keyId c key) = none →
      (Reached w.outcomes 2 → QuietDir w.fs) ∧
      (Reached w.outcomes 3 → 2 ≤ (privateStems w.fs).length) ∧
      ∀ k ∈ generatedKeys w.outcomes key, QuietKey c w.fs k
  | .importKey _ pem _ =>
    ∀ key, contentOf pem = some ⟨false, .ok key⟩ → Reached w.outcomes 1 →
      QuietDir w.fs ∧ ∀ k ∈ importedKeys c w.fs (w.outcomes.drop 1) key, QuietKey c w.fs k
  | .revoke _ _ => True
  | .importBundle path file expectedIssuer now =>
    ∀ bundle previous handoverFrom policy,
      judge c w.fs path file expectedIssuer now = .ok (bundle, previous, handoverFrom) →
      isCurrent previous bundle = false → loadPolicy c w.fs = .ok policy →
      (SavesPolicy c w bundle.keys → NoNews c w.fs policy bundle.keys) ∧
      (¬ SavesPolicy c w bundle.keys → Reached w.outcomes 1 → QuietDir w.fs ∧
        ∀ k ∈ writtenKeys (w.outcomes.drop 1) (missingKeys c w.fs bundle.keys), QuietKey c w.fs k)

section Harmless
variable {c : Crates} {w w' : World} {e : String}

theorem isManaged_keyId (c : Crates) (key : VerifyingKey) : KeyStore.isManaged (keyId c key) = true := by
  have hsize : (keyId c key).utf8ByteSize = 32 := by
    rw [keyId, utf8ByteSize_hexEncode]
    simp
  have hne : ∀ name : String, name.utf8ByteSize ≠ 32 → keyId c key ≠ name := by
    rintro name hname rfl
    exact hname hsize
  simp [KeyStore.isManaged, hne "" (by decide), hne "private" (by decide), hne "public" (by decide)]

theorem generate_harmless_iff {key : SigningKey} {name : String}
    (h : KeyStore.generate c key name w = .error e w') :
    Unnoticed c w.fs w'.fs ↔ Op.Harmless c w (.generate key name) := by
  have hreached : Reached w.outcomes 3 → Reached w.outcomes 2 := fun h3 => h3.of_le (by decide)
  rcases generate_stopped h with ⟨hthere, hfs⟩ | ⟨⟨hfree, hfresh⟩, hcase⟩
  · rw [hfs]
    refine ⟨?_, fun _ => Unnoticed.refl c w.fs⟩
    intro _ hkey hpub
    rw [hkey, hpub] at hthere
    cases hthere
  simp only [Op.Harmless, hfree, hfresh, forall_const]
  rcases hcase with ⟨htwo, hfs⟩ | ⟨htwo, hthree, hfs⟩ | ⟨hthree, content, ws₁, hfs, hleft⟩
  · have hthree : ¬ Reached w.outcomes 3 := fun h3 => htwo (hreached h3)
    have hfive : ¬ Reached w.outcomes 5 := fun h5 => htwo (h5.of_le (by decide))
    rw [hfs]
    simp [htwo, hthree, generatedKeys, hfive, Unnoticed.refl]
  · have hfive : ¬ Reached w.outcomes 5 := fun h5 => hthree (h5.of_le (by decide))
    have hleft : LeftKey c (c.verifyingKey key) [] w.fs (created w.fs) :=
      .inl ⟨rfl, adds_created w.fs⟩
    rw [hfs, (adds_of_leftKey hleft).unnoticed_iff, hleft.status_iff]
    simp [htwo, hthree, generatedKeys, hfive]
  · have hadds := adds_of_leftKey hleft
    have hstems : privateStems w'.fs = keyId c (c.verifyingKey key) :: privateStems w.fs := by
      have hsame : privateStems ws₁ = privateStems w.fs := by
        rw [privateStems, privateStems, hadds.keys]
      rw [hfs, privateStems_putKey (by rw [hadds.keys]; exact hfree) (isManaged_keyId c _), hsame]
    have hstatus : (∀ hex, keyTrustStatus c w'.fs hex = keyTrustStatus c w.fs hex) ↔
        QuietDir w.fs ∧ ∀ k ∈ generatedKeys w.outcomes (c.verifyingKey key), QuietKey c w.fs k := by
      rw [hfs]
      exact hleft.status_iff
    have hsigns := @signs_putKey_iff c w.fs w'.fs _ hstems
    simp only [hthree, hreached hthree, forall_const]
    refine ⟨?_, ?_⟩
    · rintro ⟨hsame, hselect⟩
      obtain ⟨hdir, hkeys⟩ := hstatus.mp hsame
      exact ⟨hdir, hsigns.mp hselect, hkeys⟩
    · rintro ⟨hdir, hmany, hkeys⟩
      exact ⟨hstatus.mpr ⟨hdir, hkeys⟩, hsigns.mpr hmany⟩

theorem importKey_harmless_iff {path name : String} {pem : Option (Node PemText)}
    (h : KeyStore.importKey c path pem name w = .error e w') :
    Unnoticed c w.fs w'.fs ↔ Op.Harmless c w (.importKey path pem name) := by
  rcases importKey_stopped h with ⟨hnone, hfs⟩ | ⟨key, hkey, hcase⟩
  · rw [hfs]
    refine ⟨?_, fun _ => Unnoticed.refl c w.fs⟩
    intro _ key hkey
    exact absurd hkey (hnone key)
  have hone : Op.Harmless c w (.importKey path pem name) ↔ (Reached w.outcomes 1 →
      QuietDir w.fs ∧ ∀ k ∈ importedKeys c w.fs (w.outcomes.drop 1) key, QuietKey c w.fs k) := by
    simp only [Op.Harmless, hkey, Option.some.injEq, PemText.mk.injEq, Except.ok.injEq, true_and,
      forall_eq']
  rw [hone]
  rcases hcase with ⟨hnot, hfs⟩ | ⟨hreached, hleft⟩
  · rw [hfs]
    simp [hnot, Unnoticed.refl]
  · rw [(adds_of_leftKey hleft).unnoticed_iff, hleft.status_iff]
    simp only [hreached, forall_const]

/-- With a policy that loads a key file repairs nothing. -/
theorem quietKey_of_load {policy : TrustPolicy} {key : VerifyingKey}
    (hload : loadPolicy c w.fs = .ok policy) :
    QuietKey c w.fs key ↔ ∀ managed, trustDirPublicKeys c w.fs.trustDir = .ok managed →
      managed.lookup (keyId c key) = none →
      looseHolds (hexEncode key.bytes.toList) w.fs.trustDir.loose.entries = .ok false := by
  refine ⟨fun h => h.unhidden policy hload, ?_⟩
  intro hunhidden
  refine ⟨?_, ?_⟩
  · intro e he
    rw [hload] at he
    cases he
  · intro _ _
    exact hunhidden

/-- A copy is nothing the readers look at. -/
theorem unnoticed_putCopy_iff {issuer : String} {bytes : Bytes} {ws ws' : Workspace}
    (hpresent : ws'.trust = some ws'.trustDir) :
    Unnoticed c ws (putCopy issuer bytes ws') ↔ Unnoticed c ws ws' := by
  have hstatus : ∀ hex, keyTrustStatus c (putCopy issuer bytes ws') hex = keyTrustStatus c ws' hex := by
    intro hex
    rw [keyTrustStatus_present hpresent]
    rfl
  have hsigns : KeyStore.selectSigningKey c (putCopy issuer bytes ws') none =
      KeyStore.selectSigningKey c ws' none := selectSigningKey_congr rfl rfl fun _ _ => rfl
  refine ⟨?_, ?_⟩
  · rintro ⟨hs, hk⟩
    exact ⟨fun hex => (hstatus hex).symm.trans (hs hex), hsigns.symm.trans hk⟩
  · rintro ⟨hs, hk⟩
    exact ⟨fun hex => (hstatus hex).trans (hs hex), hsigns.trans hk⟩

theorem importBundle_harmless_iff {path : String} {file : Option (Node Bytes)}
    {expectedIssuer : Option String} {now : DateTime}
    (h : importBundle c path file expectedIssuer now w = .error e w') :
    Unnoticed c w.fs w'.fs ↔ Op.Harmless c w (.importBundle path file expectedIssuer now) := by
  simp only [importBundle, bind_eq_error, reading_eq_error, reading_eq_ok] at h
  rcases h with ⟨hjudge, rfl⟩ | ⟨⟨bundle, previous, handoverFrom⟩, _, ⟨hjudge, rfl⟩, h⟩
  · refine ⟨?_, fun _ => Unnoticed.refl c w.fs⟩
    intro _ bundle previous handoverFrom policy hok
    rw [hok] at hjudge
    cases hjudge
  simp only at h
  split at h
  next => exact absurd h pure_ne_error
  next hcurrent =>
    have hjudged := judge_ok_iff.mp hjudge
    have hpasses := passes_of_failedChecks hjudged.passes
    obtain ⟨policy, hload, -⟩ := hjudged.loads
    have hharmless : Op.Harmless c w (.importBundle path file expectedIssuer now) ↔
        (SavesPolicy c w bundle.keys → NoNews c w.fs policy bundle.keys) ∧
        (¬ SavesPolicy c w bundle.keys → Reached w.outcomes 1 → QuietDir w.fs ∧
          ∀ k ∈ writtenKeys (w.outcomes.drop 1) (missingKeys c w.fs bundle.keys),
            QuietKey c w.fs k) := by
      refine ⟨?_, ?_⟩
      · intro hall
        exact hall bundle previous handoverFrom policy hjudge (by simpa using hcurrent) hload
      · intro hthis bundle' previous' handoverFrom' policy' hjudge' _ hload'
        rw [hjudge] at hjudge'
        rw [hload] at hload'
        cases hjudge'
        cases hload'
        exact hthis
    rw [hharmless]
    rcases record_stopped hpasses.keys hload h with ⟨hnot, hfs⟩ | ⟨hone, hsaves, hadds⟩ | ⟨hsaves, hfs⟩
    · have hsaves : ¬ SavesPolicy c w bundle.keys := fun hs => hnot (hs.1.of_le (by omega))
      rw [hfs]
      simp [hsaves, hnot, Unnoticed.refl]
    · rw [hadds.unnoticed_iff, hadds.status_iff]
      simp only [hsaves, hone, forall_const, not_false_eq_true, false_implies, true_and,
        quietKey_of_load hload, hload, reduceCtorEq, Except.ok.injEq, forall_eq']
    · have hvouched : ∃ key, key ∈ bundle.keys := by
        obtain ⟨key, hfind, -⟩ := hpasses.vouched
        exact ⟨key, List.mem_of_find?_eq_some hfind⟩
      have hnews := @saved_unnoticed_iff c w.fs bundle policy (emptyReport bundle handoverFrom)
        hpasses.keys hload hvouched
      simp only [hsaves, forall_const, not_true_eq_false, false_implies, and_true]
      rcases hfs with hfs | ⟨bytes, hfs⟩
      · rw [hfs]
        exact hnews
      · rw [hfs, unnoticed_putCopy_iff rfl]
        exact hnews

/-- **A store operation that fails leaves every key's status and the choice of a key to sign with as
they were, exactly when what it had written by then is harmless**, from any store and at every point
where it can fail. -/
theorem failures_unnoticed_iff {op : Op} (h : op.exec c w = .error e w') :
    Unnoticed c w.fs w'.fs ↔ op.Harmless c w := by
  cases op with
  | generate key name =>
    rcases bind_eq_error.mp h with h | ⟨_, _, -, hpure⟩
    · exact generate_harmless_iff h
    · exact absurd hpure pure_ne_error
  | importKey path pem name =>
    rcases bind_eq_error.mp h with h | ⟨_, _, -, hpure⟩
    · exact importKey_harmless_iff h
    · exact absurd hpure pure_ne_error
  | revoke id now =>
    rcases bind_eq_error.mp h with h | ⟨_, _, -, hpure⟩
    · rw [revoke_stopped h]
      exact ⟨fun _ => trivial, fun _ => Unnoticed.refl c w.fs⟩
    · exact absurd hpure pure_ne_error
  | importBundle path file expectedIssuer now =>
    rcases bind_eq_error.mp h with h | ⟨_, _, -, hpure⟩
    · exact importBundle_harmless_iff h
    · exact absurd hpure pure_ne_error

end Harmless

/-- The message of a call that fails. -/
def Op.failure (c : Crates) (w : World) (op : Op) : Option String :=
  match op.exec c w with
  | .ok _ _ => none
  | .error e _ => some e

theorem exec_of_failure {c : Crates} {w : World} {op : Op} {e : String}
    (h : op.failure c w = some e) : op.exec c w = .error e (final (op.exec c) w) := by
  unfold Op.failure at h
  unfold final
  split at h
  next => cases h
  next hexec =>
    cases h
    rw [hexec]

/-- An empty workspace where the third call fails: a generation has made its directories by then. -/
def sampleStopped : World := ⟨sampleWorld.fs, [.done, .done, .failed "no space left on device"]⟩

theorem failures_unnoticed_sample : ∃ e w',
    (Op.generate sampleSeedA "authority").exec (sampleCrates []) sampleStopped = .error e w' ∧
      Unnoticed (sampleCrates []) sampleStopped.fs w'.fs := by
  have hfails : (Op.generate sampleSeedA "authority").failure (sampleCrates []) sampleStopped =
      some ("cannot create ./.attest/keys/" ++ sampleIdA ++ ".key") := by
    decide +kernel
  have hexec := exec_of_failure hfails
  refine ⟨_, _, hexec, (failures_unnoticed_iff hexec).mpr ?_⟩
  intro _ _
  refine ⟨fun _ _ => rfl, ?_, ?_⟩
  · intro h
    exact absurd h (by decide)
  · intro k hk
    have hnone : generatedKeys sampleStopped.outcomes
        ((sampleCrates []).verifyingKey sampleSeedA) = [] := by decide +kernel
    rw [hnone] at hk
    cases hk

/-- A workspace whose `trust.toml` is not a policy. -/
def sampleBroken : Workspace :=
  sampleWorld.fs.setTrust { trustToml := some (.file none) }

/-- A generation there fails when it comes to the policy, and leaves a private key that was not there:
the next signature without a key of its own is refused, where it was made with the legacy pair. -/
theorem orphan_private_key : ∃ w',
    (Op.generate sampleSeedA "authority").exec (sampleCrates []) ⟨sampleBroken, []⟩ =
      .error "invalid trust policy ./.attest/trust/trust.toml" w' ∧
    KeyStore.selectSigningKey (sampleCrates []) sampleBroken none = .ok none ∧
    KeyStore.selectSigningKey (sampleCrates []) w'.fs none =
      .error "invalid trust policy ./.attest/trust/trust.toml" ∧
    w'.fs.keys.lookup sampleIdA = some (.file (.pem sampleSeedA)) := by
  have hfails : (Op.generate sampleSeedA "authority").failure (sampleCrates []) ⟨sampleBroken, []⟩ =
      some "invalid trust policy ./.attest/trust/trust.toml" := by
    decide +kernel
  refine ⟨_, exec_of_failure hfails, ?_, ?_, ?_⟩
  · decide +kernel
  · decide +kernel
  · decide +kernel

end Attest.Trust
