import Attest.Trust.Runs

/-! Which key signs.

`select_signing_key` authorises a name and then loads a file. The name is trusted
when the policy trusts it as a key id; the key is whatever the file holds. So the
key that signs is one the policy trusts, except where a file under a trusted name
holds another key, of an id that is not trusted. -/
namespace Attest.Trust
open Library.Fallible

section Signing
variable {c : Crates}

/-- The policy has a trusted entry of this id. -/
def Trusts (policy : TrustPolicy) (id : String) : Prop :=
  ∃ entry ∈ policy.keys, entry.id = id ∧ entry.status = .trusted

/-- Ids are unique in a policy that loads, so the first entry of an id is the only one. -/
theorem entry_of_mem {policy : TrustPolicy} (hnodup : (policy.keys.map TrustEntry.id).Nodup)
    {entry : TrustEntry} (hmem : entry ∈ policy.keys) : policy.entry entry.id = some entry := by
  unfold TrustPolicy.entry
  cases hfind : policy.keys.find? (fun k => k.id == entry.id) with
  | none =>
    have := List.find?_eq_none.mp hfind entry hmem
    simp at this
  | some found =>
    have hid : found.id = entry.id := by simpa using List.find?_some hfind
    rw [List.inj_on_of_nodup_map hnodup (List.mem_of_find?_eq_some hfind) hmem hid]

theorem authorizeSigning_ok_iff {ws : Workspace} {id : String} {u : Unit} :
    KeyStore.authorizeSigning c ws id = .ok u ↔
      ∃ policy, loadPolicy c ws = .ok policy ∧ Trusts policy id := by
  simp only [KeyStore.authorizeSigning, except_bind_eq_ok]
  refine ⟨?_, ?_⟩
  · intro h
    obtain ⟨policy, hload, h⟩ := h
    refine ⟨policy, hload, ?_⟩
    cases hentry : policy.entry id with
    | none =>
      rw [hentry] at h
      cases h
    | some entry =>
      rw [hentry] at h
      have hid : entry.id = id := by simpa using List.find?_some hentry
      refine ⟨entry, List.mem_of_find?_eq_some hentry, hid, ?_⟩
      cases hstatus : entry.status with
      | trusted => rfl
      | revoked =>
        simp only [hstatus] at h
        cases h
  · intro h
    obtain ⟨policy, hload, entry, hmem, hid, hstatus⟩ := h
    have hentry := entry_of_mem (loadPolicy_ok_iff.mp hload).2.nodup hmem
    refine ⟨policy, hload, ?_⟩
    rw [← hid, hentry]
    simp only [hstatus]

theorem loadPrivatePem_ok_iff {path : String} {node : Option (Node KeyContent)} {key : SigningKey} :
    KeyStore.loadPrivatePem path node = .ok key ↔ node = some (.file (.pem key)) := by
  unfold KeyStore.loadPrivatePem
  cases node with
  | none => simp [contentOf]
  | some node =>
    cases node with
    | file content =>
      cases content with
      | pem key' => simp [contentOf]
      | other => simp [contentOf]
    | locked => simp [contentOf]
    | folder => simp [contentOf]

/-- The name of the private key file a call looks at: the one asked for, or the only managed one. -/
def pickedStem (ws : Workspace) : Option String → Option String
  | some id => some id
  | none =>
    match ws.keys.keys.filter KeyStore.isManaged with
    | [stem] => some stem
    | _ => none

/-- A key is returned exactly when it is what the picked file holds and the policy trusts the
file's name. -/
theorem selectSigningKey_some_iff {ws : Workspace} {requested : Option String} {key : SigningKey} :
    KeyStore.selectSigningKey c ws requested = .ok (some key) ↔
      ∃ stem ∈ pickedStem ws requested, ws.keys.lookup stem = some (.file (.pem key)) ∧
        ∃ policy, loadPolicy c ws = .ok policy ∧ Trusts policy stem := by
  -- both paths end in the same two steps
  have steps : ∀ stem, (do
      KeyStore.authorizeSigning c ws stem
      return some (← KeyStore.loadPrivatePem (keyPath ws stem) (ws.keys.lookup stem))) =
        Except.ok (some key) ↔
      ws.keys.lookup stem = some (.file (.pem key)) ∧
        ∃ policy, loadPolicy c ws = .ok policy ∧ Trusts policy stem := by
    intro stem
    simp only [except_bind_eq_ok, authorizeSigning_ok_iff, loadPrivatePem_ok_iff]
    refine ⟨?_, ?_⟩
    · intro h
      obtain ⟨_, hauth, _, hfile, ⟨⟩⟩ := h
      exact ⟨hfile, hauth⟩
    · intro h
      exact ⟨(), h.2, key, h.1, rfl⟩
  unfold KeyStore.selectSigningKey pickedStem
  cases requested with
  | some id =>
    simp only [Option.mem_def, Option.some.injEq, exists_eq_left']
    by_cases hfile : isFile (ws.keys.lookup id) = true
    · rw [hfile]
      exact steps id
    · simp only [Bool.not_eq_true] at hfile
      rw [hfile]
      refine ⟨?_, ?_⟩
      · intro h
        cases h
      · intro h
        rw [h.1] at hfile
        cases hfile
  | none =>
    simp only
    split
    next hnil => simp [hnil]
    next stem hone =>
      simp only [hone, Option.mem_def, Option.some.injEq, exists_eq_left']
      exact steps stem
    next hnil hone =>
      split
      next stem h => exact absurd h (hone stem)
      next => simp

/-- A file whose name the policy trusts, and which holds another key, of an id it does not. -/
def Masquerades (c : Crates) (ws : Workspace) (stem : String) : Prop :=
  ∃ policy key, loadPolicy c ws = .ok policy ∧ Trusts policy stem ∧
    ws.keys.lookup stem = some (.file (.pem key)) ∧ keyId c (c.verifyingKey key) ≠ stem ∧
    ¬ Trusts policy (keyId c (c.verifyingKey key))

/-- **Only a key the policy trusts signs, exactly when the file that is picked does not
masquerade.** -/
theorem signing_key_trusted_iff (c : Crates) (ws : Workspace) (requested : Option String) :
    (∀ key, KeyStore.selectSigningKey c ws requested = .ok (some key) →
      ∃ policy, loadPolicy c ws = .ok policy ∧ Trusts policy (keyId c (c.verifyingKey key))) ↔
    ∀ stem ∈ pickedStem ws requested, ¬ Masquerades c ws stem := by
  refine ⟨?_, ?_⟩
  · intro h stem hstem hmasq
    obtain ⟨policy, key, hload, htrusts, hfile, -, hnot⟩ := hmasq
    obtain ⟨policy', hload', htrusted⟩ := h key
      (selectSigningKey_some_iff.mpr ⟨stem, hstem, hfile, policy, hload, htrusts⟩)
    rw [hload] at hload'
    cases hload'
    exact hnot htrusted
  · intro h key hselect
    obtain ⟨stem, hstem, hfile, policy, hload, htrusts⟩ := selectSigningKey_some_iff.mp hselect
    refine ⟨policy, hload, ?_⟩
    by_cases hname : keyId c (c.verifyingKey key) = stem
    · rw [hname]
      exact htrusts
    · apply Classical.byContradiction
      intro hnot
      exact h stem hstem ⟨policy, key, hload, htrusts, hfile, hname, hnot⟩

end Signing

/-! ### A key under another's name -/

/-- A store that trusts the first sample key, with the second one in the first one's file. -/
def sampleSwapped : Workspace :=
  putKey sampleIdA (.pem sampleSeedB)
    (final (Op.exec (sampleCrates []) (.generate sampleSeedA "authority")) sampleWorld).fs

/-- The second key signs, by name or as the only one there, and the policy does not list it. -/
theorem swapped_key_signs :
    KeyStore.selectSigningKey (sampleCrates []) sampleSwapped (some sampleIdA) =
        .ok (some sampleSeedB) ∧
      KeyStore.selectSigningKey (sampleCrates []) sampleSwapped none = .ok (some sampleSeedB) ∧
      ¬ ∃ policy, loadPolicy (sampleCrates []) sampleSwapped = .ok policy ∧
        Trusts policy (keyId (sampleCrates []) ((sampleCrates []).verifyingKey sampleSeedB)) := by
  refine ⟨by decide +kernel, by decide +kernel, ?_⟩
  intro h
  obtain ⟨policy, hload, entry, hmem, hid, -⟩ := h
  have hpolicy : loadPolicy (sampleCrates []) sampleSwapped =
      .ok { version := 1, keys := [⟨sampleIdA, "authority", .trusted, none⟩] } := by
    decide +kernel
  rw [hpolicy] at hload
  cases hload
  rw [List.mem_singleton.mp hmem] at hid
  exact absurd hid (by decide +kernel)

end Attest.Trust
