import Attest.Trust.Revocation
import Attest.Trust.Signing

/-! The choice of a key to sign with, told apart.

`select_signing_key` without a request looks at the managed private keys: none, one or
several. With one, it ends as the standing of that key in the policy and the key file
have it. Ends that differ are told apart by their messages. -/
namespace Attest.Trust
open Library.Fallible

/-- The names of the managed private keys. -/
def privateStems (ws : Workspace) : List String := ws.keys.keys.filter KeyStore.isManaged

/-! ### Messages

Two messages that begin with different letters are different. -/

theorem ne_of_head {a b : String} (h : a.toList.head? ≠ b.toList.head?) : a ≠ b := by
  intro hab
  rw [hab] at h
  exact h rfl

section Messages
variable {c : Crates}

theorem head_of_append (a b : String) (h : a ≠ "") : (a ++ b).toList.head? = a.toList.head? := by
  rw [String.toList_append]
  cases hchars : a.toList with
  | nil => exact absurd (String.toList_eq_nil_iff.mp hchars) h
  | cons first rest => rfl

/-- A policy that does not load says so with one of two letters. -/
theorem head_of_load_error {path e : String} {dir : TrustDir}
    (h : TrustPolicy.load c path dir = .error e) :
    e.toList.head? = some 'c' ∨ e.toList.head? = some 'i' := by
  unfold TrustPolicy.load at h
  simp only at h
  split at h
  · cases h
  · cases h
  · cases h
    left
    exact head_of_append _ _ (by decide)
  · cases h
    right
    exact head_of_append _ _ (by decide)
  next =>
    split at h
    · cases h
      right
      exact head_of_append _ _ (by decide)
    · cases h

end Messages

/-! ### Signing -/

section Signing
variable {c : Crates}

/-- The part of the message about a revoked key that says since when. -/
def sinceText : WithBot DateTime → String
  | ⊥ => ""
  | some t => s!" (since {t})"

/-- What signing with an id comes to, by the standing of the id in the policy. -/
def authorizeAt (trustPath id : String) : Standing DateTime → Except String Unit
  | .absent =>
    let policyPath := joinPath trustPath "trust.toml"
    .error (s!"key {id} has a private half but no entry in {policyPath}; " ++
      "a key the policy does not trust cannot sign")
  | .trusted => .ok ()
  | .revoked moment =>
    let since := sinceText moment
    .error s!"key {id} is revoked{since}; a revoked key cannot sign new evidence"

theorem authorizeSigning_of_load {ws : Workspace} {policy : TrustPolicy}
    (hload : loadPolicy c ws = .ok policy) (id : String) :
    KeyStore.authorizeSigning c ws id =
      authorizeAt ws.trustPath id (standingIn policy.keys id) := by
  simp only [KeyStore.authorizeSigning, hload, bind, Except.bind]
  unfold TrustPolicy.entry
  cases hentry : policy.keys.find? (fun k => k.id == id) with
  | none =>
    rw [standingIn_of_find_none hentry]
    rfl
  | some entry =>
    rw [standingIn_of_find hentry]
    simp only [TrustEntry.standing, standingOf]
    cases hstatus : entry.status with
    | trusted => rfl
    | revoked =>
      simp only [authorizeAt]
      cases entry.revokedAt with
      | none => rfl
      | some t => rfl

/-- Signing with the only private key there is. -/
theorem selectSigningKey_single {ws : Workspace} {stem : String} (h : privateStems ws = [stem]) :
    KeyStore.selectSigningKey c ws none = (do
      KeyStore.authorizeSigning c ws stem
      return some (← KeyStore.loadPrivatePem (keyPath ws stem) (ws.keys.lookup stem))) := by
  unfold privateStems at h
  simp only [KeyStore.selectSigningKey, h]

theorem selectSigningKey_nil {ws : Workspace} (h : privateStems ws = []) :
    KeyStore.selectSigningKey c ws none = .ok none := by
  unfold privateStems at h
  simp only [KeyStore.selectSigningKey, h]

theorem selectSigningKey_many {ws : Workspace} (h : 2 ≤ (privateStems ws).length) :
    KeyStore.selectSigningKey c ws none = .error "multiple private keys, use --key" := by
  unfold privateStems at h
  unfold KeyStore.selectSigningKey
  simp only
  split
  next hnil =>
    rw [hnil] at h
    exact absurd h (by decide)
  next stem hone =>
    rw [hone, List.length_singleton] at h
    exact absurd h (by decide)
  next => rfl

/-- Only the private keys and what the policy says of them count. -/
theorem selectSigningKey_congr {ws ws' : Workspace} (hkeys : ws'.keys = ws.keys)
    (hpath : ws'.keysPath = ws.keysPath)
    (hauth : ∀ stem, privateStems ws = [stem] →
      KeyStore.authorizeSigning c ws' stem = KeyStore.authorizeSigning c ws stem) :
    KeyStore.selectSigningKey c ws' none = KeyStore.selectSigningKey c ws none := by
  have hstems : privateStems ws' = privateStems ws := by rw [privateStems, privateStems, hkeys]
  cases h : privateStems ws with
  | nil => rw [selectSigningKey_nil h, selectSigningKey_nil (hstems.trans h)]
  | cons stem rest =>
    cases rest with
    | nil =>
      rw [selectSigningKey_single h, selectSigningKey_single (hstems.trans h), hauth stem h, keyPath,
        keyPath, hkeys, hpath]
    | cons other rest =>
      have hmany : 2 ≤ (privateStems ws).length := by
        rw [h]
        simp
      rw [selectSigningKey_many hmany, selectSigningKey_many (hstems ▸ hmany)]

/-- A key that is not trusted is refused, in words that begin with the key. -/
theorem authorizeAt_refuses (path id : String) {s : Standing DateTime} (h : s ≠ .trusted) :
    ∃ e, authorizeAt path id s = .error e ∧ e.toList.head? = some 'k' := by
  cases s with
  | absent => exact ⟨_, rfl, by simp only [String.append_assoc]; exact head_of_append _ _ (by decide)⟩
  | trusted => exact absurd rfl h
  | revoked m => exact ⟨_, rfl, by simp only [String.append_assoc]; exact head_of_append _ _ (by decide)⟩

/-- No entry and a revoked one are two messages. -/
theorem authorizeAt_absent_ne (path id : String) (m : WithBot DateTime) :
    authorizeAt path id .absent ≠ authorizeAt path id (.revoked m) := by
  intro h
  simp only [authorizeAt, Except.error.injEq, String.append_assoc, String.append_right_inj] at h
  have hletter := congrArg (fun t : String => t.toList[1]?) h
  simp only [String.toList_append] at hletter
  rw [List.getElem?_append_left (by decide), List.getElem?_append_left (by decide)] at hletter
  exact absurd hletter (by decide)

section Apart
variable {path id : String} {pem : Except String SigningKey}
  (hpem : ∀ e, pem = .error e → e.toList.head? ≠ some 'k')
include hpem

/-- Signing with a trusted key ends as loading it does. -/
theorem authorizeAt_trusted_ne {s : Standing DateTime} (hs : s ≠ .trusted) :
    (do authorizeAt path id .trusted; return some (← pem) : Except String (Option SigningKey)) ≠
      (do authorizeAt path id s; return some (← pem)) := by
  obtain ⟨e, hrefuses, hhead⟩ := authorizeAt_refuses path id hs
  intro h
  rw [hrefuses] at h
  cases hkey : pem with
  | ok key =>
    rw [hkey] at h
    cases h
  | error e' =>
    rw [hkey] at h
    cases h
    exact hpem e hkey hhead

/-- Signing with a key of one standing and of another is told apart, but for two dates with the
same text. -/
theorem authorizeAt_inj {s s' : Standing DateTime}
    (h : (do authorizeAt path id s; return some (← pem) : Except String (Option SigningKey)) =
      (do authorizeAt path id s'; return some (← pem))) :
    s = s' ∨ ∃ m m', s = .revoked m ∧ s' = .revoked m' ∧ sinceText m = sinceText m' := by
  by_cases hs : s = .trusted
  · by_cases hs' : s' = .trusted
    · exact .inl (hs.trans hs'.symm)
    · rw [hs] at h
      exact absurd h (authorizeAt_trusted_ne hpem hs')
  by_cases hs' : s' = .trusted
  · rw [hs'] at h
    exact absurd h.symm (authorizeAt_trusted_ne hpem hs)
  cases s with
  | absent =>
    cases s' with
    | absent => exact .inl rfl
    | trusted => exact absurd rfl hs'
    | revoked m =>
      refine absurd ?_ (authorizeAt_absent_ne path id m)
      simpa [authorizeAt, bind, Except.bind] using h
  | trusted => exact absurd rfl hs
  | revoked m =>
    cases s' with
    | absent =>
      refine absurd ?_ (authorizeAt_absent_ne path id m)
      simpa [authorizeAt, bind, Except.bind] using h.symm
    | trusted => exact absurd rfl hs'
    | revoked m' =>
      right
      refine ⟨m, m', rfl, rfl, ?_⟩
      have htext : toString (sinceText m) = toString (sinceText m') := by
        simpa [authorizeAt, bind, Except.bind] using h
      exact htext

end Apart

theorem loadPrivatePem_error {path e : String} {node : Option (Node KeyContent)}
    (h : KeyStore.loadPrivatePem path node = .error e) :
    e.toList.head? = some 'c' ∨ e.toList.head? = some 'i' := by
  unfold KeyStore.loadPrivatePem at h
  split at h
  · cases h
    left
    exact head_of_append _ _ (by decide)
  · cases h
  · cases h
    right
    exact head_of_append _ _ (by decide)

/-- One private key never ends in the message about several, nor in none. -/
theorem selectSigningKey_single_ne {ws : Workspace} {stem : String} (h : privateStems ws = [stem]) :
    KeyStore.selectSigningKey c ws none ≠ .ok none ∧
      KeyStore.selectSigningKey c ws none ≠ .error "multiple private keys, use --key" := by
  rw [selectSigningKey_single h]
  cases hauth : KeyStore.authorizeSigning c ws stem with
  | error e =>
    constructor
    · intro heq
      cases heq
    intro heq
    have hhead : e.toList.head? = some 'm' := by
      cases heq
      decide
    cases hload : loadPolicy c ws with
    | error e' =>
      simp only [KeyStore.authorizeSigning, hload, bind, Except.bind] at hauth
      cases hauth
      rcases head_of_load_error hload with hc | hi
      · rw [hc] at hhead
        exact absurd hhead (by decide)
      · rw [hi] at hhead
        exact absurd hhead (by decide)
    | ok policy =>
      rw [authorizeSigning_of_load hload] at hauth
      by_cases htrusted : standingIn policy.keys stem = .trusted
      · rw [htrusted] at hauth
        cases hauth
      · obtain ⟨e', hrefuses, hk⟩ := authorizeAt_refuses ws.trustPath stem htrusted
        rw [hrefuses] at hauth
        cases hauth
        rw [hk] at hhead
        exact absurd hhead (by decide)
  | ok u =>
    cases hpem : KeyStore.loadPrivatePem (keyPath ws stem) (ws.keys.lookup stem) with
    | ok key =>
      constructor
      · intro heq
        cases heq
      · intro heq
        cases heq
    | error e =>
      constructor
      · intro heq
        cases heq
      intro heq
      cases heq
      rcases loadPrivatePem_error hpem with hc | hi
      · exact absurd hc (by decide)
      · exact absurd hi (by decide)

end Signing

/-! ### A private key -/

section PutKey
variable {c : Crates} {ws : Workspace}

theorem keyTrustStatus_putKey (id : String) (content : KeyContent) (publicKeyHex : String) :
    keyTrustStatus c (putKey id content ws) publicKeyHex = keyTrustStatus c ws publicKeyHex := rfl

theorem privateStems_putKey {id : String} (hfresh : ws.keys.lookup id = none)
    (hmanaged : KeyStore.isManaged id = true) (content : KeyContent) :
    privateStems (putKey id content ws) = id :: privateStems ws := by
  have hkeys : (ws.keys.insert id (.file content)).keys = id :: ws.keys.keys := by
    rw [AList.keys_insert, List.erase_of_not_mem]
    exact AList.lookup_eq_none.mp hfresh
  show (ws.keys.insert id (.file content)).keys.filter KeyStore.isManaged = _
  rw [hkeys, List.filter_cons_of_pos hmanaged]
  rfl

/-- A new private key is noticed unless there were several already. -/
theorem signs_putKey_iff {ws' : Workspace} {id : String} (h : privateStems ws' = id :: privateStems ws) :
    KeyStore.selectSigningKey c ws' none = KeyStore.selectSigningKey c ws none ↔
      2 ≤ (privateStems ws).length := by
  refine ⟨?_, ?_⟩
  · intro hsame
    cases hstems : privateStems ws with
    | nil =>
      rw [hstems] at h
      rw [selectSigningKey_nil hstems] at hsame
      exact absurd hsame (selectSigningKey_single_ne h).1
    | cons stem rest =>
      cases rest with
      | nil =>
        have hmany : 2 ≤ (privateStems ws').length := by
          rw [h, hstems]
          simp
        rw [selectSigningKey_many hmany] at hsame
        exact absurd hsame.symm (selectSigningKey_single_ne hstems).2
      | cons other rest => simp
  · intro hmany
    have hmany' : 2 ≤ (privateStems ws').length := by
      rw [h, List.length_cons]
      omega
    rw [selectSigningKey_many hmany, selectSigningKey_many hmany']

end PutKey

end Attest.Trust
