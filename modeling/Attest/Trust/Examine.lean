import Attest.Trust.Keys

/-! Judging a bundle on its own terms, as `trust.rs` has it: `read`, `examine` and the
checks it runs. Every check runs, and each says in words what it found. -/
namespace Attest.Trust

/-! ### Reading -/

variable (c : Crates)

/-- `read`, of a file that may not be there. -/
def readBundle (path : String) (node : Option (Node Bytes)) : Except String TrustBundle :=
  match contentOf node with
  | none => .error s!"cannot read {path}"
  | some bytes =>
    if bundleLimit < bytes.length then
      .error s!"{path} is {bytes.length} bytes; a trust bundle is at most {bundleLimit}"
    else (c.fromSlice bytes).mapError fun _ => s!"{path} is not a trust bundle"

/-! ### Checks -/

structure BundleCheck where
  name : String
  passed : Bool
  detail : String
deriving DecidableEq

def schemaCheck (bundle : TrustBundle) : BundleCheck :=
  if bundle.schemaVersion = bundleSchemaVersion then
    ⟨"schema", true, s!"bundle schema {bundle.schemaVersion}"⟩
  else
    ⟨"schema", false, s!"unsupported bundle schema {bundle.schemaVersion}; this verifier reads " ++
      toString bundleSchemaVersion⟩

/-- The issuer check, with the key to verify against when it passes. -/
def issuerCheck (bundle : TrustBundle) : BundleCheck × Option VerifyingKey :=
  match keyFromHex c bundle.issuer.publicKey with
  | .error err => (⟨"issuer", false, s!"issuer public key: {err}"⟩, none)
  | .ok key =>
    let derived := keyId c key
    if derived = bundle.issuer.keyId then
      (⟨"issuer", true, s!"issued by key {bundle.issuer.keyId}"⟩, some key)
    else
      (⟨"issuer", false, s!"issuer claims key id {bundle.issuer.keyId} but its public key " ++
        s!"derives to {derived}"⟩, none)

def signatureCheck (bundle : TrustBundle) (issuerKey : Option VerifyingKey) : BundleCheck :=
  match bundle.signature, issuerKey with
  | none, _ => ⟨"signature", false, "the bundle is unsigned"⟩
  | some _, none =>
    ⟨"signature", false, "cannot verify: the issuer public key is unusable"⟩
  | some signatureHex, some verifyingKey =>
    match (hexDecode signatureHex).bind (toVector 64) with
    | none => ⟨"signature", false, "signature is not 64 bytes of hex"⟩
    | some signature =>
      if c.verify verifyingKey bundle.signingBytes signature then
        ⟨"signature", true, s!"valid signature by issuer {bundle.issuer.keyId}"⟩
      else
        ⟨"signature", false, "signature does not verify: the bundle was altered after signing, " ++
          "or was not signed by the issuer it names"⟩

/-- The loop of `keys_check`: the ids seen and the number revoked so far, or what is wrong. -/
def keysLoop : List String → Nat → List BundledKey → Except String Nat
  | _, revoked, [] => .ok revoked
  | seen, revoked, key :: rest =>
    match keyIdFromHex c key.publicKey with
    | .error err => .error s!"key '{key.name}' ({key.id}): {err}"
    | .ok derived =>
      if derived ≠ key.id then
        .error (s!"key '{key.name}' claims id {key.id} but its public key derives to " ++ derived)
      else if key.id ∈ seen then .error s!"key {key.id} is listed twice"
      else
        match key.status, key.revokedAt with
        | .trusted, _ => keysLoop (key.id :: seen) revoked rest
        | .revoked, none => .error s!"key {key.id} is revoked without saying when"
        | .revoked, some _ => keysLoop (key.id :: seen) (revoked + 1) rest

def keysCheck (bundle : TrustBundle) : BundleCheck :=
  if bundle.keys.isEmpty then ⟨"keys", false, "the bundle lists no keys"⟩
  else
    match keysLoop c [] 0 bundle.keys with
    | .error detail => ⟨"keys", false, detail⟩
    | .ok revoked =>
      match bundle.keys.find? (fun k => k.id == bundle.issuer.keyId) with
      | none => ⟨"keys", false, "the issuer key is not among the keys the bundle vouches for"⟩
      | some k =>
        match k.status with
        | .trusted =>
          ⟨"keys", true, toString (bundle.keys.length - revoked) ++
            s!" trusted, {revoked} revoked, issuer among the trusted"⟩
        | .revoked => ⟨"keys", false, "the issuer key is revoked by the bundle it signed"⟩

def successorCheck (bundle : TrustBundle) (successor : Issuer) : BundleCheck :=
  if successor.keyId = bundle.issuer.keyId then
    ⟨"successor", false, "the issuer names itself as successor"⟩
  else
    match keyIdFromHex c successor.publicKey with
    | .error err => ⟨"successor", false, s!"successor public key: {err}"⟩
    | .ok derived =>
      if derived ≠ successor.keyId then
        ⟨"successor", false, s!"successor claims key id {successor.keyId} but its public key " ++
          s!"derives to {derived}"⟩
      else
        match bundle.keys.find? (fun k => k.id == successor.keyId) with
        | none =>
          ⟨"successor", false, "the successor is not among the keys the bundle vouches for"⟩
        | some k =>
          match k.status with
          | .trusted =>
            if k.publicKey = successor.publicKey then
              ⟨"successor", true, s!"hands over to {successor.keyId}, listed among the trusted"⟩
            else
              ⟨"successor", false,
                "the successor's key differs from the key listed under its id"⟩
          | .revoked => ⟨"successor", false, "the successor is revoked by this very bundle"⟩

def validityCheck (bundle : TrustBundle) (now : DateTime) : BundleCheck :=
  if bundle.validUntil < bundle.issuedAt then
    ⟨"validity", false, s!"validity window ends ({bundle.validUntil}) before it starts " ++
      s!"({bundle.issuedAt})"⟩
  else if now < bundle.issuedAt then
    ⟨"validity", false, s!"not yet valid: issued at {bundle.issuedAt}"⟩
  else if bundle.validUntil < now then
    ⟨"validity", false, s!"expired at {bundle.validUntil}"⟩
  else
    ⟨"validity", true, s!"valid from {bundle.issuedAt} until {bundle.validUntil}"⟩

/-- The checks in the order the code pushes them. -/
def examine (bundle : TrustBundle) (now : DateTime) : List BundleCheck :=
  let (issuer, issuerKey) := issuerCheck c bundle
  [schemaCheck bundle, issuer, signatureCheck c bundle issuerKey, keysCheck c bundle] ++
    (bundle.successor.map (successorCheck c bundle)).toList ++ [validityCheck bundle now]

/-- What `import` reports of the checks that failed. -/
def failedChecks (bundle : TrustBundle) (now : DateTime) : List String :=
  (examine c bundle now).filterMap fun check =>
    if check.passed then none else some s!"{check.name}: {check.detail}"

/-! ### What a bundle that passes is like -/

section Passes
variable {c : Crates}

theorem failedChecks_eq_nil {bundle : TrustBundle} {now : DateTime} :
    failedChecks c bundle now = [] ↔ ∀ check ∈ examine c bundle now, check.passed = true := by
  unfold failedChecks
  rw [List.filterMap_eq_nil_iff]
  constructor
  · intro h check hmem
    have := h check hmem
    split at this
    next hpassed => exact hpassed
    next => cases this
  · intro h check hmem
    rw [if_pos (h check hmem)]

theorem issuerCheck_passed {bundle : TrustBundle} (h : (issuerCheck c bundle).1.passed = true) :
    keyIdFromHex c bundle.issuer.publicKey = .ok bundle.issuer.keyId := by
  unfold issuerCheck at h
  unfold keyIdFromHex
  cases hkey : keyFromHex c bundle.issuer.publicKey with
  | error e => simp [hkey] at h
  | ok key =>
    simp only [hkey] at h
    split at h
    next hid => rw [Except.map, hid]
    next => cases h

/-- The keys the loop goes through: each derives to its id, no id comes twice, and every
revocation has a date. -/
structure KeysInOrder (c : Crates) (keys : List BundledKey) : Prop where
  derive : ∀ key ∈ keys, keyIdFromHex c key.publicKey = .ok key.id
  nodup : (keys.map BundledKey.id).Nodup
  dated : ∀ key ∈ keys, key.status = .revoked → key.revokedAt.isSome = true

theorem keysInOrder_cons {key : BundledKey} {keys : List BundledKey}
    (hderive : keyIdFromHex c key.publicKey = .ok key.id)
    (hdated : key.status = .revoked → key.revokedAt.isSome = true)
    (hfresh : ∀ k ∈ keys, k.id ≠ key.id) (h : KeysInOrder c keys) :
    KeysInOrder c (key :: keys) := by
  refine ⟨?_, ?_, ?_⟩
  · intro k hk
    rcases List.mem_cons.mp hk with rfl | hk
    · exact hderive
    · exact h.derive k hk
  · rw [List.map_cons, List.nodup_cons]
    refine ⟨?_, h.nodup⟩
    intro hmem
    obtain ⟨k, hk, hid⟩ := List.mem_map.mp hmem
    exact hfresh k hk hid
  · intro k hk
    rcases List.mem_cons.mp hk with rfl | hk
    · exact hdated
    · exact h.dated k hk

theorem keysLoop_ok {seen : List String} {n m : Nat} {keys : List BundledKey}
    (h : keysLoop c seen n keys = .ok m) : KeysInOrder c keys ∧ ∀ key ∈ keys, key.id ∉ seen := by
  induction keys generalizing seen n with
  | nil => exact ⟨⟨by simp, List.nodup_nil, by simp⟩, by simp⟩
  | cons key rest ih =>
    simp only [keysLoop] at h
    split at h
    next => cases h
    next derived hderived =>
      split at h
      next => cases h
      next hid =>
        have hid : derived = key.id := by simpa using hid
        rw [hid] at hderived
        split at h
        next => cases h
        next hseen =>
          -- both branches that go on do so with this id among the ones seen
          have step : ∀ n', keysLoop c (key.id :: seen) n' rest = .ok m →
              (key.status = .revoked → key.revokedAt.isSome = true) →
              KeysInOrder c (key :: rest) ∧ ∀ k ∈ key :: rest, k.id ∉ seen := by
            intro n' hrest hdated
            obtain ⟨horder, hfresh⟩ := ih hrest
            refine ⟨keysInOrder_cons hderived hdated ?_ horder, ?_⟩
            · intro k hk heq
              exact hfresh k hk (heq ▸ List.mem_cons_self)
            · intro k hk
              rcases List.mem_cons.mp hk with rfl | hk
              · exact hseen
              · exact fun hmem => hfresh k hk (List.mem_cons_of_mem key.id hmem)
          split at h
          next _ hstatus =>
            apply step _ h
            intro hrevoked
            rw [hstatus] at hrevoked
            cases hrevoked
          next => cases h
          next date _ hdate =>
            apply step _ h
            intro _
            rw [hdate]
            rfl

theorem keysCheck_passed {bundle : TrustBundle} (h : (keysCheck c bundle).passed = true) :
    KeysInOrder c bundle.keys := by
  unfold keysCheck at h
  split at h
  next => cases h
  next =>
    split at h
    next => cases h
    next hloop => exact (keysLoop_ok hloop).1

/-- The issuer vouches for itself. -/
theorem keysCheck_issuer {bundle : TrustBundle} (h : (keysCheck c bundle).passed = true) :
    ∃ key, bundle.keys.find? (fun k => k.id == bundle.issuer.keyId) = some key ∧
      key.status = .trusted := by
  unfold keysCheck at h
  split at h
  next => cases h
  next =>
    split at h
    next => cases h
    next =>
      split at h
      next => cases h
      next key hfind =>
        split at h
        next hstatus => exact ⟨key, hfind, hstatus⟩
        next => cases h

theorem validityCheck_passed {bundle : TrustBundle} {now : DateTime} :
    (validityCheck bundle now).passed = true ↔
      bundle.issuedAt ≤ now ∧ now ≤ bundle.validUntil := by
  unfold validityCheck
  split
  next hwindow =>
    simp only [Bool.false_eq_true, false_iff, not_and, not_le]
    intro hstart
    exact lt_of_lt_of_le hwindow hstart
  next =>
    split
    next hearly =>
      simp only [Bool.false_eq_true, false_iff, not_and]
      intro hstart
      exact absurd hstart (not_le.mpr hearly)
    next hstart =>
      split
      next hlate =>
        simp only [Bool.false_eq_true, false_iff, not_and]
        intro _
        exact not_le.mpr hlate
      next hend => simp [not_lt.mp hstart, not_lt.mp hend]

/-- A bundle with no failed check, as far as the store relies on it. -/
structure Passes (c : Crates) (bundle : TrustBundle) : Prop where
  issuer : keyIdFromHex c bundle.issuer.publicKey = .ok bundle.issuer.keyId
  keys : KeysInOrder c bundle.keys
  vouched : ∃ key, bundle.keys.find? (fun k => k.id == bundle.issuer.keyId) = some key ∧
    key.status = .trusted

theorem passes_of_failedChecks {bundle : TrustBundle} {now : DateTime}
    (h : failedChecks c bundle now = []) : Passes c bundle := by
  rw [failedChecks_eq_nil] at h
  have hissuer : (issuerCheck c bundle).1.passed = true := h _ (by simp [examine])
  have hkeys : (keysCheck c bundle).passed = true := h _ (by simp [examine])
  exact ⟨issuerCheck_passed hissuer, keysCheck_passed hkeys, keysCheck_issuer hkeys⟩

theorem window_of_failedChecks {bundle : TrustBundle} {now : DateTime}
    (h : failedChecks c bundle now = []) : bundle.issuedAt ≤ now ∧ now ≤ bundle.validUntil := by
  rw [failedChecks_eq_nil] at h
  exact validityCheck_passed.mp (h _ (by simp [examine]))

/-- The checks one by one, once the issuer's key is known. -/
theorem failedChecks_of_passed {bundle : TrustBundle} {now : DateTime} {key : VerifyingKey}
    (hschema : (schemaCheck bundle).passed = true)
    (hkey : keyFromHex c bundle.issuer.publicKey = .ok key) (hid : keyId c key = bundle.issuer.keyId)
    (hsignature : (signatureCheck c bundle (some key)).passed = true)
    (hkeys : (keysCheck c bundle).passed = true)
    (hsuccessor : ∀ s ∈ bundle.successor, (successorCheck c bundle s).passed = true)
    (hstart : bundle.issuedAt ≤ now) (hend : now ≤ bundle.validUntil) :
    failedChecks c bundle now = [] := by
  rw [failedChecks_eq_nil]
  intro check hmem
  have hissuer : issuerCheck c bundle =
      (⟨"issuer", true, s!"issued by key {bundle.issuer.keyId}"⟩, some key) := by
    simp only [issuerCheck, hkey, hid, if_true]
  simp only [examine, hissuer, List.mem_append, List.mem_cons, List.not_mem_nil, or_false,
    Option.mem_toList, Option.map_eq_some_iff] at hmem
  rcases hmem with ((rfl | rfl | rfl | rfl) | ⟨s, hs, rfl⟩) | rfl
  · exact hschema
  · rfl
  · exact hsignature
  · exact hkeys
  · exact hsuccessor s hs
  · exact validityCheck_passed.mpr ⟨hstart, hend⟩

/-- The clock matters to one check only. -/
theorem failedChecks_of_window {bundle : TrustBundle} {now now' : DateTime}
    (h : failedChecks c bundle now = []) (hstart : bundle.issuedAt ≤ now')
    (hend : now' ≤ bundle.validUntil) : failedChecks c bundle now' = [] := by
  rw [failedChecks_eq_nil] at h ⊢
  intro check hmem
  simp only [examine, List.mem_append, List.mem_singleton] at h hmem
  rcases hmem with hmem | rfl
  · exact h check (.inl hmem)
  · exact validityCheck_passed.mpr ⟨hstart, hend⟩

end Passes

end Attest.Trust
