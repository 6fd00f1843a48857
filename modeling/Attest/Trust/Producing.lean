import Attest.Library.StableSort
import Attest.Trust.Copies
import Attest.Trust.DateText
import Attest.Trust.Judgement
import Attest.Trust.Signing

/-! Producing a bundle, and its way to another store.

A bundle is assembled from the entries of a policy that loads, each with its key, and signed.
Whoever receives it reads the file, judges the bundle and merges it. `travels_iff` says which
bundles get through all of that: those whose text the reader takes. -/
namespace Attest.Trust
open Library Library.Fallible

/-! ### The bundle -/

theorem nanos_lt_of_mod (total : Int) : (total % 1000000000).toNat < 2000000000 := by omega

/-- A clock reading and so many nanoseconds; outside the range the addition stops the program. -/
def DateTime.plus (t : DateTime) (nanos : Int) : Except String DateTime :=
  let total := t.secs * 1000000000 + t.nanos + nanos
  if h : minSecs ≤ total / 1000000000 ∧ total / 1000000000 ≤ maxSecs then
    .ok ⟨total / 1000000000, (total % 1000000000).toNat, h, nanos_lt_of_mod total⟩
  else .error "`DateTime + TimeDelta` overflowed"

/-- The nanoseconds of a clock reading, which order the bundles of an issuer. -/
def sequenceOf (t : DateTime) : Except String UInt64 :=
  let nanos := t.secs * 1000000000 + t.nanos
  if nanos < -2 ^ 63 ∨ 2 ^ 63 ≤ nanos then .error "clock out of the range a sequence can hold"
  else if nanos < 0 then .error "clock reads before 1970"
  else .ok (UInt64.ofNat nanos.toNat)

/-- An entry with its key. -/
def bundledKey (publicKeys : AList (fun _ : String => String)) (entry : TrustEntry) :
    Except String BundledKey :=
  match publicKeys.lookup entry.id with
  | none =>
    .error (s!"entry '{entry.name}' names key {entry.id} but no public key file in the trust " ++
      "store holds it")
  | some publicKey =>
    if entry.status = .revoked ∧ entry.revokedAt = none then
      .error (s!"key {entry.id} ('{entry.name}') is revoked without a date; a bundle has to say " ++
        "when, so a recipient can judge signatures made before it. Set revoked_at in trust.toml")
    else .ok ⟨entry.id, entry.name, publicKey, entry.status, entry.revokedAt⟩

/-- The issuer vouches for itself. -/
def vouchForIssuer (keys : List BundledKey) (issuer : Issuer) : Except String Unit :=
  match keys.find? (fun k => k.id == issuer.keyId) with
  | none => .error s!"issuer key {issuer.keyId} is not listed in the trust store"
  | some k =>
    match k.status with
    | .trusted => .ok ()
    | .revoked => .error s!"issuer key {issuer.keyId} is revoked in the very store it would sign"

/-- The successor, by its id: a key the same bundle vouches for. -/
def nameSuccessor (keys : List BundledKey) (issuer : Issuer) :
    Option String → Except String (Option Issuer)
  | none => .ok none
  | some id =>
    if id = issuer.keyId then .error "a key cannot be its own successor"
    else
      match keys.find? (fun k => k.id == id) with
      | none => .error s!"successor {id} is not in the trust store; generate or import it first"
      | some k =>
        match k.status with
        | .trusted => .ok (some ⟨k.id, k.publicKey⟩)
        | .revoked => .error s!"successor {id} is revoked; it cannot take over"

def TrustBundle.signedBy (bundle : TrustBundle) (sign : SigningKey → Bytes → Vector UInt8 64)
    (key : SigningKey) : TrustBundle :=
  { bundle with signature := some (hexEncode (sign key bundle.signingBytes).toList) }

section Produce
variable (c : Crates) (sign : SigningKey → Bytes → Vector UInt8 64)

def issuerOf (key : SigningKey) : Issuer where
  keyId := keyId c (c.verifyingKey key)
  publicKey := hexEncode (c.verifyingKey key).bytes.toList

/-- `produce`, at the clock reading `now`, for so many nanoseconds. -/
def produce (ws : Workspace) (requestedKey : Option String) (validFor : Int)
    (successor : Option String) (now : DateTime) : Except String TrustBundle := do
  let signingKey ← match ← KeyStore.selectSigningKey c ws requestedKey with
    | some key => .ok key
    | none => .error ("no managed signing key; generate one with `attest keys generate` or name " ++
        "one with --key")
  let issuer := issuerOf c signingKey
  let policy ← loadPolicy c ws
  let publicKeys ← trustDirPublicKeys c ws.trustDir
  let keys ← policy.keys.mapM (bundledKey publicKeys)
  refuseIf (keys = []) "the trust store lists no keys; there is nothing to bundle"
  vouchForIssuer keys issuer
  let successor ← nameSuccessor keys issuer successor
  let validUntil ← now.plus validFor
  let sequence ← sequenceOf now
  let bundle : TrustBundle :=
    { schemaVersion := bundleSchemaVersion
      issuer := issuer
      issuedAt := now
      validUntil := validUntil
      sequence := sequence
      keys := keys.mergeSort fun a b => decide (a.id ≤ b.id)
      successor := successor
      signature := none }
  return bundle.signedBy sign signingKey

end Produce

/-! ### What is produced -/

/-- What a bundle that is produced is made of. -/
structure Produced (c : Crates) (sign : SigningKey → Bytes → Vector UInt8 64) (ws : Workspace)
    (validFor : Int) (successor : Option String) (now : DateTime) (bundle : TrustBundle)
    (policy : TrustPolicy) (key : SigningKey) : Prop where
  loads : loadPolicy c ws = .ok policy
  entries : ∃ keys, keys.map BundledKey.toEntry = policy.keys ∧ keys ≠ [] ∧
    bundle.keys = keys.mergeSort fun a b => decide (a.id ≤ b.id)
  held : ∀ k ∈ bundle.keys, ∃ stem held, ws.trustDir.pubs.lookup stem = some (.file (some held)) ∧
    keyId c held = k.id ∧ hexEncode held.bytes.toList = k.publicKey
  dated : ∀ k ∈ bundle.keys, k.status = .revoked → k.revokedAt.isSome = true
  issuer : bundle.issuer = issuerOf c key
  vouched : ∃ k ∈ bundle.keys, k.id = bundle.issuer.keyId ∧ k.status = .trusted
  handover : ∀ s ∈ bundle.successor, s.keyId ≠ bundle.issuer.keyId ∧
    ∃ k ∈ bundle.keys, k.id = s.keyId ∧ k.publicKey = s.publicKey ∧ k.status = .trusted
  window : bundle.issuedAt = now ∧ now.plus validFor = .ok bundle.validUntil
  version : bundle.schemaVersion = bundleSchemaVersion
  signed : bundle.signature = some (hexEncode (sign key bundle.signingBytes).toList)

section Produced
variable {c : Crates} {sign : SigningKey → Bytes → Vector UInt8 64} {ws : Workspace}
  {requestedKey successor : Option String} {validFor : Int} {now : DateTime} {bundle : TrustBundle}
  {policy : TrustPolicy} {key : SigningKey} {publicKeys : AList (fun _ : String => String)}
  {keys : List BundledKey} {issuer : Issuer}

theorem bundledKeys_eq_ok {entries : List TrustEntry}
    (h : entries.mapM (bundledKey publicKeys) = .ok keys) :
    keys.map BundledKey.toEntry = entries ∧
      ∀ k ∈ keys, publicKeys.lookup k.id = some k.publicKey ∧
        (k.status = .revoked → k.revokedAt.isSome = true) := by
  induction entries generalizing keys with
  | nil =>
    cases h
    exact ⟨rfl, by simp⟩
  | cons entry rest ih =>
    rw [List.mapM_cons] at h
    obtain ⟨first, hfirst, h⟩ := except_bind_eq_ok.mp h
    obtain ⟨more, hmore, h⟩ := except_bind_eq_ok.mp h
    cases h
    obtain ⟨hentries, hkeys⟩ := ih hmore
    unfold bundledKey at hfirst
    split at hfirst
    next => cases hfirst
    next publicKey hlookup =>
      split at hfirst
      next => cases hfirst
      next hundated =>
        cases hfirst
        refine ⟨congrArg (entry :: ·) hentries, ?_⟩
        rw [List.forall_mem_cons]
        refine ⟨⟨hlookup, ?_⟩, hkeys⟩
        intro hrevoked
        apply Option.isSome_iff_ne_none.mpr
        exact fun hnone => hundated ⟨hrevoked, hnone⟩

theorem vouchForIssuer_eq_ok {u : Unit} (h : vouchForIssuer keys issuer = .ok u) :
    ∃ k ∈ keys, k.id = issuer.keyId ∧ k.status = .trusted := by
  unfold vouchForIssuer at h
  split at h
  next => cases h
  next k hfind =>
    split at h
    next hstatus =>
      exact ⟨k, List.mem_of_find?_eq_some hfind, by simpa using List.find?_some hfind, hstatus⟩
    next => cases h

theorem nameSuccessor_eq_ok {handover : Option Issuer}
    (h : nameSuccessor keys issuer successor = .ok handover) :
    ∀ s ∈ handover, s.keyId ≠ issuer.keyId ∧
      ∃ k ∈ keys, k.id = s.keyId ∧ k.publicKey = s.publicKey ∧ k.status = .trusted := by
  unfold nameSuccessor at h
  intro s hs
  split at h
  next =>
    cases h
    cases hs
  next id =>
    split at h
    next => cases h
    next hother =>
      split at h
      next => cases h
      next k hfind =>
        have hid : k.id = id := by simpa using List.find?_some hfind
        split at h
        next hstatus =>
          cases h
          cases hs
          exact ⟨fun heq => hother (hid ▸ heq), k, List.mem_of_find?_eq_some hfind, rfl, rfl, hstatus⟩
        next => cases h

/-- The id of a managed key is the id of a key in some file. -/
theorem held_of_managedKeys {entries : List (Sigma fun _ : String => Node (Option VerifyingKey))}
    {before managed : AList (fun _ : String => String)}
    (h : managedKeys c before entries = .ok managed) {id hex : String}
    (hlookup : managed.lookup id = some hex) :
    (∃ stem held, ⟨stem, .file (some held)⟩ ∈ entries ∧ keyId c held = id ∧
      hexEncode held.bytes.toList = hex) ∨ before.lookup id = some hex := by
  induction before, entries using managedKeys.induct (c := c) with
  | case1 before =>
    cases h
    exact .inr hlookup
  | case2 before stem rest ih =>
    apply (ih h).imp_left
    intro ⟨stem, held, hmem, hheld⟩
    exact ⟨stem, held, List.mem_cons_of_mem _ hmem, hheld⟩
  | case3 before stem rest => cases h
  | case4 before stem rest ih =>
    apply (ih h).imp_left
    intro ⟨stem, held, hmem, hheld⟩
    exact ⟨stem, held, List.mem_cons_of_mem _ hmem, hheld⟩
  | case5 before stem held rest ih =>
    rcases ih h with ⟨stem', held', hmem, hheld⟩ | hbefore
    · exact .inl ⟨stem', held', List.mem_cons_of_mem _ hmem, hheld⟩
    · by_cases hid : id = keyId c held
      · rw [hid, AList.lookup_insert] at hbefore
        exact .inl ⟨stem, held, List.mem_cons_self .., hid.symm, Option.some.inj hbefore⟩
      · rw [AList.lookup_insert_ne hid] at hbefore
        exact .inr hbefore

theorem produced_of_produce
    (h : produce c sign ws requestedKey validFor successor now = .ok bundle) :
    ∃ policy key, KeyStore.selectSigningKey c ws requestedKey = .ok (some key) ∧
      Produced c sign ws validFor successor now bundle policy key := by
  unfold produce at h
  obtain ⟨found, hselect, h⟩ := except_bind_eq_ok.mp h
  cases found with
  | none => cases h
  | some key =>
    obtain ⟨_, hfound, h⟩ := except_bind_eq_ok.mp h
    cases hfound
    obtain ⟨policy, hload, h⟩ := except_bind_eq_ok.mp h
    obtain ⟨publicKeys, hpublic, h⟩ := except_bind_eq_ok.mp h
    obtain ⟨keys, hkeys, h⟩ := except_bind_eq_ok.mp h
    obtain ⟨_, hsome, h⟩ := except_bind_eq_ok.mp h
    obtain ⟨_, hvouch, h⟩ := except_bind_eq_ok.mp h
    obtain ⟨handover, hhandover, h⟩ := except_bind_eq_ok.mp h
    obtain ⟨validUntil, huntil, h⟩ := except_bind_eq_ok.mp h
    obtain ⟨sequence, hsequence, h⟩ := except_bind_eq_ok.mp h
    cases h
    obtain ⟨hentries, hmade⟩ := bundledKeys_eq_ok hkeys
    have hmem : ∀ k : BundledKey, k ∈ keys.mergeSort (fun a b => decide (a.id ≤ b.id)) ↔ k ∈ keys :=
      fun k => (List.mergeSort_perm keys _).mem_iff
    refine ⟨policy, key, hselect, hload, ⟨keys, hentries, refuseIf_eq_ok.mp hsome, rfl⟩, ?_, ?_, rfl,
      ?_, ?_, ⟨rfl, huntil⟩, rfl, rfl⟩
    · intro k hk
      have hlookup := (hmade k ((hmem k).mp hk)).1
      rcases held_of_managedKeys hpublic hlookup with ⟨stem, held, hfile, hheld⟩ | hnone
      · exact ⟨stem, held, AList.mem_lookup_iff.mpr hfile, hheld⟩
      · cases hnone
    · exact fun k hk => (hmade k ((hmem k).mp hk)).2
    · obtain ⟨k, hk, hvouched⟩ := vouchForIssuer_eq_ok hvouch
      exact ⟨k, (hmem k).mpr hk, hvouched⟩
    · intro s hs
      obtain ⟨hother, k, hk, hnamed⟩ := nameSuccessor_eq_ok hhandover s hs
      exact ⟨hother, k, (hmem k).mpr hk, hnamed⟩

end Produced

/-! ### Items by their ids -/

section Ids
variable {α : Type} {id : α → String} {items items' : List α}

theorem find?_of_mem (hnodup : (items.map id).Nodup) {a : α} (hmem : a ∈ items) :
    items.find? (fun b => id b == id a) = some a := by
  cases hfind : items.find? (fun b => id b == id a) with
  | none => exact absurd (List.find?_eq_none.mp hfind a hmem) (by simp)
  | some b =>
    have hid : id b = id a := by simpa using List.find?_some hfind
    rw [List.inj_on_of_nodup_map hnodup (List.mem_of_find?_eq_some hfind) hmem hid]

theorem find?_of_perm (hnodup : (items.map id).Nodup) (hperm : items'.Perm items) (x : String) :
    items'.find? (fun a => id a == x) = items.find? (fun a => id a == x) := by
  cases hfind : items.find? (fun a => id a == x) with
  | none =>
    apply List.find?_eq_none.mpr
    intro a ha
    exact List.find?_eq_none.mp hfind a (hperm.mem_iff.mp ha)
  | some a =>
    have hid : id a = x := by simpa using List.find?_some hfind
    have hnodup' : (items'.map id).Nodup := (hperm.map id).nodup_iff.mpr hnodup
    rw [← hid]
    exact find?_of_mem hnodup' (hperm.mem_iff.mpr (List.mem_of_find?_eq_some hfind))

/-- Where no id comes twice, the order of the items does not change how they are sorted. -/
theorem mergeSort_of_perm (hnodup : (items.map id).Nodup) (hperm : items'.Perm items) :
    (items'.mergeSort fun a b => decide (id a ≤ id b)) =
      items.mergeSort fun a b => decide (id a ≤ id b) := by
  have hsorted : ((items'.mergeSort fun a b => decide (id a ≤ id b)).Perm
      (items.mergeSort fun a b => decide (id a ≤ id b))) :=
    (List.mergeSort_perm items' _).trans (hperm.trans (List.mergeSort_perm items _).symm)
  apply hsorted.eq_of_pairwise _ (StableSort.pairwise_sortByKey id items')
    (StableSort.pairwise_sortByKey id items)
  intro a b ha hb hab hba
  have ha' : a ∈ items := hperm.mem_iff.mp ((List.mergeSort_perm items' _).mem_iff.mp ha)
  have hb' : b ∈ items := (List.mergeSort_perm items _).mem_iff.mp hb
  exact List.inj_on_of_nodup_map hnodup ha' hb' (le_antisymm hab hba)

end Ids

/-! ### The checks of a bundle that is produced -/

/-- What the code relies on Ed25519 for: public keys are points of the curve, and what the key
signs verifies under its public key. -/
structure Signs (c : Crates) (sign : SigningKey → Bytes → Vector UInt8 64) (ws : Workspace)
    (key : SigningKey) : Prop where
  point : c.pointError (c.verifyingKey key).bytes = none
  points : ∀ stem held, ws.trustDir.pubs.lookup stem = some (.file (some held)) →
    c.pointError held.bytes = none
  verifies : ∀ message, c.verify (c.verifyingKey key) message (sign key message) = true

section Checks
variable {c : Crates} {sign : SigningKey → Bytes → Vector UInt8 64} {ws : Workspace}
  {successor : Option String} {validFor : Int} {now : DateTime} {bundle : TrustBundle}
  {policy : TrustPolicy} {key : SigningKey}

theorem keyFromHex_hexEncode {held : VerifyingKey} (h : c.pointError held.bytes = none) :
    keyFromHex c (hexEncode held.bytes.toList) = .ok held := by
  simp only [keyFromHex, hexDecode_hexEncode, toVector_toList, fromBytes, h]
  rfl

theorem keyIdFromHex_hexEncode {held : VerifyingKey} (h : c.pointError held.bytes = none) :
    keyIdFromHex c (hexEncode held.bytes.toList) = .ok (keyId c held) := by
  rw [keyIdFromHex, keyFromHex_hexEncode h]
  rfl

theorem Produced.perm (h : Produced c sign ws validFor successor now bundle policy key) :
    (bundle.keys.map BundledKey.toEntry).Perm policy.keys := by
  obtain ⟨keys, hentries, _, hkeys⟩ := h.entries
  rw [← hentries, hkeys]
  exact (List.mergeSort_perm keys _).map _

/-- The ids of the keys are those of the entries. -/
theorem Produced.nodup (h : Produced c sign ws validFor successor now bundle policy key) :
    (bundle.keys.map BundledKey.id).Nodup := by
  have hids : ((bundle.keys.map BundledKey.toEntry).map TrustEntry.id).Nodup :=
    (h.perm.map TrustEntry.id).nodup_iff.mpr (loadPolicy_ok_iff.mp h.loads).2.nodup
  rw [List.map_map] at hids
  exact hids

theorem Produced.inOrder (h : Produced c sign ws validFor successor now bundle policy key)
    (hsigns : Signs c sign ws key) : KeysInOrder c bundle.keys := by
  refine ⟨?_, h.nodup, h.dated⟩
  intro k hk
  obtain ⟨stem, held, hfile, hid, hhex⟩ := h.held k hk
  rw [← hhex, keyIdFromHex_hexEncode (hsigns.points stem held hfile), hid]

theorem keysLoop_of_inOrder {keys : List BundledKey} (h : KeysInOrder c keys) (seen : List String)
    (hfresh : ∀ k ∈ keys, k.id ∉ seen) (revoked : Nat) :
    ∃ total, keysLoop c seen revoked keys = .ok total := by
  induction keys generalizing seen revoked with
  | nil => exact ⟨revoked, rfl⟩
  | cons k rest ih =>
    obtain ⟨hderive, hrest⟩ := List.forall_mem_cons.mp h.derive
    obtain ⟨hdated, hdates⟩ := List.forall_mem_cons.mp h.dated
    obtain ⟨hnew, hnodup⟩ := List.nodup_cons.mp h.nodup
    obtain ⟨hunseen, hunseenRest⟩ := List.forall_mem_cons.mp hfresh
    have hnext : ∀ other ∈ rest, other.id ∉ k.id :: seen := by
      intro other hother hmem
      rcases List.mem_cons.mp hmem with hsame | hmem
      · exact hnew (hsame ▸ List.mem_map_of_mem hother)
      · exact hunseenRest other hother hmem
    have hgo := ih ⟨hrest, hnodup, hdates⟩ (k.id :: seen) hnext
    rw [keysLoop, hderive]
    dsimp only
    rw [if_neg (not_not.mpr rfl), if_neg hunseen]
    cases hstatus : k.status with
    | trusted => exact hgo revoked
    | revoked =>
      obtain ⟨date, hdate⟩ := Option.isSome_iff_exists.mp (hdated hstatus)
      rw [hdate]
      exact hgo (revoked + 1)

theorem Produced.keysCheck_passed (h : Produced c sign ws validFor successor now bundle policy key)
    (hsigns : Signs c sign ws key) : (keysCheck c bundle).passed = true := by
  obtain ⟨k, hk, hid, hstatus⟩ := h.vouched
  have hfind : bundle.keys.find? (fun k => k.id == bundle.issuer.keyId) = some k := by
    rw [← hid]
    exact find?_of_mem h.nodup hk
  obtain ⟨total, hloop⟩ := keysLoop_of_inOrder (h.inOrder hsigns) [] (by simp) 0
  have hsome : bundle.keys.isEmpty = false := by
    rw [List.isEmpty_eq_false_iff]
    exact List.ne_nil_of_mem hk
  simp only [keysCheck, hsome, hloop, hfind, hstatus, Bool.false_eq_true, if_false]

theorem Produced.successorCheck_passed
    (h : Produced c sign ws validFor successor now bundle policy key) (hsigns : Signs c sign ws key) :
    ∀ s ∈ bundle.successor, (successorCheck c bundle s).passed = true := by
  intro s hs
  obtain ⟨hother, k, hk, hid, hkey, hstatus⟩ := h.handover s hs
  have hfind : bundle.keys.find? (fun k => k.id == s.keyId) = some k := by
    rw [← hid]
    exact find?_of_mem h.nodup hk
  have hderive : keyIdFromHex c s.publicKey = .ok s.keyId := by
    rw [← hkey, ← hid]
    exact (h.inOrder hsigns).derive k hk
  simp only [successorCheck, if_neg hother, hderive, hfind, hstatus, ne_eq, not_true_eq_false,
    if_false, hkey, if_true]

theorem Produced.signatureCheck_passed
    (h : Produced c sign ws validFor successor now bundle policy key) (hsigns : Signs c sign ws key) :
    (signatureCheck c bundle (some (c.verifyingKey key))).passed = true := by
  simp only [signatureCheck, h.signed, hexDecode_hexEncode, Option.bind_some, toVector_toList,
    hsigns.verifies, if_true]

/-- A bundle that is produced passes its checks from its date to its end. -/
theorem Produced.passes (h : Produced c sign ws validFor successor now bundle policy key)
    (hsigns : Signs c sign ws key) {at_ : DateTime} (hstart : bundle.issuedAt ≤ at_)
    (hend : at_ ≤ bundle.validUntil) : failedChecks c bundle at_ = [] := by
  apply failedChecks_of_passed _ _ _ (h.signatureCheck_passed hsigns) (h.keysCheck_passed hsigns)
    (h.successorCheck_passed hsigns) hstart hend
  · rw [schemaCheck, if_pos h.version]
  · rw [h.issuer]
    exact keyFromHex_hexEncode hsigns.point
  · rw [h.issuer]
    rfl

end Checks

/-! ### The dates of a bundle that is produced -/

/-- A bundle whose dates are such as a clock or a text gives. -/
structure TrustBundle.Dated (bundle : TrustBundle) : Prop where
  issuedAt : bundle.issuedAt.Proper
  validUntil : bundle.validUntil.Proper
  revokedAt : ∀ k ∈ bundle.keys, ∀ date ∈ k.revokedAt, date.Proper

section Dates
variable {c : Crates} {sign : SigningKey → Bytes → Vector UInt8 64} {ws : Workspace}
  {successor : Option String} {validFor : Int} {now : DateTime} {bundle : TrustBundle}
  {policy : TrustPolicy} {key : SigningKey}

theorem plus_eq_ok {later : DateTime} (h : now.plus validFor = .ok later) :
    later.nanos < 1000000000 ∧
      later.secs * 1000000000 + later.nanos = now.secs * 1000000000 + now.nanos + validFor := by
  unfold DateTime.plus at h
  dsimp only at h
  split at h
  next =>
    cases h
    dsimp only
    generalize now.secs * 1000000000 + now.nanos + validFor = total
    exact ⟨by omega, by omega⟩
  next => cases h

theorem Produced.dated_all (h : Produced c sign ws validFor successor now bundle policy key)
    (hclock : now.nanos < 1000000000)
    (hdates : ∀ entry ∈ policy.keys, ∀ date ∈ entry.revokedAt, date.Proper) : bundle.Dated := by
  obtain ⟨hnow, hplus⟩ := h.window
  refine ⟨?_, .inl (plus_eq_ok hplus).1, ?_⟩
  · rw [hnow]
    exact .inl hclock
  · intro k hk
    exact hdates k.toEntry (h.perm.mem_iff.mp (List.mem_map_of_mem hk))

theorem Produced.lasts (h : Produced c sign ws validFor successor now bundle policy key)
    (hclock : now.nanos < 1000000000) (hvalid : 0 ≤ validFor) :
    bundle.issuedAt ≤ bundle.validUntil := by
  obtain ⟨hnow, hplus⟩ := h.window
  obtain ⟨hnanos, hsum⟩ := plus_eq_ok hplus
  rw [hnow]
  show now.ticks ≤ bundle.validUntil.ticks
  unfold DateTime.ticks
  omega

end Dates

/-! ### The way to another store -/

/-- What becomes of a bundle on its way: what is read is what was written, it passes every check
while it is valid, a store with nothing in it takes it from its issuer and then says of every key
what the first store says, and no order of the keys is signed for another. -/
structure Travels (c : Crates) (policy : TrustPolicy) (bundle : TrustBundle) : Prop where
  lasts : bundle.issuedAt ≤ bundle.validUntil
  read : ∀ path, readBundle c path (some (.file bundle.written)) = .ok bundle
  passes : ∀ now, bundle.issuedAt ≤ now → now ≤ bundle.validUntil → failedChecks c bundle now = []
  imported : ∀ path fs now, fs.trustDir = {} → bundle.issuedAt ≤ now → now ≤ bundle.validUntil →
    ∃ report w' after, importBundle c path (some (.file bundle.written))
        (some bundle.issuer.keyId) now ⟨fs, []⟩ = .ok report w' ∧
      loadPolicy c w'.fs = .ok after ∧ ∀ id, after.entry id = policy.entry id
  order : ∀ keys, keys.Perm bundle.keys →
    { bundle with keys := keys }.signingBytes = bundle.signingBytes

section Travel
variable {c : Crates} {sign : SigningKey → Bytes → Vector UInt8 64} {ws : Workspace}
  {requestedKey successor : Option String} {validFor : Int} {now : DateTime} {bundle : TrustBundle}
  {policy : TrustPolicy} {key : SigningKey}

theorem signingBytes_of_perm (hnodup : (bundle.keys.map BundledKey.id).Nodup)
    {keys : List BundledKey} (hperm : keys.Perm bundle.keys) :
    { bundle with keys := keys }.signingBytes = bundle.signingBytes := by
  unfold TrustBundle.signingBytes
  dsimp only
  rw [mergeSort_of_perm hnodup hperm]

/-- Keys no entry has the id of are added one by one. -/
theorem mergeKeys_of_fresh {entries : List TrustEntry} {keys : List BundledKey}
    (report : ImportReport) (hnodup : ((entries ++ keys.map BundledKey.toEntry).map
      TrustEntry.id).Nodup) :
    (mergeKeys entries report keys).1 = entries ++ keys.map BundledKey.toEntry := by
  induction keys generalizing entries report with
  | nil => exact (List.append_nil _).symm
  | cons k rest ih =>
    have hfresh : entries.find? (fun e => e.id == k.id) = none := by
      apply List.find?_eq_none.mpr
      intro e he hid
      rw [List.map_append] at hnodup
      refine (List.nodup_append.mp hnodup).2.2 e.id (List.mem_map_of_mem he) k.id ?_ (by simpa using hid)
      exact List.mem_map_of_mem (List.mem_cons_self ..)
    have hstep : (mergeKey (entries, report) k).1 = entries ++ [k.toEntry] := by
      simp only [mergeKey, hfresh]
      rfl
    have hassoc : entries ++ (k :: rest).map BundledKey.toEntry =
        entries ++ [k.toEntry] ++ rest.map BundledKey.toEntry := by
      rw [List.append_assoc]
      rfl
    show (mergeKeys (mergeKey (entries, report) k).1 (mergeKey (entries, report) k).2 rest).1 = _
    rw [hassoc] at hnodup ⊢
    rw [hstep]
    exact ih _ hnodup

/-- An empty store takes the bundle, and its entries are those of the store it comes from. -/
theorem Produced.imported (h : Produced c sign ws validFor successor now bundle policy key)
    (hsigns : Signs c sign ws key) {path : String} {fs : Workspace} {at_ : DateTime}
    (hread : readBundle c path (some (.file bundle.written)) = .ok bundle)
    (hempty : fs.trustDir = {}) (hstart : bundle.issuedAt ≤ at_) (hend : at_ ≤ bundle.validUntil) :
    ∃ report w' after, importBundle c path (some (.file bundle.written))
        (some bundle.issuer.keyId) at_ ⟨fs, []⟩ = .ok report w' ∧
      loadPolicy c w'.fs = .ok after ∧ ∀ id, after.entry id = policy.entry id := by
  have hload : loadPolicy c fs = .ok {} := by
    rw [loadPolicy, hempty]
    rfl
  have hjudged : Judged c fs path (some (.file bundle.written)) (some bundle.issuer.keyId) at_
      bundle none none := by
    refine ⟨hread, h.passes hsigns hstart hend, ⟨{}, hload, rfl⟩, ?_, ?_, rfl⟩
    · intro e he
      exact (Option.some.inj he).symm
    · apply acceptedBundle_none_iff.mpr
      rw [hempty]
      rfl
  have hkeys := h.inOrder hsigns
  have hrun := (importBundle_run hjudged rfl []).trans
    (@record_run c bundle (emptyReport bundle none) fs {} hkeys hload (by rw [hempty]; rfl)
      (by rw [hempty]; rfl))
  have hfits : ∀ k ∈ bundle.keys, ({} : TrustPolicy).entry k.id = none →
      Fits c fs.trustDir.pubs k.id := by
    intro k _ _ node hnode
    rw [hempty] at hnode
    cases hnode
  refine ⟨_, _, _, hrun, loadPolicy_recorded hkeys hload hfits _, ?_⟩
  intro id
  have hnodup : (policy.keys.map TrustEntry.id).Nodup := (loadPolicy_ok_iff.mp h.loads).2.nodup
  have hmerged : (mergeKeys [] (emptyReport bundle none) bundle.keys).1 =
      bundle.keys.map BundledKey.toEntry :=
    mergeKeys_of_fresh _ ((h.perm.map TrustEntry.id).nodup_iff.mpr hnodup)
  show (mergeKeys [] (emptyReport bundle none) bundle.keys).1.find? (fun k => k.id == id) = _
  rw [hmerged]
  exact find?_of_perm hnodup h.perm id

/-- **Which bundles get there.** A bundle that is produced for no negative time is read, judged and
merged elsewhere as it was made, exactly when its text is no longer than a reader takes. -/
theorem travels_iff (hproduce : produce c sign ws requestedKey validFor successor now = .ok bundle)
    (hvalid : 0 ≤ validFor) (hclock : now.nanos < 1000000000)
    (hload : loadPolicy c ws = .ok policy)
    (hdates : ∀ entry ∈ policy.keys, ∀ date ∈ entry.revokedAt, date.Proper)
    (hsigns : ∀ key, KeyStore.selectSigningKey c ws requestedKey = .ok (some key) →
      Signs c sign ws key)
    (hserde : bundle.Dated → c.fromSlice bundle.written = .ok bundle) :
    Travels c policy bundle ↔ bundle.written.length ≤ bundleLimit := by
  obtain ⟨loaded, key, hselect, h⟩ := produced_of_produce hproduce
  have hsame : loaded = policy := Except.ok.inj (h.loads.symm.trans hload)
  subst hsame
  have hsigns := hsigns key hselect
  constructor
  · intro htravels
    obtain ⟨bytes, hbytes, hsmall, _⟩ := readBundle_ok_iff.mp (htravels.read "")
    cases hbytes
    exact hsmall
  · intro hsmall
    have hread : ∀ path, readBundle c path (some (.file bundle.written)) = .ok bundle :=
      fun path => readBundle_ok_iff.mpr ⟨_, rfl, hsmall, hserde (h.dated_all hclock hdates)⟩
    refine ⟨h.lasts hclock hvalid, hread, ?_, ?_, ?_⟩
    · intro at_ hstart hend
      exact h.passes hsigns hstart hend
    · intro path fs at_ hempty hstart hend
      exact h.imported hsigns (hread path) hempty hstart hend
    · intro keys hperm
      exact signingBytes_of_perm h.nodup hperm

end Travel

/-! ### A store of one key -/

/-- The store of the first sample key, under some name. -/
def producerStore (name : String) : Workspace where
  root := "."
  keysPath := "./.attest/keys"
  keys := (∅ : Folder KeyContent).insert sampleIdA (.file (.pem sampleSeedA))
  trust := some
    { trustToml := some (.file (some { keys := [⟨sampleIdA, name, .trusted, none⟩] }))
      pubs := (∅ : Folder (Option VerifyingKey)).insert sampleIdA (.file (some samplePublicA)) }

/-- Ed25519 as it behaves on one bundle. -/
def signOne (bundle : TrustBundle) (signature : Vector UInt8 64) (key : SigningKey)
    (message : Bytes) : Vector UInt8 64 :=
  if key = sampleSeedA ∧ message = bundle.signingBytes then signature else Vector.replicate 64 0

def signingCrates (bundle : TrustBundle) (signature : Vector UInt8 64) : Crates :=
  { sampleCrates [bundle] with
    verify := fun key message found =>
      decide (key = samplePublicA ∧ found = signOne bundle signature sampleSeedA message) }

/-- The bundle that store makes on the first of March 2026, for a year. -/
def producedNamed (name : String) (signature : Vector UInt8 64) : TrustBundle :=
  { sampleNamed name with signature := some (hexEncode signature.toList) }

section Named
variable {name : String} {signature : Vector UInt8 64} {bundle : TrustBundle}

theorem verifyingKey_signingCrates :
    (signingCrates bundle signature).verifyingKey sampleSeedA = samplePublicA := by
  simp only [signingCrates, sampleCrates, if_true]

theorem keyId_signingCrates : keyId (signingCrates bundle signature) samplePublicA = sampleIdA :=
  @keyId_sampleA [bundle]

theorem signs_signOne (ws : Workspace) :
    Signs (signingCrates bundle signature) (signOne bundle signature) ws sampleSeedA where
  point := rfl
  points _ _ _ := rfl
  verifies _ := decide_eq_true ⟨verifyingKey_signingCrates, rfl⟩

theorem loadPolicy_producerStore : loadPolicy (signingCrates bundle signature) (producerStore name) =
    .ok { keys := [⟨sampleIdA, name, .trusted, none⟩] } := by
  apply loadPolicy_ok_iff.mpr
  refine ⟨rfl, List.nodup_singleton _, ?_, ?_⟩
  · intro entry hentry
    rw [List.mem_singleton.mp hentry, ← @keyId_signingCrates signature bundle]
    exact wellFormedId_keyId _ _
  · intro entry hentry
    rw [List.mem_singleton.mp hentry]
    exact ⟨samplePublicA, AList.lookup_insert _, keyId_signingCrates⟩

theorem selectSigningKey_producerStore :
    KeyStore.selectSigningKey (signingCrates bundle signature) (producerStore name)
      (some sampleIdA) = .ok (some sampleSeedA) :=
  selectSigningKey_some_iff.mpr ⟨sampleIdA, rfl, AList.lookup_insert _, _, loadPolicy_producerStore,
    _, List.mem_singleton.mpr rfl, rfl, rfl⟩

theorem trustDirPublicKeys_producerStore :
    trustDirPublicKeys (signingCrates bundle signature) (producerStore name).trustDir =
      .ok ((∅ : AList (fun _ : String => String)).insert sampleIdA
        (hexEncode samplePublicA.bytes.toList)) := by
  show Except.ok ((∅ : AList (fun _ : String => String)).insert
    (keyId (signingCrates bundle signature) samplePublicA) _) = _
  rw [keyId_signingCrates]

theorem bundledKeys_producerStore :
    [(⟨sampleIdA, name, .trusted, none⟩ : TrustEntry)].mapM
        (bundledKey ((∅ : AList (fun _ : String => String)).insert sampleIdA
          (hexEncode samplePublicA.bytes.toList))) =
      .ok [⟨sampleIdA, name, hexEncode samplePublicA.bytes.toList, .trusted, none⟩] := by
  have hkey : bundledKey ((∅ : AList (fun _ : String => String)).insert sampleIdA
      (hexEncode samplePublicA.bytes.toList)) ⟨sampleIdA, name, .trusted, none⟩ =
        .ok ⟨sampleIdA, name, hexEncode samplePublicA.bytes.toList, .trusted, none⟩ := by
    simp only [bundledKey, AList.lookup_insert]
    rfl
  rw [List.mapM_cons, hkey]
  rfl

theorem issuerOf_signingCrates : issuerOf (signingCrates bundle signature) sampleSeedA =
    sampleIssuerA := by
  rw [issuerOf, verifyingKey_signingCrates, keyId_signingCrates]
  rfl

/-- The store of one key makes the bundle under its name. -/
theorem produce_producerStore : produce (signingCrates (producedNamed name signature) signature)
    (signOne (producedNamed name signature) signature) (producerStore name) (some sampleIdA)
    31536000000000000 none (sampleDay 1772323200 march_inRange) =
      .ok (producedNamed name signature) := by
  have hvouch : vouchForIssuer [⟨sampleIdA, name, hexEncode samplePublicA.bytes.toList, .trusted, none⟩]
      sampleIssuerA = .ok () := by
    simp only [vouchForIssuer, List.find?_cons, sampleIssuerA, beq_self_eq_true]
  have huntil : (sampleDay 1772323200 march_inRange).plus 31536000000000000 =
      .ok (sampleDay 1803859200 nextMarch_inRange) := rfl
  have hsequence : sequenceOf (sampleDay 1772323200 march_inRange) = .ok 1772323200000000000 := rfl
  have hsigned : (signOne (producedNamed name signature) signature) sampleSeedA
      (producedNamed name signature).signingBytes = signature := if_pos ⟨rfl, rfl⟩
  refine except_bind_eq_ok.mpr ⟨_, selectSigningKey_producerStore, ?_⟩
  refine except_bind_eq_ok.mpr ⟨_, rfl, ?_⟩
  refine except_bind_eq_ok.mpr ⟨_, loadPolicy_producerStore, ?_⟩
  refine except_bind_eq_ok.mpr ⟨_, trustDirPublicKeys_producerStore, ?_⟩
  refine except_bind_eq_ok.mpr ⟨_, bundledKeys_producerStore, ?_⟩
  refine except_bind_eq_ok.mpr ⟨(), refuseIf_eq_ok.mpr (List.cons_ne_nil _ _), ?_⟩
  rw [issuerOf_signingCrates]
  refine except_bind_eq_ok.mpr ⟨(), hvouch, ?_⟩
  refine except_bind_eq_ok.mpr ⟨none, rfl, ?_⟩
  refine except_bind_eq_ok.mpr ⟨_, huntil, ?_⟩
  refine except_bind_eq_ok.mpr ⟨_, hsequence, ?_⟩
  rw [List.mergeSort_singleton]
  show Except.ok (TrustBundle.signedBy { producedNamed name signature with signature := none } _ _) = _
  rw [TrustBundle.signedBy]
  show Except.ok { producedNamed name signature with
    signature := some (hexEncode (signOne (producedNamed name signature) signature sampleSeedA
      (producedNamed name signature).signingBytes).toList) } = _
  rw [hsigned]
  rfl

theorem fromSlice_signingCrates :
    (signingCrates bundle signature).fromSlice bundle.written = .ok bundle :=
  fromSlice_sample_written bundle

theorem dated_producerStore : ∀ entry ∈ [(⟨sampleIdA, name, .trusted, none⟩ : TrustEntry)],
    ∀ date ∈ entry.revokedAt, date.Proper := by
  intro entry hentry date hdate
  rw [List.mem_singleton.mp hentry] at hdate
  cases hdate

end Named

def sampleSignatureSmall : Vector UInt8 64 :=
  #v[39, 174, 34, 239, 50, 130, 13, 238, 214, 98, 49, 127, 228, 60, 106, 89,
    123, 186, 125, 44, 217, 26, 139, 141, 80, 49, 125, 200, 227, 224, 112, 6,
    178, 64, 152, 157, 61, 49, 53, 90, 12, 82, 173, 132, 212, 176, 246, 43,
    58, 230, 87, 29, 190, 117, 171, 16, 79, 46, 146, 160, 55, 75, 47, 1]

theorem travels_authority :
    Travels (signingCrates (producedNamed "authority" sampleSignatureSmall) sampleSignatureSmall)
      { keys := [⟨sampleIdA, "authority", .trusted, none⟩] }
      (producedNamed "authority" sampleSignatureSmall) := by
  have hsigns : ∀ key, KeyStore.selectSigningKey
      (signingCrates (producedNamed "authority" sampleSignatureSmall) sampleSignatureSmall)
      (producerStore "authority") (some sampleIdA) = .ok (some key) →
        Signs (signingCrates (producedNamed "authority" sampleSignatureSmall) sampleSignatureSmall)
          (signOne (producedNamed "authority" sampleSignatureSmall) sampleSignatureSmall)
          (producerStore "authority") key := by
    intro key hkey
    rw [selectSigningKey_producerStore] at hkey
    cases hkey
    exact signs_signOne _
  apply (travels_iff produce_producerStore (by decide) (by decide) loadPolicy_producerStore
    dated_producerStore hsigns fun _ => fromSlice_signingCrates).mpr
  rw [TrustBundle.length_written]
  decide +kernel

/-- A store with a name of a million letters makes a bundle that no reader takes. -/
theorem large_bundle_stays_home :
    produce (signingCrates sampleLarge sampleSignatureLarge) (signOne sampleLarge sampleSignatureLarge)
        (producerStore sampleLongName) (some sampleIdA) 31536000000000000 none
        (sampleDay 1772323200) = .ok sampleLarge ∧
      ∀ path, readBundle (signingCrates sampleLarge sampleSignatureLarge) path
        (some (.file sampleLarge.written)) ≠ .ok sampleLarge := by
  refine ⟨produce_producerStore, ?_⟩
  intro path hread
  obtain ⟨bytes, hbytes, hsmall, _⟩ := readBundle_ok_iff.mp hread
  cases hbytes
  rw [length_written_sampleLarge] at hsmall
  exact absurd hsmall (by decide +kernel)

end Attest.Trust
