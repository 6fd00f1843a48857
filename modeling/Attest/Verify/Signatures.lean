import Attest.Trust.Revocation
import Attest.Verify.Checks

/-! When the signature check passes.

A signature that verifies is judged by what the trust directory says of its key: the
policy entry when a `.pub` file holds the key, a loose file when none does. A revoked
key's signature counts up to its date. A revocation without a date is read as one at
`MIN_UTC`, which is a moment like any other: a signature of exactly that moment is not
after it, and counts. -/
namespace Attest.Verify
open Trust Storage Library.Fallible

/-! ### Verdicts -/

theorem judgeRevoked_passed_iff {s : Signed} {revokedAt : DateTime} :
    (judgeRevoked s revokedAt).passed = true ↔ ∃ t, s.signedAt = some t ∧ t ≤ revokedAt := by
  unfold judgeRevoked
  cases s.signedAt with
  | none => simp
  | some t =>
    simp only [Option.some.injEq, exists_eq_left']
    split
    next h => simpa using h
    next h => simpa using h

theorem judgeSigned_passed_iff {c : Crates} {status : Except String KeyTrust} {s : Signed} :
    (judgeSigned c status s).passed = true ↔
      status = .ok .trusted ∨
        ∃ revokedAt t, status = .ok (.revoked revokedAt) ∧ s.signedAt = some t ∧ t ≤ revokedAt := by
  unfold judgeSigned
  split
  next => simp
  next => simp
  next => simp
  next revokedAt =>
    rw [judgeRevoked_passed_iff]
    simp

/-- The receipt carries an Ed25519 signature over its signing bytes that verifies under the key
it names. -/
def SignedBy (b : Backend) (receipt : Receipt) (publicKeyHex : String) : Prop :=
  ∃ signature signingBytes, receipt.signature = some signature ∧
    receipt.signerPublicKey = some publicKeyHex ∧
    receiptSigningBytes b.receiptJson receipt = .ok signingBytes ∧
    verifyWithPublicKey b.crates publicKeyHex (utf8 signingBytes) signature = .ok true

/-- What the trust store is asked about a receipt. -/
def asked (receipt : Receipt) (opts : VerifyOptions) (trustedTime : Option DateTime)
    (publicKeyHex : String) : Signed :=
  ⟨publicKeyHex, trustedTime, receipt.timestamp, opts.trustReceiptTimestamp⟩

section Check
variable {b : Backend} {files : Files} {receipt : Receipt} {opts : VerifyOptions}
  {trustedTime : Option DateTime}

theorem signatureCheck_pass_iff :
    (signatureCheck b files receipt opts trustedTime).check.status = .pass ↔
      ∃ hex, SignedBy b receipt hex ∧
        (judgeSigned b.crates (keyTrustStatus b files opts hex)
          (asked receipt opts trustedTime hex)).passed = true := by
  unfold signatureCheck SignedBy
  split
  next signature hex hsignature hsigner =>
    simp only [hsignature, hsigner, Option.some.injEq]
    split
    next err hbytes => simp [hbytes, refused]
    next bytes hbytes =>
      simp only [hbytes, Except.ok.injEq]
      split
      next err hverify => simp [hverify, refused]
      next hverify => simp [hverify, refused]
      next hverify => simp [hverify, judged, asked]
  next hunsigned =>
    simp only [refused, reduceCtorEq, false_iff]
    rintro ⟨hex, ⟨signature, bytes, hsignature, hsigner, -⟩, -⟩
    exact hunsigned signature hex hsignature hsigner

/-- The signature check passes or fails; it is never skipped. -/
theorem signatureCheck_fail_iff :
    (signatureCheck b files receipt opts trustedTime).check.status = .fail ↔
      ¬ (signatureCheck b files receipt opts trustedTime).check.status = .pass := by
  unfold signatureCheck
  split
  next =>
    split
    next => simp [refused]
    next =>
      split
      next => simp [refused]
      next => simp [refused]
      next =>
        simp only [judged]
        split
        next => simp
        next => simp
  next => simp [refused]

end Check

/-! ### What a trust directory says of a key -/

/-- The keys the `.pub` files hold. -/
def held (dir : TrustDir) : Set VerifyingKey :=
  {key | ∃ stem, dir.pubs.lookup stem = some (.file (some key))}

/-- A loose file holds the key, raw or in hex. -/
def LooseHeld (dir : TrustDir) (publicKeyHex : String) : Prop :=
  ∃ name bytes, dir.loose.lookup name = some (.file bytes) ∧
    looseKeyHex bytes = some publicKeyHex

/-- The key as receipts name it. -/
def keyHex (key : VerifyingKey) : String := hexEncode key.bytes.toList

theorem keyHex_injective : Function.Injective keyHex := by
  intro a b h
  have hbytes : a.bytes.toList = b.bytes.toList := hexEncode_injective h
  cases a
  cases b
  simpa [Vector.toList_inj] using hbytes

section Directory
variable {c : Crates}

/-- The key files among a list of entries. -/
def filed (entries : List (Sigma fun _ : String => Node (Option VerifyingKey))) :
    Set VerifyingKey :=
  {key | ∃ stem, (⟨stem, .file (some key)⟩ : Sigma fun _ : String => Node (Option VerifyingKey)) ∈
    entries}

theorem held_eq_filed (dir : TrustDir) : held dir = filed dir.pubs.entries := by
  ext key
  simp only [held, filed, Set.mem_ofPred_eq]
  refine exists_congr fun stem => ?_
  exact AList.mem_lookup_iff

theorem filed_skip {stem : String} {node : Node (Option VerifyingKey)}
    {rest : List (Sigma fun _ : String => Node (Option VerifyingKey))}
    (h : ∀ key, node ≠ .file (some key)) : filed (⟨stem, node⟩ :: rest) = filed rest := by
  ext key
  simp only [filed, Set.mem_ofPred_eq, List.mem_cons]
  refine exists_congr fun stem' => ?_
  refine ⟨?_, Or.inr⟩
  rintro (heq | hmem)
  · cases heq
    exact absurd rfl (h key)
  · exact hmem

theorem filed_cons {stem : String} {key : VerifyingKey}
    {rest : List (Sigma fun _ : String => Node (Option VerifyingKey))} :
    filed (⟨stem, .file (some key)⟩ :: rest) = insert key (filed rest) := by
  ext key'
  simp only [filed, Set.mem_ofPred_eq, Set.mem_insert_iff, List.mem_cons]
  constructor
  · rintro ⟨stem', heq | hmem⟩
    · cases heq
      exact .inl rfl
    · exact .inr ⟨stem', hmem⟩
  · rintro (rfl | ⟨stem', hmem⟩)
    · exact ⟨stem, .inl rfl⟩
    · exact ⟨stem', .inr hmem⟩

/-- With key ids that tell the files' keys apart, an id is managed by its own key, or as before
the files when none of them has it. -/
theorem managedKeys_lookup_iff
    {entries : List (Sigma fun _ : String => Node (Option VerifyingKey))}
    {keys managed : AList (fun _ : String => String)} (h : managedKeys c keys entries = .ok managed)
    (hfree : Set.InjOn (keyId c) (filed entries)) {id hex : String} :
    managed.lookup id = some hex ↔
      (∃ key ∈ filed entries, keyId c key = id ∧ keyHex key = hex) ∨
        (∀ key ∈ filed entries, keyId c key ≠ id) ∧ keys.lookup id = some hex := by
  induction keys, entries using managedKeys.induct (c := c) with
  | case1 keys =>
    cases h
    simp [filed]
  | case2 keys stem rest ih =>
    rw [filed_skip (by simp)] at hfree ⊢
    exact ih h hfree
  | case3 keys stem rest => cases h
  | case4 keys stem rest ih =>
    rw [filed_skip (by simp)] at hfree ⊢
    exact ih h hfree
  | case5 keys stem key rest ih =>
    rw [filed_cons] at hfree ⊢
    rw [ih h (hfree.mono (Set.subset_insert _ _))]
    by_cases hid : keyId c key = id
    · -- the key inserted here stands unless a later file has its id, and then it is the same key
      have hinsert : (keys.insert (keyId c key) (hexEncode key.bytes.toList)).lookup id =
          some (keyHex key) := by
        rw [hid]
        exact AList.lookup_insert _
      rw [hinsert]
      constructor
      · rintro (⟨key', hmem, hid', hhex⟩ | ⟨-, hhex⟩)
        · exact .inl ⟨key', .inr hmem, hid', hhex⟩
        · exact .inl ⟨key, .inl rfl, hid, Option.some.inj hhex⟩
      · rintro (⟨key', hmem, hid', hhex⟩ | ⟨hnone, -⟩)
        · have hsame : key' = key := hfree hmem (.inl rfl) (hid'.trans hid.symm)
          subst hsame
          by_cases hrest : ∃ other ∈ filed rest, keyId c other = id
          · obtain ⟨other, hother, hoid⟩ := hrest
            have hsame : other = key' := hfree (.inr hother) (.inl rfl) (hoid.trans hid.symm)
            exact .inl ⟨other, hother, hoid, by rw [hsame, hhex]⟩
          · refine .inr ⟨?_, by rw [hhex]⟩
            intro other hother hoid
            exact hrest ⟨other, hother, hoid⟩
        · exact absurd hid (hnone key (.inl rfl))
    · rw [AList.lookup_insert_ne (Ne.symm hid)]
      constructor
      · rintro (⟨key', hmem, hid', hhex⟩ | ⟨hnone, hkeys⟩)
        · exact .inl ⟨key', .inr hmem, hid', hhex⟩
        · refine .inr ⟨?_, hkeys⟩
          rintro key' (rfl | hmem)
          · exact hid
          · exact hnone key' hmem
      · rintro (⟨key', rfl | hmem, hid', hhex⟩ | ⟨hnone, hkeys⟩)
        · exact absurd hid' hid
        · exact .inl ⟨key', hmem, hid', hhex⟩
        · exact .inr ⟨fun key' hmem => hnone key' (.inr hmem), hkeys⟩

/-- The managed keys are the held ones, each under its id. -/
theorem trustDirPublicKeys_lookup_iff {dir : TrustDir}
    {managed : AList (fun _ : String => String)} (h : trustDirPublicKeys c dir = .ok managed)
    (hfree : Set.InjOn (keyId c) (held dir)) {id hex : String} :
    managed.lookup id = some hex ↔ ∃ key ∈ held dir, keyId c key = id ∧ keyHex key = hex := by
  rw [held_eq_filed] at hfree ⊢
  rw [managedKeys_lookup_iff h hfree]
  simp

theorem looseHolds_true {publicKeyHex : String}
    {entries : List (Sigma fun _ : String => Node Bytes)}
    (h : looseHolds publicKeyHex entries = .ok true) :
    ∃ name bytes, (⟨name, .file bytes⟩ : Sigma fun _ : String => Node Bytes) ∈ entries ∧
      looseKeyHex bytes = some publicKeyHex := by
  induction entries using looseHolds.induct publicKeyHex with
  | case1 => cases h
  | case2 name rest ih =>
    obtain ⟨name', bytes, hmem, hhex⟩ := ih h
    exact ⟨name', bytes, List.mem_cons_of_mem _ hmem, hhex⟩
  | case3 name rest => cases h
  | case4 name bytes rest hhex => exact ⟨name, bytes, List.mem_cons_self, hhex⟩
  | case5 name bytes rest hhex ih =>
    rw [looseHolds, if_neg hhex] at h
    obtain ⟨name', bytes', hmem, hhex'⟩ := ih h
    exact ⟨name', bytes', List.mem_cons_of_mem _ hmem, hhex'⟩

theorem sound_of_load {path : String} {dir : TrustDir} {policy : TrustPolicy}
    (h : TrustPolicy.load c path dir = .ok policy) : Sound c dir.pubs policy.keys := by
  have hempty : Sound c dir.pubs ({} : TrustPolicy).keys := ⟨List.nodup_nil, by simp, by simp⟩
  unfold TrustPolicy.load at h
  simp only at h
  split at h
  · cases h
    exact hempty
  · cases h
    exact hempty
  · cases h
  · cases h
  next stored _ =>
    split at h
    · cases h
    next hcheck =>
      cases h
      exact (checkEntries_ok_iff.mp hcheck).1

/-- An entry is for a key that a `.pub` file holds, when key ids tell the keys apart. -/
theorem held_of_entry {path : String} {dir : TrustDir} {policy : TrustPolicy} {key : VerifyingKey}
    {entry : TrustEntry} (hload : TrustPolicy.load c path dir = .ok policy)
    (hfree : Set.InjOn (keyId c) (insert key (held dir)))
    (hentry : policy.entry (keyId c key) = some entry) : key ∈ held dir := by
  have hmem : entry ∈ policy.keys := List.mem_of_find?_eq_some hentry
  have hid : entry.id = keyId c key := by simpa using List.find?_some hentry
  obtain ⟨key', hfile, hid'⟩ := (sound_of_load hload).backed entry hmem
  have hheld : key' ∈ held dir := ⟨entry.id, hfile⟩
  have hsame : key = key' := hfree (.inl rfl) (.inr hheld) (hid.symm.trans hid'.symm)
  rw [hsame]
  exact hheld

theorem entryTrust_trusted_iff {policy : TrustPolicy} {id : String} :
    entryTrust policy id = .trusted ↔
      ∃ entry, policy.entry id = some entry ∧ entry.status = .trusted := by
  unfold entryTrust
  cases policy.entry id with
  | none => simp
  | some entry => cases hstatus : entry.status <;> simp [hstatus]

theorem entryTrust_revoked_iff {policy : TrustPolicy} {id : String} {revokedAt : DateTime} :
    entryTrust policy id = .revoked revokedAt ↔
      ∃ entry, policy.entry id = some entry ∧ entry.status = .revoked ∧
        entry.revokedAt.getD .minUtc = revokedAt := by
  unfold entryTrust
  cases policy.entry id with
  | none => simp
  | some entry => cases hstatus : entry.status <;> simp [hstatus]

/-- The store can be read: its policy loads, and its key files can be opened. -/
structure Readable (c : Crates) (path : String) (dir : TrustDir) (policy : TrustPolicy) : Prop where
  loads : TrustPolicy.load c path dir = .ok policy
  keys : ∃ managed, trustDirPublicKeys c dir = .ok managed

section Resolved
variable {path : String} {dir : TrustDir} (hfree : Set.InjOn (keyId c) (held dir))
include hfree

/-- A held key is what its entry says. -/
theorem storeTrustStatus_of_held {policy : TrustPolicy} {key : VerifyingKey}
    (hread : Readable c path dir policy) (hkey : key ∈ held dir) :
    storeTrustStatus c path dir (keyHex key) = .ok (entryTrust policy (keyId c key)) := by
  obtain ⟨managed, hmanaged⟩ := hread.keys
  have hlookup : managed.lookup (keyId c key) = some (keyHex key) :=
    (trustDirPublicKeys_lookup_iff hmanaged hfree).mpr ⟨key, hkey, rfl, rfl⟩
  have hfind := (find_managed (trustDirPublicKeys_derive hmanaged)).mpr hlookup
  simp only [storeTrustStatus, hread.loads, hmanaged, bind, Except.bind, hfind]
  rfl

/-- What a directory can say of a key: what the entry of a held key says, or that a loose file
holds it, or nothing. -/
theorem storeTrustStatus_ok {hex : String} {status : KeyTrust}
    (h : storeTrustStatus c path dir hex = .ok status) :
    ∃ policy, Readable c path dir policy ∧
      ((∃ key ∈ held dir, hex = keyHex key ∧ status = entryTrust policy (keyId c key)) ∨
        (∀ key ∈ held dir, keyHex key ≠ hex) ∧
          (status = .trusted ∧ LooseHeld dir hex ∨ status = .unknown)) := by
  simp only [storeTrustStatus, except_bind_eq_ok] at h
  obtain ⟨policy, hload, managed, hmanaged, h⟩ := h
  refine ⟨policy, ⟨hload, managed, hmanaged⟩, ?_⟩
  have hderive := trustDirPublicKeys_derive hmanaged
  cases hfind : managed.entries.find? (fun entry => entry.2 == hex) with
  | some entry =>
    rw [hfind] at h
    obtain ⟨id, found⟩ := entry
    have hfound : found = hex := by simpa using List.find?_some hfind
    subst hfound
    have hlookup := (find_managed hderive).mp hfind
    obtain ⟨key, hkey, rfl, hhex⟩ := (trustDirPublicKeys_lookup_iff hmanaged hfree).mp hlookup
    exact .inl ⟨key, hkey, hhex.symm, (Except.ok.inj h).symm⟩
  | none =>
    rw [hfind] at h
    simp only [except_bind_eq_ok] at h
    obtain ⟨holds, hloose, h⟩ := h
    refine .inr ⟨?_, ?_⟩
    · intro key hkey hhex
      have hlookup : managed.lookup (keyId c key) = some hex :=
        (trustDirPublicKeys_lookup_iff hmanaged hfree).mpr ⟨key, hkey, rfl, hhex⟩
      rw [(find_managed hderive).mpr hlookup] at hfind
      cases hfind
    · cases holds with
      | true =>
        obtain ⟨name, bytes, hmem, hhex⟩ := looseHolds_true hloose
        exact .inl ⟨(Except.ok.inj h).symm, name, bytes, AList.mem_lookup_iff.mpr hmem, hhex⟩
      | false => exact .inr (Except.ok.inj h).symm

end Resolved

end Directory

/-! ### Passing only with trust -/

/-- The time a signature is judged by: the token's, or the receipt's own when that is asked for. -/
def timeUsed (receipt : Receipt) (opts : VerifyOptions) (trustedTime : Option DateTime) :
    Option DateTime :=
  match trustedTime with
  | some attested => some attested
  | none => if opts.trustReceiptTimestamp then some receipt.timestamp else none

theorem signedAt_asked {receipt : Receipt} {opts : VerifyOptions} {trustedTime : Option DateTime}
    {hex : String} :
    (asked receipt opts trustedTime hex).signedAt = timeUsed receipt opts trustedTime := rfl

/-- What the trust in a key can rest on. -/
inductive Grounds (c : Crates) (dir : TrustDir) (policy : TrustPolicy) (time : Option DateTime)
    (publicKeyHex : String) : Prop
  | trusted (key : VerifyingKey) (entry : TrustEntry) (hkey : publicKeyHex = keyHex key)
      (hentry : policy.entry (keyId c key) = some entry) (hstatus : entry.status = .trusted)
  | before (key : VerifyingKey) (entry : TrustEntry) (revokedAt t : DateTime)
      (hkey : publicKeyHex = keyHex key) (hentry : policy.entry (keyId c key) = some entry)
      (hstatus : entry.status = .revoked) (hdate : entry.revokedAt = some revokedAt)
      (htime : time = some t) (hle : t ≤ revokedAt)
  | loose (hpub : ∀ key ∈ held dir, keyHex key ≠ publicKeyHex) (hloose : LooseHeld dir publicKeyHex)

/-- The signature check passes on grounds only, and neither a revoked key nor one without an entry
resolves as trusted, whatever else is in the directory. -/
structure PassesOnlyTrusted (b : Backend) (files : Files) (opts : VerifyOptions) (receipt : Receipt)
    (trustedTime : Option DateTime) (dir : TrustDir) (keys : Set VerifyingKey) : Prop where
  grounded : (signatureCheck b files receipt opts trustedTime).check.status = .pass →
    ∃ hex policy, SignedBy b receipt hex ∧ TrustPolicy.load b.crates opts.store dir = .ok policy ∧
      Grounds b.crates dir policy (timeUsed receipt opts trustedTime) hex
  revoked : ∀ key ∈ keys, ∀ policy entry, TrustPolicy.load b.crates opts.store dir = .ok policy →
    policy.entry (keyId b.crates key) = some entry → entry.status = .revoked →
    keyTrustStatus b files opts (keyHex key) ≠ .ok .trusted
  unlisted : ∀ key ∈ keys, ∀ policy, TrustPolicy.load b.crates opts.store dir = .ok policy →
    key ∈ held dir → policy.entry (keyId b.crates key) = none →
    keyTrustStatus b files opts (keyHex key) ≠ .ok .trusted

/-- The signature verifies, the store can be read, the key's entry is a revocation without a date,
and the time used is the first moment there is. -/
def UndatedAtStart (b : Backend) (opts : VerifyOptions) (receipt : Receipt)
    (trustedTime : Option DateTime) (dir : TrustDir) : Prop :=
  ∃ key policy entry, SignedBy b receipt (keyHex key) ∧ Readable b.crates opts.store dir policy ∧
    policy.entry (keyId b.crates key) = some entry ∧ entry.status = .revoked ∧
    entry.revokedAt = none ∧ timeUsed receipt opts trustedTime = some .minUtc

section Trusted
variable {b : Backend} {files : Files} {opts : VerifyOptions} {receipt : Receipt}
  {trustedTime : Option DateTime} {dir : TrustDir}

theorem keyTrustStatus_of_dir (hdir : files.store opts.store = some dir) (hex : String) :
    keyTrustStatus b files opts hex = storeTrustStatus b.crates opts.store dir hex := by
  rw [keyTrustStatus, hdir]

/-- An entry decides what its key resolves to. -/
theorem keyTrustStatus_of_entry {policy : TrustPolicy} {key : VerifyingKey} {entry : TrustEntry}
    (hdir : files.store opts.store = some dir)
    (hfree : Set.InjOn (keyId b.crates) (insert key (held dir)))
    (hread : Readable b.crates opts.store dir policy)
    (hentry : policy.entry (keyId b.crates key) = some entry) :
    keyTrustStatus b files opts (keyHex key) = .ok (entryTrust policy (keyId b.crates key)) := by
  rw [keyTrustStatus_of_dir hdir]
  exact storeTrustStatus_of_held (hfree.mono (Set.subset_insert _ _)) hread
    (held_of_entry hread.loads hfree hentry)

/-- A key that resolves as trusted and is held has a trusted entry. -/
theorem entry_of_trusted {policy : TrustPolicy} {key : VerifyingKey}
    (hdir : files.store opts.store = some dir) (hfree : Set.InjOn (keyId b.crates) (held dir))
    (hload : TrustPolicy.load b.crates opts.store dir = .ok policy) (hkey : key ∈ held dir)
    (h : keyTrustStatus b files opts (keyHex key) = .ok .trusted) :
    ∃ entry, policy.entry (keyId b.crates key) = some entry ∧ entry.status = .trusted := by
  rw [keyTrustStatus_of_dir hdir] at h
  obtain ⟨policy', hread, ⟨key', -, hhex, hstatus⟩ | ⟨hnone, -⟩⟩ := storeTrustStatus_ok hfree h
  · have hsame := keyHex_injective hhex
    subst hsame
    have hpolicy : policy' = policy := Except.ok.inj (hread.loads.symm.trans hload)
    subst hpolicy
    exact entryTrust_trusted_iff.mp hstatus.symm
  · exact absurd rfl (hnone key hkey)

/-- What passes and is not an undated revocation at the first moment passes on grounds. -/
theorem grounds_of_pass (hdir : files.store opts.store = some dir)
    (hfree : Set.InjOn (keyId b.crates) (held dir))
    (hdated : ¬ UndatedAtStart b opts receipt trustedTime dir)
    (h : (signatureCheck b files receipt opts trustedTime).check.status = .pass) :
    ∃ hex policy, SignedBy b receipt hex ∧ TrustPolicy.load b.crates opts.store dir = .ok policy ∧
      Grounds b.crates dir policy (timeUsed receipt opts trustedTime) hex := by
  obtain ⟨hex, hsigned, hpassed⟩ := signatureCheck_pass_iff.mp h
  rw [keyTrustStatus_of_dir hdir, judgeSigned_passed_iff] at hpassed
  rcases hpassed with htrusted | ⟨revokedAt, t, hrevoked, htime, hle⟩
  · obtain ⟨policy, hread, hcase⟩ := storeTrustStatus_ok hfree htrusted
    refine ⟨hex, policy, hsigned, hread.loads, ?_⟩
    rcases hcase with ⟨key, -, hhex, hstatus⟩ | ⟨hnone, ⟨-, hloose⟩ | hunknown⟩
    · obtain ⟨entry, hentry, hstatus⟩ := entryTrust_trusted_iff.mp hstatus.symm
      exact .trusted key entry hhex hentry hstatus
    · exact .loose hnone hloose
    · cases hunknown
  · obtain ⟨policy, hread, hcase⟩ := storeTrustStatus_ok hfree hrevoked
    refine ⟨hex, policy, hsigned, hread.loads, ?_⟩
    rcases hcase with ⟨key, -, hhex, hstatus⟩ | ⟨-, ⟨htrusted, -⟩ | hunknown⟩
    · obtain ⟨entry, hentry, hstatus, hdate⟩ := entryTrust_revoked_iff.mp hstatus.symm
      rw [signedAt_asked] at htime
      cases hdate' : entry.revokedAt with
      | some d =>
        rw [hdate', Option.getD_some] at hdate
        exact .before key entry d t hhex hentry hstatus hdate' htime (hdate ▸ hle)
      | none =>
        -- no date stands for the first moment, and only that moment is not after it
        rw [hdate', Option.getD_none] at hdate
        have hle' : t ≤ .minUtc := hdate ▸ hle
        have hfirst : t = .minUtc := le_bot_iff.mp hle'
        exact absurd ⟨key, policy, entry, hhex ▸ hsigned, hread, hentry, hstatus, hdate',
          hfirst ▸ htime⟩ hdated
    · cases htrusted
    · cases hunknown

/-- An undated revocation at the first moment passes. -/
theorem pass_of_undatedAtStart (hdir : files.store opts.store = some dir) {key : VerifyingKey}
    {policy : TrustPolicy} {entry : TrustEntry}
    (hfree : Set.InjOn (keyId b.crates) (insert key (held dir)))
    (hsigned : SignedBy b receipt (keyHex key)) (hread : Readable b.crates opts.store dir policy)
    (hentry : policy.entry (keyId b.crates key) = some entry) (hstatus : entry.status = .revoked)
    (hdate : entry.revokedAt = none)
    (htime : timeUsed receipt opts trustedTime = some .minUtc) :
    (signatureCheck b files receipt opts trustedTime).check.status = .pass := by
  refine signatureCheck_pass_iff.mpr ⟨keyHex key, hsigned, judgeSigned_passed_iff.mpr (.inr ?_)⟩
  have hrevoked : entryTrust policy (keyId b.crates key) = .revoked .minUtc :=
    entryTrust_revoked_iff.mpr ⟨entry, hentry, hstatus, by rw [hdate, Option.getD_none]⟩
  refine ⟨.minUtc, .minUtc, ?_, htime, le_rfl⟩
  rw [keyTrustStatus_of_entry hdir hfree hread hentry, hrevoked]

/-- The signer of a receipt is the one key it names. -/
theorem SignedBy.unique {hex hex' : String} (h : SignedBy b receipt hex)
    (h' : SignedBy b receipt hex') : hex = hex' := by
  obtain ⟨-, -, -, hsigner, -⟩ := h
  obtain ⟨-, -, -, hsigner', -⟩ := h'
  exact Option.some.inj (hsigner.symm.trans hsigner')

theorem injOn_insert {keys : Set VerifyingKey}
    (hfree : Set.InjOn (keyId b.crates) (keys ∪ held dir)) {key : VerifyingKey} (hkey : key ∈ keys) :
    Set.InjOn (keyId b.crates) (insert key (held dir)) :=
  hfree.mono (Set.insert_subset (.inl hkey) Set.subset_union_right)

section Keys
variable {keys : Set VerifyingKey} (hdir : files.store opts.store = some dir)
  (hfree : Set.InjOn (keyId b.crates) (keys ∪ held dir))
include hdir hfree

/-- An undated revocation at the first moment passes on no grounds. -/
theorem not_passesOnlyTrusted {key : VerifyingKey} {policy : TrustPolicy} {entry : TrustEntry}
    (hkey : key ∈ keys) (hsigned : SignedBy b receipt (keyHex key))
    (hread : Readable b.crates opts.store dir policy)
    (hentry : policy.entry (keyId b.crates key) = some entry) (hstatus : entry.status = .revoked)
    (hdate : entry.revokedAt = none) (htime : timeUsed receipt opts trustedTime = some .minUtc) :
    ¬ PassesOnlyTrusted b files opts receipt trustedTime dir keys := by
  intro h
  have hinsert := injOn_insert hfree hkey
  obtain ⟨hex, policy', hsigned', hload, hgrounds⟩ := h.grounded
    (pass_of_undatedAtStart hdir hinsert hsigned hread hentry hstatus hdate htime)
  have hpolicy : policy' = policy := Except.ok.inj (hload.symm.trans hread.loads)
  subst hpolicy
  have hhex := hsigned.unique hsigned'
  cases hgrounds with
  | trusted key' entry' hkey' hentry' hstatus' =>
    have hsame := keyHex_injective (hhex.trans hkey')
    subst hsame
    rw [hentry] at hentry'
    cases hentry'
    rw [hstatus] at hstatus'
    cases hstatus'
  | before key' entry' revokedAt t hkey' hentry' _ hdate' _ _ =>
    have hsame := keyHex_injective (hhex.trans hkey')
    subst hsame
    rw [hentry] at hentry'
    cases hentry'
    rw [hdate] at hdate'
    cases hdate'
  | loose hpub _ => exact hpub key (held_of_entry hread.loads hinsert hentry) hhex

/-- **The signature check passes only with trust, except for an undated revocation judged at the
first moment.** Key ids are taken to tell apart the keys of the directory and the keys asked
about. -/
theorem passes_only_trusted_iff
    (hsigner : ∀ key, receipt.signerPublicKey = some (keyHex key) → key ∈ keys) :
    PassesOnlyTrusted b files opts receipt trustedTime dir keys ↔
      ¬ UndatedAtStart b opts receipt trustedTime dir := by
  have hheld : Set.InjOn (keyId b.crates) (held dir) := hfree.mono Set.subset_union_right
  constructor
  · intro h hundated
    obtain ⟨key, policy, entry, hsigned, hread, hentry, hstatus, hdate, htime⟩ := hundated
    have hkey : key ∈ keys := by
      obtain ⟨-, -, -, hnamed, -⟩ := hsigned
      exact hsigner key hnamed
    exact not_passesOnlyTrusted hdir hfree hkey hsigned hread hentry hstatus hdate htime h
  · intro hdated
    refine ⟨grounds_of_pass hdir hheld hdated, ?_, ?_⟩
    · intro key hkey policy entry hload hentry hstatus htrusted
      obtain ⟨entry', hentry', hstatus'⟩ := entry_of_trusted hdir hheld hload
        (held_of_entry hload (injOn_insert hfree hkey) hentry) htrusted
      rw [hentry] at hentry'
      cases hentry'
      rw [hstatus] at hstatus'
      cases hstatus'
    · intro key _ policy hload hkey hnone htrusted
      obtain ⟨entry, hentry, -⟩ := entry_of_trusted hdir hheld hload hkey htrusted
      rw [hnone] at hentry
      cases hentry

end Keys

end Trusted

/-! ### A revocation without a date

The sample receipt is signed by the first sample key, once dated the first of August 2026 and once
dated the first moment there is. -/

def sampleSignature : Vector UInt8 64 :=
  #v[71, 100, 43, 215, 169, 204, 113, 218, 168, 129, 186, 125, 98, 58, 140, 45,
    81, 1, 86, 168, 24, 172, 47, 166, 49, 237, 244, 202, 169, 32, 153, 129,
    61, 176, 60, 114, 193, 71, 46, 114, 137, 105, 201, 189, 127, 229, 200, 63,
    168, 150, 170, 91, 97, 98, 36, 133, 217, 133, 191, 32, 141, 38, 165, 2]

def sampleSignatureAtStart : Vector UInt8 64 :=
  #v[240, 138, 157, 171, 225, 202, 157, 121, 68, 60, 77, 64, 71, 241, 45, 192,
    220, 35, 19, 125, 39, 184, 159, 131, 201, 108, 144, 231, 205, 72, 251, 252,
    91, 106, 111, 10, 201, 197, 29, 11, 94, 191, 212, 207, 117, 217, 66, 184,
    64, 2, 104, 125, 62, 117, 238, 219, 160, 95, 15, 128, 144, 151, 37, 5]

/-- The sample receipt, signed. -/
def sampleSignedReceipt (timestamp : DateTime) (signature : Vector UInt8 64) : Receipt :=
  { sampleReceipt timestamp with
    signature := some (hexEncode signature.toList)
    signerPublicKey := some (keyHex samplePublicA) }

/-- The crates, as they behave on the two signed receipts. -/
def sampleReceiptCrates : Crates :=
  { sampleCrates [] with
    verify := fun key message signature =>
      decide (key = samplePublicA ∧
        (message = utf8 (sampleText sampleDate) ∧ signature = sampleSignature ∨
          message = utf8 (sampleText .minUtc) ∧ signature = sampleSignatureAtStart)) }

def sampleStepYaml (name inputHash outputHash duration : String) : String :=
  "- name: " ++ name ++ "\n  input_hash: " ++ inputHash ++ "\n  output_hash: " ++ outputHash ++
    "\n  duration_secs: " ++ duration ++
    "\n  exit_code: 0\n  cache_hit: false\n  stdout: ''\n  stderr: ''\n"

/-- The file of the sample receipt of the first of August. -/
def sampleYaml : Bytes :=
  utf8 ("schema_version: 3\npipeline_hash: " ++ sampleDigest 'a' ++ "\nsteps:\n" ++
    sampleStepYaml "fetch" (sampleDigest 'b') (sampleDigest 'c') "1" ++
    sampleStepYaml "build" (sampleDigest 'c') (sampleDigest 'b') "2" ++
    "timestamp: 2026-08-01T00:00:00Z\ntotal_duration_secs: 3\nsignature: " ++
    hexEncode sampleSignature.toList ++ "\nsigner_public_key: " ++ keyHex samplePublicA ++
    "\nattest_version: 0.3.1\ncausal_events:\n- " ++ sampleDigest 'e' ++ "\n- " ++
    sampleDigest 'd' ++ "\ncausal_chain_hash: " ++ sampleDigest 'f' ++ "\n")

def sampleBackend : Backend where
  crates := sampleReceiptCrates
  sha256 _ := Vector.replicate 32 0
  receiptJson := sampleJson
  readYaml content :=
    if content = sampleYaml then
      .ok ⟨some 3, .ok (sampleSignedReceipt sampleDate sampleSignature)⟩
    else .error "expected value"
  verifyToken _ _ _ := .error "timestamp authority returned no token"
  recomputeCheck _ _ := ⟨"recompute", .skipped, "not recomputed"⟩

/-- A store with one key and one entry. -/
def sampleStore (entry : TrustEntry) : TrustDir where
  trustToml := some (.file (some ⟨1, [entry]⟩))
  pubs := AList.insert sampleIdA (.file (some samplePublicA)) ∅

def sampleUndated : TrustEntry := ⟨sampleIdA, "authority", .revoked, none⟩

/-- The store at `trust`, and nothing else. -/
def sampleFiles (entry : TrustEntry) : Files where
  store path := if path = "trust" then some (sampleStore entry) else none
  tsaIssuers _ := []
  file _ := none

/-- The store is named, and a receipt's own time is taken. -/
def sampleOptions : VerifyOptions where
  checkSignatures := true
  recompute := false
  workspace := "."
  trustStore := some "trust"
  trustReceiptTimestamp := true
  required := []

theorem verifyWithPublicKey_hex {c : Crates} {key : VerifyingKey} {message : Bytes}
    {signature : Vector UInt8 64} (h : c.pointError key.bytes = none) :
    verifyWithPublicKey c (keyHex key) message (hexEncode signature.toList) =
      .ok (c.verify key message signature) := by
  simp only [verifyWithPublicKey, keyHex, hexDecode_hexEncode, toVector_toList, fromBytes, h]

theorem signedBy_sample {timestamp : DateTime} {signature : Vector UInt8 64}
    (h : timestamp = sampleDate ∧ signature = sampleSignature ∨
      timestamp = .minUtc ∧ signature = sampleSignatureAtStart) :
    SignedBy sampleBackend (sampleSignedReceipt timestamp signature) (keyHex samplePublicA) := by
  refine ⟨hexEncode signature.toList, sampleText timestamp, rfl, rfl, rfl, ?_⟩
  have hverify : sampleReceiptCrates.verify samplePublicA (utf8 (sampleText timestamp)) signature =
      true := by
    simp only [sampleReceiptCrates, decide_eq_true_eq, true_and]
    rcases h with ⟨rfl, rfl⟩ | ⟨rfl, rfl⟩
    · exact .inl ⟨rfl, rfl⟩
    · exact .inr ⟨rfl, rfl⟩
  exact (verifyWithPublicKey_hex (by rfl)).trans (congrArg Except.ok hverify)

theorem held_sampleStore (entry : TrustEntry) : held (sampleStore entry) = {samplePublicA} := by
  have hentries : (sampleStore entry).pubs.entries = [⟨sampleIdA, .file (some samplePublicA)⟩] :=
    AList.entries_insert_of_notMem (AList.notMem_empty _)
  rw [held_eq_filed, hentries, filed_cons]
  simp [filed]

theorem keyId_samplePublicA : keyId sampleReceiptCrates samplePublicA = sampleIdA := by
  decide +kernel

theorem load_sampleStore {c : Crates} {entry : TrustEntry} (hid : keyId c samplePublicA = sampleIdA)
    (h : entry.id = sampleIdA) (path : String) :
    TrustPolicy.load c path (sampleStore entry) = .ok ⟨1, [entry]⟩ := by
  have hwf : wellFormedId sampleIdA = true := by decide +kernel
  have hlookup : (sampleStore entry).pubs.lookup sampleIdA = some (.file (some samplePublicA)) :=
    AList.lookup_insert _
  have hsound : Sound c (sampleStore entry).pubs [entry] := by
    refine ⟨by simp, ?_, ?_⟩
    · intro e he
      rw [List.mem_singleton.mp he, h]
      exact hwf
    · intro e he
      rw [List.mem_singleton.mp he, h]
      exact ⟨samplePublicA, hlookup, hid⟩
  have hcheck : checkEntries c path (sampleStore entry).pubs [] [entry] = .ok () :=
    checkEntries_ok_iff.mpr ⟨hsound, by simp⟩
  simp only [TrustPolicy.load, sampleStore, TrustPolicy.checkAgainst] at hcheck ⊢
  rw [hcheck]

theorem readable_sampleStore {c : Crates} {entry : TrustEntry}
    (hid : keyId c samplePublicA = sampleIdA) (h : entry.id = sampleIdA) (path : String) :
    Readable c path (sampleStore entry) ⟨1, [entry]⟩ :=
  ⟨load_sampleStore hid h path, _, rfl⟩

theorem injOn_sampleStore (entry : TrustEntry) : Set.InjOn (keyId sampleBackend.crates)
    ({samplePublicA} ∪ held (sampleStore entry)) := by
  rw [held_sampleStore, Set.union_self]
  exact Set.injOn_singleton _ _

theorem entry_sampleUndated : TrustPolicy.entry ⟨1, [sampleUndated]⟩
    (keyId sampleBackend.crates samplePublicA) = some sampleUndated := by
  rw [show keyId sampleBackend.crates samplePublicA = sampleIdA from keyId_samplePublicA]
  simp [TrustPolicy.entry, sampleUndated]

theorem passes_only_trusted_sample :
    PassesOnlyTrusted sampleBackend (sampleFiles sampleUndated) sampleOptions
      (sampleSignedReceipt sampleDate sampleSignature) none (sampleStore sampleUndated)
      {samplePublicA} := by
  refine (passes_only_trusted_iff rfl (injOn_sampleStore sampleUndated) ?_).mpr ?_
  · intro key hkey
    exact (keyHex_injective (Option.some.inj hkey)).symm
  · rintro ⟨key, policy, entry, -, -, -, -, -, htime⟩
    have hdate : sampleDate = .minUtc := Option.some.inj htime
    exact absurd hdate (by decide)

/-- A key revoked without a date signs a receipt dated the first moment, and it passes on no
grounds. -/
theorem undated_revocation_passes :
    (signatureCheck sampleBackend (sampleFiles sampleUndated)
      (sampleSignedReceipt .minUtc sampleSignatureAtStart) sampleOptions none).check.status =
        .pass ∧
    ¬ PassesOnlyTrusted sampleBackend (sampleFiles sampleUndated) sampleOptions
      (sampleSignedReceipt .minUtc sampleSignatureAtStart) none (sampleStore sampleUndated)
      {samplePublicA} := by
  have hfree := injOn_sampleStore sampleUndated
  have hread := @readable_sampleStore _ sampleUndated keyId_samplePublicA rfl "trust"
  have hsigned := signedBy_sample (.inr ⟨rfl, rfl⟩)
  refine ⟨?_, ?_⟩
  · exact pass_of_undatedAtStart rfl (injOn_insert hfree rfl) hsigned hread
      entry_sampleUndated rfl rfl rfl
  · exact not_passesOnlyTrusted rfl hfree rfl hsigned hread entry_sampleUndated rfl rfl rfl

end Attest.Verify
