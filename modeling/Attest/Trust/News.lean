import Attest.Trust.Observers

/-! Whether a merged bundle is news to the readers of a store.

A bundle that is merged adds entries and puts others higher. Where the key files can be
read this is noticed unless the store said of each key what the bundle says: by an entry,
or of a trusted key by a loose file that its new key file takes the place of. Where they
cannot be read there is nothing to notice, as long as the policy still loads; and the
choice of a key to sign with turns on the only private key. -/
namespace Attest.Trust
open Library.Fallible

/-! ### What a standing comes to -/

def trustOf : Standing DateTime → KeyTrust
  | .absent => .unknown
  | .trusted => .trusted
  | .revoked m => .revoked (m.unbotD .minUtc)

theorem entryTrust_eq_trustOf (policy : TrustPolicy) (id : String) :
    entryTrust policy id = trustOf (standingIn policy.keys id) := by
  rw [entryTrust_eq]
  rfl

/-- More held against a key, with a date, is another status. -/
theorem trustOf_ne_of_lt {s : Standing DateTime} {status : KeyStatus} {date : Option DateTime}
    (hdated : status = .revoked → date.isSome = true) (hlt : s < standingOf status date) :
    trustOf (standingOf status date) ≠ trustOf s := by
  cases s with
  | absent =>
    cases status with
    | trusted => simp [standingOf, trustOf]
    | revoked =>
      obtain ⟨t, rfl⟩ := Option.isSome_iff_exists.mp (hdated rfl)
      simp [standingOf, trustOf, moment]
  | trusted =>
    cases status with
    | trusted => exact absurd hlt (lt_irrefl _)
    | revoked =>
      obtain ⟨t, rfl⟩ := Option.isSome_iff_exists.mp (hdated rfl)
      simp [standingOf, trustOf, moment]
  | revoked m =>
    cases status with
    | trusted => exact absurd (Standing.trusted_le_revoked m) (not_le.mpr hlt)
    | revoked =>
      obtain ⟨t, rfl⟩ := Option.isSome_iff_exists.mp (hdated rfl)
      have hnot : ¬ m ≤ (t : WithBot DateTime) := by
        intro hle
        exact absurd (Standing.revoked_le_revoked.mpr hle) (not_le.mpr hlt)
      cases m with
      | bot => exact absurd bot_le hnot
      | coe t' =>
        intro heq
        have hsame : t = t' := by simpa [standingOf, trustOf, moment] using heq
        rw [hsame] at hnot
        exact absurd le_rfl hnot

section Merged
variable {c : Crates} {keys : List BundledKey} (hkeys : KeysInOrder c keys)
  (policy : TrustPolicy) (report : ImportReport)

/-- The policy an import saves. -/
def mergedPolicy (policy : TrustPolicy) (report : ImportReport) (keys : List BundledKey) :
    TrustPolicy := policy.withKeys (mergeKeys policy.keys report keys).1

include hkeys

theorem standingIn_merged (id : String) :
    standingIn (mergedPolicy policy report keys).keys id =
      max (standingIn policy.keys id) (stated keys id) :=
  standingIn_mergeKeys hkeys.nodup hkeys.dated policy.keys report id

theorem stated_cases (id : String) :
    stated keys id = .absent ∨ ∃ key ∈ keys, key.id = id ∧ stated keys id = key.standing := by
  by_cases h : ∃ key ∈ keys, key.id = id
  · obtain ⟨key, hkey, rfl⟩ := h
    exact .inr ⟨key, hkey, rfl, stated_of_mem hkeys.nodup hkey⟩
  · left
    apply stated_eq_absent_iff.mpr
    intro key hkey hid
    exact h ⟨key, hkey, hid⟩

/-- The merge changes what is said of an id exactly when the bundle states more of it. -/
theorem entryTrust_merged_iff (id : String) :
    entryTrust (mergedPolicy policy report keys) id = entryTrust policy id ↔
      stated keys id ≤ standingIn policy.keys id := by
  rw [entryTrust_eq_trustOf, entryTrust_eq_trustOf, standingIn_merged hkeys]
  refine ⟨?_, ?_⟩
  · intro heq
    by_contra hnot
    have hlt := lt_of_not_ge hnot
    rw [max_eq_right hlt.le] at heq
    rcases stated_cases hkeys id with habsent | ⟨key, hkey, rfl, hstated⟩
    · rw [habsent] at hnot
      exact hnot (Standing.absent_le _)
    · rw [hstated] at heq hlt
      exact trustOf_ne_of_lt (hkeys.dated key hkey) hlt heq
  · intro hle
    rw [max_eq_left hle]

end Merged

/-! ### The key files of a bundle -/

section Missing
variable {c : Crates}

/-- The keys of a bundle that have no file yet. -/
def missingKeys (c : Crates) (ws : Workspace) (keys : List BundledKey) : List VerifyingKey :=
  keys.filterMap fun key =>
    if (ws.trustDir.pubs.lookup key.id).isNone then (bundledKeyFromHex c key.publicKey).toOption
    else none

theorem mem_missingKeys {ws : Workspace} {keys : List BundledKey} {verifyingKey : VerifyingKey} :
    verifyingKey ∈ missingKeys c ws keys ↔ ∃ key ∈ keys,
      ws.trustDir.pubs.lookup key.id = none ∧ bundledKeyFromHex c key.publicKey = .ok verifyingKey := by
  unfold missingKeys
  rw [List.mem_filterMap]
  refine exists_congr fun key => and_congr_right fun _ => ?_
  cases hnode : ws.trustDir.pubs.lookup key.id with
  | some node => simp
  | none =>
    cases bundledKeyFromHex c key.publicKey with
    | error e => simp [Except.toOption]
    | ok found => simp [Except.toOption]

theorem lookup_putPub_ne {ws : Workspace} {id stem : String} (h : stem ≠ id)
    (content : Option VerifyingKey) :
    (putPub id content ws).trustDir.pubs.lookup stem = ws.trustDir.pubs.lookup stem :=
  AList.lookup_insert_ne h

/-- A key file changes nothing for keys of other ids. -/
theorem missingKeys_putPub {ws : Workspace} {id : String} {keys : List BundledKey}
    (h : ∀ key ∈ keys, key.id ≠ id) (content : Option VerifyingKey) :
    missingKeys c (putPub id content ws) keys = missingKeys c ws keys := by
  unfold missingKeys
  apply List.filterMap_congr
  intro key hkey
  rw [lookup_putPub_ne (h key hkey)]

theorem adds_refl {ws : Workspace} (hpresent : ws.trust = some ws.trustDir) : Adds c ws ws [] := by
  have hsame : created ws = ws := by
    rw [created, Workspace.setTrust, ← hpresent]
  have h := @adds_created c ws
  rw [hsame] at h
  exact h

/-- The first key of a bundle is missing, or has a file. -/
theorem missingKeys_cons {ws : Workspace} {key : BundledKey} {keys : List BundledKey}
    {verifyingKey : VerifyingKey} (hkey : bundledKeyFromHex c key.publicKey = .ok verifyingKey) :
    missingKeys c ws (key :: keys) =
      if (ws.trustDir.pubs.lookup key.id).isNone then verifyingKey :: missingKeys c ws keys
      else missingKeys c ws keys := by
  unfold missingKeys
  rw [List.filterMap_cons, hkey]
  cases ws.trustDir.pubs.lookup key.id with
  | none => rfl
  | some node => rfl

theorem ids_ne_of_nodup {key : BundledKey} {keys : List BundledKey}
    (h : ((key :: keys).map BundledKey.id).Nodup) : ∀ k ∈ keys, k.id ≠ key.id := by
  rw [List.map_cons, List.nodup_cons] at h
  intro k hk heq
  exact h.1 (heq ▸ List.mem_map_of_mem hk)

theorem KeysInOrder.tail {key : BundledKey} {keys : List BundledKey}
    (h : KeysInOrder c (key :: keys)) : KeysInOrder c keys := by
  have hnodup := h.nodup
  rw [List.map_cons, List.nodup_cons] at hnodup
  exact ⟨fun k hk => h.derive k (List.mem_cons_of_mem key hk), hnodup.2,
    fun k hk => h.dated k (List.mem_cons_of_mem key hk)⟩

/-- Ensuring the key files of a bundle adds the missing ones. -/
theorem adds_ensureKeys {keys : List BundledKey} (hkeys : KeysInOrder c keys) {ws : Workspace}
    (hpresent : ws.trust = some ws.trustDir) :
    Adds c ws (ensureKeys c keys ws) (missingKeys c ws keys) := by
  induction keys generalizing ws with
  | nil => exact adds_refl hpresent
  | cons key rest ih =>
    obtain ⟨verifyingKey, hkey, hid⟩ :=
      bundledKeyFromHex_of_keyId (hkeys.derive key List.mem_cons_self)
    have hstep : ensureBundled c ws key = ensurePub key.id verifyingKey ws := by
      simp only [ensureBundled, hkey]
    show Adds c ws (ensureKeys c rest (ensureBundled c ws key)) _
    rw [hstep, missingKeys_cons hkey]
    unfold ensurePub
    cases hnode : ws.trustDir.pubs.lookup key.id with
    | some node => exact ih hkeys.tail hpresent
    | none =>
      have hfirst : Adds c ws (putPub key.id (some verifyingKey) ws) [verifyingKey] := by
        rw [← hid] at hnode ⊢
        exact adds_putPub hnode
      have hrest := ih hkeys.tail hfirst.present
      rw [missingKeys_putPub (ids_ne_of_nodup hkeys.nodup)] at hrest
      exact hfirst.trans hrest

theorem adds_ensureKeys_created {keys : List BundledKey} (hkeys : KeysInOrder c keys)
    (ws : Workspace) : Adds c ws (ensureKeys c keys (created ws)) (missingKeys c ws keys) := by
  have h := (adds_created ws).trans (@adds_ensureKeys c keys hkeys (created ws) rfl)
  exact h

end Missing

/-! ### A merged bundle -/

/-- The store says of the key what the bundle does: by its entry, or, of a trusted key that has no
entry and no key file, aside. -/
def Told (c : Crates) (ws : Workspace) (policy : TrustPolicy) (managed : Managed)
    (key : BundledKey) : Prop :=
  key.standing ≤ standingIn policy.keys key.id ∨
    key.status = .trusted ∧ ws.trustDir.pubs.lookup key.id = none ∧
      managed.lookup key.id = none ∧ ∃ verifyingKey,
        bundledKeyFromHex c key.publicKey = .ok verifyingKey ∧
        keyTrustStatus c ws (hexEncode verifyingKey.bytes.toList) = .ok .trusted

/-- What is told of the keys of a bundle where the key files can be read; where one cannot, that
the names are free. -/
structure AllTold (c : Crates) (ws : Workspace) (policy : TrustPolicy) (keys : List BundledKey) :
    Prop where
  readable : ∀ managed, trustDirPublicKeys c ws.trustDir = .ok managed →
    ∀ key ∈ keys, Told c ws policy managed key
  unreadable : ∀ e, trustDirPublicKeys c ws.trustDir = .error e →
    ∀ key ∈ keys, Fits c ws.trustDir.pubs key.id

/-- Signing with the id comes to the same: the bundle states no more of it than the policy, or
only another date in the same words. -/
def SameToSign (policy : TrustPolicy) (keys : List BundledKey) (id : String) : Prop :=
  stated keys id ≤ standingIn policy.keys id ∨ ∃ m m', standingIn policy.keys id = .revoked m ∧
    stated keys id = .revoked m' ∧ sinceText m = sinceText m'

/-- Neither reader of the store learns anything from the keys of a bundle. -/
structure NoNews (c : Crates) (ws : Workspace) (policy : TrustPolicy) (keys : List BundledKey) :
    Prop where
  told : AllTold c ws policy keys
  signs : ∀ stem, privateStems ws = [stem] → SameToSign policy keys stem

section Files
variable {c : Crates} {ws : Workspace} {managed : Managed}

/-- The id of a key in a key file is managed. -/
theorem managedKeys_of_mem {entries : List (Sigma fun _ : String => Node (Option VerifyingKey))}
    {keys managed : Managed} (h : managedKeys c keys entries = .ok managed) {id : String}
    (hid : (∃ stem key, ⟨stem, .file (some key)⟩ ∈ entries ∧ keyId c key = id) ∨
      keys.lookup id ≠ none) : managed.lookup id ≠ none := by
  induction keys, entries using managedKeys.induct (c := c) with
  | case1 keys =>
    cases h
    rcases hid with ⟨stem, key, hmem, -⟩ | hid
    · cases hmem
    · exact hid
  | case2 keys stem rest ih =>
    apply ih h
    rcases hid with ⟨stem', key, hmem, hkey⟩ | hid
    · rcases List.mem_cons.mp hmem with heq | hmem
      · cases heq
      · exact .inl ⟨stem', key, hmem, hkey⟩
    · exact .inr hid
  | case3 keys stem rest => cases h
  | case4 keys stem rest ih =>
    apply ih h
    rcases hid with ⟨stem', key, hmem, hkey⟩ | hid
    · rcases List.mem_cons.mp hmem with heq | hmem
      · cases heq
      · exact .inl ⟨stem', key, hmem, hkey⟩
    · exact .inr hid
  | case5 keys stem key rest ih =>
    apply ih h
    by_cases hsame : id = keyId c key
    · right
      rw [hsame, AList.lookup_insert]
      exact Option.some_ne_none _
    · rw [AList.lookup_insert_ne hsame]
      rcases hid with ⟨stem', key', hmem, hkey⟩ | hid
      · rcases List.mem_cons.mp hmem with heq | hmem
        · cases heq
          exact absurd hkey.symm hsame
        · exact .inl ⟨stem', key', hmem, hkey⟩
      · exact .inr hid

theorem managed_of_backed (hmanaged : trustDirPublicKeys c ws.trustDir = .ok managed) {id : String}
    (h : Backed c ws.trustDir.pubs id) : managed.lookup id ≠ none := by
  obtain ⟨key, hlookup, hid⟩ := h
  exact managedKeys_of_mem hmanaged (.inl ⟨id, key, AList.mem_lookup_iff.mp hlookup, hid⟩)

theorem backed_of_standing {policy : TrustPolicy} (hload : loadPolicy c ws = .ok policy)
    {id : String} (h : standingIn policy.keys id ≠ .absent) : Backed c ws.trustDir.pubs id := by
  cases hfind : policy.keys.find? (fun e => e.id == id) with
  | none => exact absurd (standingIn_eq_absent.mpr hfind) h
  | some entry =>
    have hid : entry.id = id := by simpa using List.find?_some hfind
    rw [← hid]
    exact (loadPolicy_ok_iff.mp hload).2.backed entry (List.mem_of_find?_eq_some hfind)

theorem fits_of_backed {pubs : Folder (Option VerifyingKey)} {id : String}
    (h : Backed c pubs id) : Fits c pubs id := by
  obtain ⟨key, hlookup, hid⟩ := h
  intro node hnode
  rw [hlookup] at hnode
  cases hnode
  exact ⟨key, rfl, hid⟩

/-- A name that fits has its key file, or none at all. -/
theorem Fits.cases {pubs : Folder (Option VerifyingKey)} {id : String} (h : Fits c pubs id) :
    pubs.lookup id = none ∨ Backed c pubs id := by
  cases hnode : pubs.lookup id with
  | none => exact .inl rfl
  | some node =>
    obtain ⟨key, rfl, hid⟩ := h node hnode
    exact .inr ⟨key, hnode, hid⟩

theorem Told.fits {policy : TrustPolicy} (hload : loadPolicy c ws = .ok policy) {key : BundledKey}
    (h : Told c ws policy managed key) : Fits c ws.trustDir.pubs key.id := by
  rcases h with hle | ⟨-, hnone, -⟩
  · apply fits_of_backed
    apply backed_of_standing hload
    intro habsent
    rw [habsent] at hle
    exact not_standingOf_le_absent _ _ hle
  · intro node hnode
    rw [hnone] at hnode
    cases hnode

end Files

/-- The store once the merged policy is saved. -/
def saved (c : Crates) (bundle : TrustBundle) (report : ImportReport) (policy : TrustPolicy)
    (ws : Workspace) : Workspace :=
  putPolicy (mergedPolicy policy report bundle.keys) (ensureKeys c bundle.keys (created ws))

section Saved
variable {c : Crates} {ws : Workspace} {bundle : TrustBundle} {policy : TrustPolicy}
  {report : ImportReport} (hkeys : KeysInOrder c bundle.keys) (hload : loadPolicy c ws = .ok policy)
include hkeys hload

/-- The saved policy loads when every key of the bundle finds its name free or its own file. -/
theorem loadPolicy_saved (hfits : ∀ key ∈ bundle.keys, Fits c ws.trustDir.pubs key.id) :
    loadPolicy c (saved c bundle report policy ws) =
      .ok (mergedPolicy policy report bundle.keys) :=
  loadPolicy_recorded hkeys hload (fun key hkey _ => hfits key hkey) report

omit hload in
theorem fits_of_saved {policy' : TrustPolicy}
    (h : loadPolicy c (saved c bundle report policy ws) = .ok policy') :
    ∀ key ∈ bundle.keys, Fits c ws.trustDir.pubs key.id := by
  intro key hkey
  have hrecorded : loadPolicy c (recorded c bundle report policy ws) = .ok policy' := h
  exact fits_of_recorded hkeys hrecorded hkey

omit hkeys hload in
theorem saved_unloadable {e : String}
    (h : loadPolicy c (saved c bundle report policy ws) = .error e) : e.toList.head? = some 'i' :=
  loadPolicy_error_of_stored rfl h

/-- A key of the bundle that has no entry gets the standing the bundle gives it. -/
theorem entryTrust_added {key : BundledKey} (hkey : key ∈ bundle.keys)
    (hnone : ws.trustDir.pubs.lookup key.id = none) :
    entryTrust (mergedPolicy policy report bundle.keys) key.id = trustOf key.standing := by
  have habsent : standingIn policy.keys key.id = .absent := by
    by_contra hne
    obtain ⟨_, hlookup, -⟩ := backed_of_standing hload hne
    rw [hnone] at hlookup
    cases hlookup
  rw [entryTrust_eq_trustOf, standingIn_merged hkeys, habsent, stated_of_mem hkeys.nodup hkey,
    max_eq_right (Standing.absent_le _)]

/-- Where the key files can be read, and a store was there: the merge is noticed unless every key
is told. -/
theorem resolve_saved_iff {managed managed' : Managed} (hpresent : ws.trust = some ws.trustDir)
    (hfits : ∀ key ∈ bundle.keys, Fits c ws.trustDir.pubs key.id)
    (hm : trustDirPublicKeys c ws.trustDir = .ok managed)
    (hm' : trustDirPublicKeys c (ensureKeys c bundle.keys (created ws)).trustDir = .ok managed') :
    (∀ hex, resolve (mergedPolicy policy report bundle.keys) managed' ws.trustDir.loose.entries hex =
      resolve policy managed ws.trustDir.loose.entries hex) ↔
    ∀ key ∈ bundle.keys, Told c ws policy managed key := by
  have hadds := adds_ensureKeys_created hkeys ws
  rw [hadds.resolve_eq_iff hm hm']
  have hderive := trustDirPublicKeys_derive hm
  -- a key that is not managed is spoken of aside
  have haside : ∀ verifyingKey : VerifyingKey, managed.lookup (keyId c verifyingKey) = none →
      keyTrustStatus c ws (hexEncode verifyingKey.bytes.toList) =
        aside ws.trustDir.loose.entries (hexEncode verifyingKey.bytes.toList) := by
    intro verifyingKey hnone
    rw [keyTrustStatus_present hpresent, storeTrustStatus_of_readable hload hm]
    apply resolve_of_unmanaged hderive
    intro id hid
    rw [lookup_derived hderive hid, hid] at hnone
    cases hnone
  refine ⟨?_, ?_⟩
  · rintro ⟨hagree, hnew⟩ key hkey
    by_cases hle : key.standing ≤ standingIn policy.keys key.id
    · exact .inl hle
    right
    have hunmanaged : managed.lookup key.id = none := by
      cases hid : managed.lookup key.id with
      | none => rfl
      | some hex =>
        have hstated := (entryTrust_merged_iff hkeys policy report key.id).mp (hagree key.id hex hid)
        rw [stated_of_mem hkeys.nodup hkey] at hstated
        exact absurd hstated hle
    have hfree : ws.trustDir.pubs.lookup key.id = none := by
      rcases (hfits key hkey).cases with hnone | hbacked
      · exact hnone
      · exact absurd hunmanaged (managed_of_backed hm hbacked)
    obtain ⟨verifyingKey, hdecode, hid⟩ := bundledKeyFromHex_of_keyId (hkeys.derive key hkey)
    have hsaid := hnew verifyingKey (mem_missingKeys.mpr ⟨key, hkey, hfree, hdecode⟩)
      (hid ▸ hunmanaged)
    rw [hid, entryTrust_added hkeys hload hkey hfree] at hsaid
    have htrusted : key.status = .trusted := by
      cases hstatus : key.status with
      | trusted => rfl
      | revoked =>
        simp only [BundledKey.standing, standingOf, hstatus, trustOf] at hsaid
        exact absurd hsaid (aside_ne_revoked _ _ _)
    refine ⟨htrusted, hfree, hunmanaged, verifyingKey, hdecode, ?_⟩
    rw [haside verifyingKey (hid ▸ hunmanaged), hsaid]
    simp only [BundledKey.standing, standingOf, htrusted, trustOf]
  · intro htold
    refine ⟨?_, ?_⟩
    · intro id hex hid
      apply (entryTrust_merged_iff hkeys policy report id).mpr
      rcases stated_cases hkeys id with habsent | ⟨key, hkey, rfl, hstated⟩
      · rw [habsent]
        exact Standing.absent_le _
      · rw [hstated]
        rcases htold key hkey with hle | ⟨-, -, hunmanaged, -⟩
        · exact hle
        · rw [hunmanaged] at hid
          cases hid
    · intro verifyingKey hmissing hunmanaged
      obtain ⟨key, hkey, hfree, hdecode⟩ := mem_missingKeys.mp hmissing
      obtain ⟨verifyingKey', hdecode', hid⟩ :=
        bundledKeyFromHex_of_keyId (hkeys.derive key hkey)
      rw [hdecode] at hdecode'
      cases hdecode'
      rw [hid, entryTrust_added hkeys hload hkey hfree]
      rcases htold key hkey with hle | ⟨htrusted, -, -, found, hfound, hstatus⟩
      · -- an entry would be backed by a file under the free name
        have hne : standingIn policy.keys key.id ≠ .absent := by
          intro habsent
          rw [habsent] at hle
          exact not_standingOf_le_absent _ _ hle
        obtain ⟨_, hlookup, -⟩ := backed_of_standing hload hne
        rw [hfree] at hlookup
        cases hlookup
      · rw [hdecode] at hfound
        cases hfound
        rw [haside verifyingKey hunmanaged] at hstatus
        rw [hstatus]
        simp only [BundledKey.standing, standingOf, htrusted, trustOf]

theorem saved_status_present (hpresent : ws.trust = some ws.trustDir) :
    (∀ hex, keyTrustStatus c (saved c bundle report policy ws) hex = keyTrustStatus c ws hex) ↔
      AllTold c ws policy bundle.keys := by
  have hadds := adds_ensureKeys_created hkeys ws
  have hloads : (∀ hex, keyTrustStatus c (saved c bundle report policy ws) hex =
      keyTrustStatus c ws hex) → ∀ key ∈ bundle.keys, Fits c ws.trustDir.pubs key.id := by
    intro hsame
    cases hload' : loadPolicy c (saved c bundle report policy ws) with
    | ok policy' => exact fits_of_saved hkeys hload'
    | error e =>
      have hstatus := (hsame "").symm
      rw [keyTrustStatus_present hpresent, keyTrustStatus_present rfl,
        storeTrustStatus_of_unloadable hload'] at hstatus
      have hc := storeTrustStatus_error hload hstatus
      rw [saved_unloadable hload'] at hc
      exact absurd hc (by decide)
  have hover := hadds.managed
  cases hm : trustDirPublicKeys c ws.trustDir with
  | error e =>
    rw [hm] at hover
    have hbefore := @storeTrustStatus_of_unreadable c _ _ _ _ hload hm
    refine ⟨?_, ?_⟩
    · intro hsame
      refine ⟨?_, fun _ _ => hloads hsame⟩
      intro managed hmanaged
      rw [hm] at hmanaged
      cases hmanaged
    · intro htold hex
      have hload' := @loadPolicy_saved c ws bundle policy report hkeys hload (htold.unreadable e hm)
      rw [keyTrustStatus_present hpresent, hbefore, keyTrustStatus_present rfl]
      exact storeTrustStatus_of_unreadable hload' hover.error hex
  | ok managed =>
    rw [hm] at hover
    obtain ⟨managed', hm', -⟩ := hover.ok
    have hbefore := @storeTrustStatus_of_readable c _ _ _ _ hload hm
    -- once the policy loads, both readers resolve
    have hresolve : (∀ key ∈ bundle.keys, Fits c ws.trustDir.pubs key.id) → ∀ hex,
        keyTrustStatus c (saved c bundle report policy ws) hex =
          resolve (mergedPolicy policy report bundle.keys) managed' ws.trustDir.loose.entries hex := by
      intro hfits hex
      have hload' := @loadPolicy_saved c ws bundle policy report hkeys hload hfits
      rw [keyTrustStatus_present rfl, ← hadds.loose]
      exact storeTrustStatus_of_readable hload' hm' hex
    refine ⟨?_, ?_⟩
    · intro hsame
      have hfits := hloads hsame
      refine ⟨?_, ?_⟩
      · intro found hfound
        rw [hm] at hfound
        cases hfound
        refine (@resolve_saved_iff c ws bundle policy report hkeys hload managed managed' hpresent hfits hm
          hm').mp ?_
        intro hex
        rw [← hresolve hfits hex, hsame hex, keyTrustStatus_present hpresent, hbefore]
      · intro e he
        rw [hm] at he
        cases he
    · intro htold hex
      have htold := htold.readable managed hm
      have hfits : ∀ key ∈ bundle.keys, Fits c ws.trustDir.pubs key.id :=
        fun key hkey => (htold key hkey).fits hload
      rw [hresolve hfits hex, keyTrustStatus_present hpresent, hbefore]
      exact (resolve_saved_iff hkeys hload hpresent hfits hm hm').mpr htold hex

omit hkeys hload in
/-- The workspace's own key is trusted, and no other is. -/
theorem keyTrustStatus_local (htrust : ws.trust = none) {hex : String}
    (h : keyTrustStatus c ws hex = .ok .trusted) {hex' : String} (hne : hex' ≠ hex) :
    keyTrustStatus c ws hex' = .ok .unknown := by
  unfold keyTrustStatus at h ⊢
  rw [htrust] at h ⊢
  simp only at h ⊢
  split at h
  next hfile =>
    rw [if_pos hfile]
    split at h
    · cases h
    next bytes hcontent =>
      split at h
      next hbytes =>
        rw [if_neg]
        rintro ⟨-, hhex⟩
        exact hne (hhex.symm.trans hbytes.2)
      next => cases h
  next => cases h

omit hkeys hload in
theorem keyTrustStatus_local_ne (htrust : ws.trust = none) (hex : String) (revokedAt : DateTime) :
    keyTrustStatus c ws hex ≠ .ok (.revoked revokedAt) := by
  unfold keyTrustStatus
  rw [htrust]
  simp only
  split
  · split
    · exact nofun
    · split <;> exact nofun
  · exact nofun

/-- Where there was no store the merge is noticed unless the bundle speaks of the workspace's own
key only. -/
theorem saved_status_absent (hvouched : ∃ key, key ∈ bundle.keys) (htrust : ws.trust = none) :
    (∀ hex, keyTrustStatus c (saved c bundle report policy ws) hex = keyTrustStatus c ws hex) ↔
      AllTold c ws policy bundle.keys := by
  have hdir := trustDir_of_none htrust
  have hadds := adds_ensureKeys_created hkeys ws
  have hm : trustDirPublicKeys c ws.trustDir = .ok ∅ := by
    rw [hdir]
    rfl
  have hfree : ∀ id, ws.trustDir.pubs.lookup id = none := by
    intro id
    rw [hdir]
    rfl
  have hover := hadds.managed
  rw [hm] at hover
  obtain ⟨managed', hm', hnew⟩ := hover.ok
  have hload' := @loadPolicy_saved c ws bundle policy report hkeys hload fun key _ node hnode => by
    rw [hfree] at hnode
    cases hnode
  have hderive' := trustDirPublicKeys_derive hm'
  have hafter : ∀ hex, keyTrustStatus c (saved c bundle report policy ws) hex =
      resolve (mergedPolicy policy report bundle.keys) managed' ws.trustDir.loose.entries hex := by
    intro hex
    rw [keyTrustStatus_present rfl, ← hadds.loose]
    exact storeTrustStatus_of_readable hload' hm' hex
  -- each key of the bundle has a new file, and is what the bundle makes it
  have hadded : ∀ key ∈ bundle.keys, ∀ verifyingKey,
      bundledKeyFromHex c key.publicKey = .ok verifyingKey →
      managed'.lookup key.id = some (hexEncode verifyingKey.bytes.toList) ∧
      keyTrustStatus c (saved c bundle report policy ws) (hexEncode verifyingKey.bytes.toList) =
        .ok (trustOf key.standing) := by
    intro key hkey verifyingKey hdecode
    obtain ⟨found, hfound, hid⟩ := bundledKeyFromHex_of_keyId (hkeys.derive key hkey)
    rw [hdecode] at hfound
    cases hfound
    have hlookup : managed'.lookup key.id = some (hexEncode verifyingKey.bytes.toList) := by
      rw [hnew, ← hid]
      exact hadds.hexOf_mem (mem_missingKeys.mpr ⟨key, hkey, hfree _, hdecode⟩)
    refine ⟨hlookup, ?_⟩
    rw [hafter, resolve_of_lookup hderive' hlookup, entryTrust_added hkeys hload hkey (hfree _)]
  refine ⟨?_, ?_⟩
  · intro hsame
    refine ⟨?_, ?_⟩
    · intro managed hmanaged key hkey
      rw [hm] at hmanaged
      cases hmanaged
      obtain ⟨verifyingKey, hdecode, -⟩ := bundledKeyFromHex_of_keyId (hkeys.derive key hkey)
      have hstatus := (hadded key hkey verifyingKey hdecode).2
      rw [hsame] at hstatus
      cases hkeyStatus : key.status with
      | trusted =>
        refine .inr ⟨hkeyStatus, hfree _, AList.lookup_empty _, verifyingKey, hdecode, ?_⟩
        rw [hstatus]
        simp only [BundledKey.standing, standingOf, hkeyStatus, trustOf]
      | revoked =>
        simp only [BundledKey.standing, standingOf, hkeyStatus, trustOf] at hstatus
        exact absurd hstatus (keyTrustStatus_local_ne htrust _ _)
    · intro e he
      rw [hm] at he
      cases he
  · intro htold
    -- every key is the workspace's own, by its file
    have hown : ∀ key ∈ bundle.keys, key.status = .trusted ∧ ∃ verifyingKey,
        bundledKeyFromHex c key.publicKey = .ok verifyingKey ∧
        keyTrustStatus c ws (hexEncode verifyingKey.bytes.toList) = .ok .trusted := by
      intro key hkey
      rcases htold.readable ∅ hm key hkey with hle | ⟨htrusted, -, -, hown⟩
      · have hne : standingIn policy.keys key.id ≠ .absent := by
          intro habsent
          rw [habsent] at hle
          exact not_standingOf_le_absent _ _ hle
        obtain ⟨_, hlookup, -⟩ := backed_of_standing hload hne
        rw [hfree] at hlookup
        cases hlookup
      · exact ⟨htrusted, hown⟩
    obtain ⟨key, hkey⟩ := hvouched
    obtain ⟨htrusted, verifyingKey, hdecode, hstatus⟩ := hown key hkey
    intro hex
    by_cases hhex : hex = hexEncode verifyingKey.bytes.toList
    · rw [hhex, hstatus, (hadded key hkey verifyingKey hdecode).2]
      simp only [BundledKey.standing, standingOf, htrusted, trustOf]
    · rw [keyTrustStatus_local htrust hstatus hhex, hafter, hdir]
      rw [resolve_of_unmanaged hderive']
      · rfl
      intro id hid
      -- the new files hold no other key
      rw [hnew, AList.lookup_empty, Option.none_or] at hid
      obtain ⟨other, hother, -, rfl⟩ := hexOf_eq_some hid
      obtain ⟨key', hkey', -, hdecode'⟩ := mem_missingKeys.mp hother
      obtain ⟨-, found, hfound, hstatus'⟩ := hown key' hkey'
      rw [hdecode'] at hfound
      cases hfound
      rw [keyTrustStatus_local htrust hstatus hhex] at hstatus'
      cases hstatus'

theorem saved_status_iff (hvouched : ∃ key, key ∈ bundle.keys) :
    (∀ hex, keyTrustStatus c (saved c bundle report policy ws) hex = keyTrustStatus c ws hex) ↔
      AllTold c ws policy bundle.keys := by
  cases htrust : ws.trust with
  | none => exact saved_status_absent hkeys hload hvouched htrust
  | some dir =>
    apply saved_status_present hkeys hload
    rw [Workspace.trustDir, htrust]
    rfl

theorem saved_signs_iff (hfits : ∀ key ∈ bundle.keys, Fits c ws.trustDir.pubs key.id) :
    KeyStore.selectSigningKey c (saved c bundle report policy ws) none =
        KeyStore.selectSigningKey c ws none ↔
      ∀ stem, privateStems ws = [stem] → SameToSign policy bundle.keys stem := by
  have hadds := adds_ensureKeys_created hkeys ws
  have hload' := @loadPolicy_saved c ws bundle policy report hkeys hload hfits
  have hkeysSame : (saved c bundle report policy ws).keys = ws.keys := hadds.keys
  have hkeysPath : (saved c bundle report policy ws).keysPath = ws.keysPath := hadds.keysPath
  have hpath : (saved c bundle report policy ws).trustPath = ws.trustPath := hadds.path
  have hauth : ∀ stem, KeyStore.authorizeSigning c (saved c bundle report policy ws) stem =
      authorizeAt ws.trustPath stem
        (max (standingIn policy.keys stem) (stated bundle.keys stem)) := by
    intro stem
    rw [authorizeSigning_of_load hload', hpath, standingIn_merged hkeys]
  refine ⟨?_, ?_⟩
  · intro hsame stem hstem
    have hstem' : privateStems (saved c bundle report policy ws) = [stem] := by
      rw [privateStems, hkeysSame]
      exact hstem
    rw [selectSigningKey_single hstem, selectSigningKey_single hstem', hauth,
      authorizeSigning_of_load hload, keyPath, keyPath, hkeysSame, hkeysPath] at hsame
    have hpem : ∀ e, KeyStore.loadPrivatePem (joinPath ws.keysPath (stem ++ ".key"))
        (ws.keys.lookup stem) = .error e → e.toList.head? ≠ some 'k' := by
      intro e he
      rcases loadPrivatePem_error he with hc | hi
      · rw [hc]
        decide
      · rw [hi]
        decide
    by_cases hle : stated bundle.keys stem ≤ standingIn policy.keys stem
    · exact .inl hle
    rw [max_eq_right (le_of_not_ge hle)] at hsame
    rcases authorizeAt_inj hpem hsame with heq | ⟨m', m, hm', hm, htext⟩
    · exact .inl (le_of_eq heq)
    · exact .inr ⟨m, m', hm, hm', htext.symm⟩
  · intro hsigns
    refine selectSigningKey_congr hkeysSame hkeysPath ?_
    intro stem hstem
    rw [hauth, authorizeSigning_of_load hload]
    rcases hsigns stem hstem with hle | ⟨m, m', hm, hm', htext⟩
    · rw [max_eq_left hle]
    · rw [hm, hm']
      rcases le_total (Standing.revoked m' : Standing DateTime) (.revoked m) with hle | hle
      · rw [max_eq_left hle]
      · rw [max_eq_right hle]
        simp only [authorizeAt, htext]

/-- A merged bundle goes unnoticed exactly when it brings no news: every key is told, and signing
is the same with the only private key there is. -/
theorem saved_unnoticed_iff (hvouched : ∃ key, key ∈ bundle.keys) :
    Unnoticed c ws (saved c bundle report policy ws) ↔ NoNews c ws policy bundle.keys := by
  have hfits : AllTold c ws policy bundle.keys →
      ∀ key ∈ bundle.keys, Fits c ws.trustDir.pubs key.id := by
    intro htold key hkey
    cases hm : trustDirPublicKeys c ws.trustDir with
    | error e => exact htold.unreadable e hm key hkey
    | ok managed => exact (htold.readable managed hm key hkey).fits hload
  refine ⟨?_, ?_⟩
  · rintro ⟨hstatus, hsigns⟩
    have htold := (saved_status_iff hkeys hload hvouched).mp hstatus
    exact ⟨htold, (saved_signs_iff hkeys hload (hfits htold)).mp hsigns⟩
  · rintro ⟨htold, hsigns⟩
    exact ⟨(saved_status_iff hkeys hload hvouched).mpr htold,
      (saved_signs_iff hkeys hload (hfits htold)).mpr hsigns⟩

end Saved

end Attest.Trust
