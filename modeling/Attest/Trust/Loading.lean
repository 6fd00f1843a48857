import Attest.Trust.Runs

/-! A store that loads, after an operation.

A policy loads when every entry is backed by a key file of its id. The operations
write the key file first and leave a file that has the name alone, so an entry is
added over whatever file was there: the store loads afterwards exactly when each
such file holds the key its name claims. -/
namespace Attest.Trust
open Library.Fallible

section Sound
variable {c : Crates}

/-! ### Soundness under updates -/

/-- A key file under this name, if there is one, derives to it. -/
def Fits (c : Crates) (pubs : Folder (Option VerifyingKey)) (id : String) : Prop :=
  ∀ node, pubs.lookup id = some node → ∃ key, node = .file (some key) ∧ keyId c key = id

/-- The name has a key file that derives to it. -/
def Backed (c : Crates) (pubs : Folder (Option VerifyingKey)) (id : String) : Prop :=
  ∃ key, pubs.lookup id = some (.file (some key)) ∧ keyId c key = id

theorem lookup_of_grown {ws ws' : Workspace} (h : Grown c ws ws') {id : String}
    {node : Node (Option VerifyingKey)} (hid : ws.trustDir.pubs.lookup id = some node) :
    ws'.trustDir.pubs.lookup id = some node := by
  obtain ⟨new, hentries, -⟩ := h.pubs
  apply AList.mem_lookup_iff.mpr
  rw [hentries]
  exact List.mem_append_right new (AList.mem_lookup_iff.mp hid)

theorem sound_of_grown {ws ws' : Workspace} (h : Grown c ws ws') {entries : List TrustEntry}
    (hsound : Sound c ws.trustDir.pubs entries) : Sound c ws'.trustDir.pubs entries := by
  refine ⟨hsound.nodup, hsound.wellFormed, ?_⟩
  intro e he
  obtain ⟨key, hlookup, hid⟩ := hsound.backed e he
  exact ⟨key, lookup_of_grown h hlookup, hid⟩

/-- Only the ids count. -/
theorem sound_of_ids {pubs : Folder (Option VerifyingKey)} {entries entries' : List TrustEntry}
    (h : entries'.map TrustEntry.id = entries.map TrustEntry.id) (hsound : Sound c pubs entries) :
    Sound c pubs entries' := by
  have hmem : ∀ e' ∈ entries', ∃ e ∈ entries, e.id = e'.id := by
    intro e' he'
    have := List.mem_map_of_mem (f := TrustEntry.id) he'
    rw [h] at this
    exact List.mem_map.mp this
  refine ⟨h ▸ hsound.nodup, ?_, ?_⟩
  · intro e' he'
    obtain ⟨e, he, hid⟩ := hmem e' he'
    exact hid ▸ hsound.wellFormed e he
  · intro e' he'
    obtain ⟨e, he, hid⟩ := hmem e' he'
    exact hid ▸ hsound.backed e he

theorem sound_append {pubs : Folder (Option VerifyingKey)} {entries : List TrustEntry}
    {entry : TrustEntry} (hsound : Sound c pubs entries)
    (hfresh : entries.find? (fun e => e.id == entry.id) = none)
    (hwf : wellFormedId entry.id = true) (hbacked : Backed c pubs entry.id) :
    Sound c pubs (entries ++ [entry]) := by
  refine ⟨?_, ?_, ?_⟩
  · rw [List.map_append, List.nodup_append]
    refine ⟨hsound.nodup, List.nodup_singleton _, ?_⟩
    intro id hid id' hid' heq
    obtain ⟨e, he, rfl⟩ := List.mem_map.mp hid
    have hentry : id' = entry.id := by simpa using hid'
    have := List.find?_eq_none.mp hfresh e he
    simp [heq, hentry] at this
  · intro e he
    rcases List.mem_append.mp he with he | he
    · exact hsound.wellFormed e he
    · rw [List.mem_singleton.mp he]
      exact hwf
  · intro e he
    rcases List.mem_append.mp he with he | he
    · exact hsound.backed e he
    · rw [List.mem_singleton.mp he]
      exact hbacked

theorem sound_mergeKeys {pubs : Folder (Option VerifyingKey)} {keys : List BundledKey}
    (hwf : ∀ key ∈ keys, wellFormedId key.id = true)
    (hdated : ∀ key ∈ keys, key.status = .revoked → key.revokedAt.isSome = true)
    {entries : List TrustEntry} (report : ImportReport) (hsound : Sound c pubs entries)
    (hbacked : ∀ key ∈ keys, standingIn entries key.id = .absent → Backed c pubs key.id) :
    Sound c pubs (mergeKeys entries report keys).1 := by
  induction keys generalizing entries report with
  | nil => exact hsound
  | cons key rest ih =>
    show Sound c pubs (mergeKeys (mergeKey (entries, report) key).1
      (mergeKey (entries, report) key).2 rest).1
    have hstep : Sound c pubs (mergeKey (entries, report) key).1 := by
      rcases @mergeKey_cases entries report key (hdated key List.mem_cons_self) with
        ⟨hnone, hresult⟩ | ⟨_, -, -, hresult⟩ | ⟨_, f, -, -, hf, -, hresult⟩
      · rw [hresult]
        exact sound_append hsound hnone (hwf key List.mem_cons_self)
          (hbacked key List.mem_cons_self (standingIn_eq_absent.mpr hnone))
      · rw [hresult]
        exact hsound
      · rw [hresult]
        exact sound_of_ids (map_id_updateEntry hf entries) hsound
    apply ih (fun k hk => hwf k (List.mem_cons_of_mem key hk))
      (fun k hk => hdated k (List.mem_cons_of_mem key hk)) _ hstep
    intro k hk habsent
    apply hbacked k (List.mem_cons_of_mem key hk)
    -- the step only holds more against a key, so it had no entry before either
    rw [standingIn_mergeKey (hdated key List.mem_cons_self)] at habsent
    apply le_antisymm ?_ (Standing.absent_le _)
    split at habsent
    next => exact le_of_max_le_left (le_of_eq habsent)
    next => exact le_of_eq habsent

theorem loadPolicy_of_grown {ws ws' : Workspace} (h : Grown c ws ws')
    (htoml : ws'.trustDir.trustToml = ws.trustDir.trustToml) {policy : TrustPolicy}
    (hload : loadPolicy c ws = .ok policy) : loadPolicy c ws' = .ok policy := by
  rw [loadPolicy_ok_iff] at hload ⊢
  refine ⟨?_, sound_of_grown h hload.2⟩
  rw [storedPolicy, htoml]
  exact hload.1

theorem loadPolicy_ensurePub {ws : Workspace} {policy : TrustPolicy}
    (hload : loadPolicy c ws = .ok policy) (key : VerifyingKey) :
    loadPolicy c (ensurePub (keyId c key) key (created ws)) = .ok policy := by
  obtain ⟨pubs, hdir⟩ := trustDir_ensurePub (keyId c key) key (created ws)
  exact loadPolicy_of_grown ((grown_created ws).trans (grown_ensurePub _ key)) (by rw [hdir]; rfl) hload

theorem loadPolicy_ensureKeys {ws : Workspace} {policy : TrustPolicy} {keys : List BundledKey}
    (hload : loadPolicy c ws = .ok policy)
    (hderive : ∀ key ∈ keys, keyIdFromHex c key.publicKey = .ok key.id) :
    loadPolicy c (ensureKeys c keys (created ws)) = .ok policy := by
  obtain ⟨pubs, hdir⟩ := trustDir_ensureKeys c keys (created ws)
  exact loadPolicy_of_grown ((grown_created ws).trans (grown_ensureKeys hderive _))
    (by rw [hdir]; rfl) hload

/-- The key file of an id that fits is there once it has been ensured. -/
theorem backed_ensurePub {ws : Workspace} {key : VerifyingKey}
    (hfits : Fits c ws.trustDir.pubs (keyId c key)) :
    Backed c (ensurePub (keyId c key) key ws).trustDir.pubs (keyId c key) := by
  unfold ensurePub
  split
  next h =>
    obtain ⟨node, hnode⟩ := Option.isSome_iff_exists.mp h
    obtain ⟨found, rfl, hid⟩ := hfits node hnode
    exact ⟨found, hnode, hid⟩
  next => exact ⟨key, AList.lookup_insert _, rfl⟩

theorem backed_of_grown {ws ws' : Workspace} (h : Grown c ws ws') {id : String}
    (hbacked : Backed c ws.trustDir.pubs id) : Backed c ws'.trustDir.pubs id := by
  obtain ⟨key, hlookup, hid⟩ := hbacked
  exact ⟨key, lookup_of_grown h hlookup, hid⟩

theorem backed_ensureKeys {ws : Workspace} {keys : List BundledKey}
    (hderive : ∀ key ∈ keys, keyIdFromHex c key.publicKey = .ok key.id) {key : BundledKey}
    (hmem : key ∈ keys) (hfits : Fits c ws.trustDir.pubs key.id) :
    Backed c (ensureKeys c keys ws).trustDir.pubs key.id := by
  induction keys generalizing ws with
  | nil => cases hmem
  | cons first rest ih =>
    have hrest : ∀ k ∈ rest, keyIdFromHex c k.publicKey = .ok k.id :=
      fun k hk => hderive k (List.mem_cons_of_mem first hk)
    obtain ⟨verifyingKey, hkey, hid⟩ :=
      bundledKeyFromHex_of_keyId (hderive first List.mem_cons_self)
    have hstep : ensureBundled c ws first = ensurePub (keyId c verifyingKey) verifyingKey ws := by
      simp only [ensureBundled, hkey, hid]
    show Backed c (ensureKeys c rest (ensureBundled c ws first)).trustDir.pubs key.id
    rw [hstep]
    by_cases hfirst : key.id = first.id
    · apply backed_of_grown (grown_ensureKeys hrest _)
      rw [hfirst, ← hid] at hfits ⊢
      exact backed_ensurePub hfits
    · rcases List.mem_cons.mp hmem with rfl | hmem
      · exact absurd rfl hfirst
      · apply ih hrest hmem
        -- the file of another id is not touched
        intro node hnode
        apply hfits node
        unfold ensurePub at hnode
        split at hnode
        next => exact hnode
        next =>
          rw [← hid] at hfirst
          exact (AList.lookup_insert_ne hfirst).symm.trans hnode

/-! ### Operations that nothing stops -/

theorem reading_load {ws : Workspace} {policy : TrustPolicy} (h : loadPolicy c ws = .ok policy)
    (outcomes : List Outcome) :
    reading (fun w : World => loadPolicy c w.fs) ⟨ws, outcomes⟩ = .ok policy ⟨ws, outcomes⟩ :=
  reading_of_ok h

theorem importKey_run {path name : String} {text : PemText} {key : VerifyingKey}
    (hprivate : text.mentionsPrivate = false) (hkey : text.key = .ok key) {ws : Workspace}
    {policy : TrustPolicy} (hload : loadPolicy c ws = .ok policy)
    (hnone : policy.entry (keyId c key) = none) (hcan : canWrite ws.trustDir.trustToml = true) :
    KeyStore.importKey c path (some (.file text)) name ⟨ws, []⟩ = .ok (keyId c key)
      ⟨putPolicy (policy.withKeys (policy.keys ++ [⟨keyId c key, name, .trusted, none⟩]))
        (ensurePub (keyId c key) key (created ws)), []⟩ := by
  have hread := @reading_load c _ _ (loadPolicy_ensurePub hload key) []
  obtain ⟨pubs, hdir⟩ := trustDir_ensurePub (keyId c key) key (created ws)
  have hsave := @save_run (policy.withKeys (policy.keys ++ [⟨keyId c key, name, .trusted, none⟩]))
    (ensurePub (keyId c key) key (created ws)) (by rw [hdir]; exact hcan)
  have hadd : KeyStore.addEntry policy (keyId c key) name
      ⟨ensurePub (keyId c key) key (created ws), []⟩ = .ok () ⟨putPolicy (policy.withKeys
        (policy.keys ++ [⟨keyId c key, name, .trusted, none⟩]))
        (ensurePub (keyId c key) key (created ws)), []⟩ := by
    unfold KeyStore.addEntry
    rw [hnone]
    exact hsave
  unfold KeyStore.importKey
  rw [bind_of_ok (a := key) (reading_of_ok (by simp [contentOf, hprivate, hkey, mapError_ok])),
    bind_of_ok (createTrustDir_run ws), bind_of_ok (placePub_run _ _ _),
    bind_of_ok hread, bind_of_ok hadd]
  rfl

theorem revoke_run {ws : Workspace} {policy : TrustPolicy} {id : String} {entry : TrustEntry}
    (hload : loadPolicy c ws = .ok policy) (hentry : policy.entry id = some entry)
    (hcan : canWrite ws.trustDir.trustToml = true) (now : DateTime) :
    KeyStore.revoke c id now ⟨ws, []⟩ = .ok true ⟨putPolicy (policy.withKeys
      (updateEntry id (TrustEntry.revokeAt now) policy.keys)) ws, []⟩ := by
  unfold KeyStore.revoke
  rw [bind_of_ok (reading_load hload [])]
  simp only [hentry]
  rw [bind_of_ok (save_run hcan)]
  rfl

theorem record_run {bundle : TrustBundle} {report : ImportReport} {ws : Workspace}
    {policy : TrustPolicy} (hkeys : KeysInOrder c bundle.keys)
    (hload : loadPolicy c ws = .ok policy) (hcan : canWrite ws.trustDir.trustToml = true)
    (hcopy : canWrite (ws.trustDir.bundles.lookup bundle.issuer.keyId) = true) :
    record c bundle report ⟨ws, []⟩ = .ok (mergeKeys policy.keys report bundle.keys).2
      ⟨recorded c bundle report policy ws, []⟩ := by
  have hread := @reading_load c _ _ (loadPolicy_ensureKeys hload hkeys.derive) []
  obtain ⟨pubs, hdir⟩ := trustDir_ensureKeys c bundle.keys (created ws)
  have hdecode : ∀ key ∈ bundle.keys, ∃ k, bundledKeyFromHex c key.publicKey = .ok k := by
    intro key hkey
    obtain ⟨k, hk, -⟩ := bundledKeyFromHex_of_keyId (hkeys.derive key hkey)
    exact ⟨k, hk⟩
  have hsave := @save_run (policy.withKeys (mergeKeys policy.keys report bundle.keys).1)
    (ensureKeys c bundle.keys (created ws)) (by rw [hdir]; exact hcan)
  have hwrite := @writeCopy_run bundle (putPolicy (policy.withKeys
    (mergeKeys policy.keys report bundle.keys).1) (ensureKeys c bundle.keys (created ws)))
    (by
      show canWrite ((ensureKeys c bundle.keys (created ws)).trustDir.bundles.lookup _) = true
      rw [hdir]
      exact hcopy)
  unfold record
  rw [bind_of_ok (createTrustDir_run ws), bind_of_ok (writeKeyFiles_run hdecode _),
    bind_of_ok hread]
  simp only
  rw [bind_of_ok hsave, bind_of_ok (touch_run _), bind_of_ok hwrite]
  rfl

theorem importBundle_run {path : String} {file : Option (Node Bytes)}
    {expectedIssuer : Option String} {now : DateTime} {ws : Workspace} {bundle : TrustBundle}
    {previous : Option TrustBundle} {handoverFrom : Option (String × UInt64)}
    (hjudged : Judged c ws path file expectedIssuer now bundle previous handoverFrom)
    (hcurrent : isCurrent previous bundle = false) (outcomes : List Outcome) :
    importBundle c path file expectedIssuer now ⟨ws, outcomes⟩ =
      record c bundle (emptyReport bundle handoverFrom) ⟨ws, outcomes⟩ := by
  have hread : reading (fun w : World => judge c w.fs path file expectedIssuer now)
      ⟨ws, outcomes⟩ = .ok (bundle, previous, handoverFrom) ⟨ws, outcomes⟩ :=
    reading_of_ok (judge_ok_iff.mpr hjudged)
  unfold importBundle
  rw [bind_of_ok hread]
  simp only [hcurrent]
  rfl

theorem importBundle_current {path : String} {file : Option (Node Bytes)}
    {expectedIssuer : Option String} {now : DateTime} {ws : Workspace} {bundle : TrustBundle}
    {previous : Option TrustBundle} {handoverFrom : Option (String × UInt64)}
    (hjudged : Judged c ws path file expectedIssuer now bundle previous handoverFrom)
    (hcurrent : isCurrent previous bundle = true) (outcomes : List Outcome) :
    importBundle c path file expectedIssuer now ⟨ws, outcomes⟩ =
      .ok { emptyReport bundle handoverFrom with
        alreadyCurrent := true, unchanged := bundle.keys.length } ⟨ws, outcomes⟩ := by
  have hread : reading (fun w : World => judge c w.fs path file expectedIssuer now)
      ⟨ws, outcomes⟩ = .ok (bundle, previous, handoverFrom) ⟨ws, outcomes⟩ :=
    reading_of_ok (judge_ok_iff.mpr hjudged)
  unfold importBundle
  rw [bind_of_ok hread]
  simp only [hcurrent]
  rfl

/-! ### Loading afterwards -/

/-- The ids an operation adds an entry for over a key file that may be there already. -/
def Op.adopts (c : Crates) (ws : Workspace) (policy : TrustPolicy) : Op → List String
  | .importKey _ pem _ =>
    match contentOf pem with
    | some ⟨false, .ok key⟩ =>
      if (policy.entry (keyId c key)).isNone && canWrite ws.trustDir.trustToml then [keyId c key]
      else []
    | _ => []
  | .importBundle path file expectedIssuer now =>
    match judge c ws path file expectedIssuer now with
    | .ok (bundle, previous, _) =>
      if !isCurrent previous bundle && canWrite ws.trustDir.trustToml &&
          canWrite (ws.trustDir.bundles.lookup bundle.issuer.keyId) then
        (bundle.keys.map BundledKey.id).filter fun id => (policy.entry id).isNone
      else []
    | .error _ => []
  | _ => []

/-- A policy that loads after an id was added had the key file of that id in order. -/
theorem fits_of_loads {ws ws' : Workspace} (hgrown : Grown c ws ws') {policy policy' : TrustPolicy}
    (hstored : storedPolicy ws' = some policy) (hload : loadPolicy c ws' = .ok policy')
    (entry : TrustEntry) (hmem : entry ∈ policy.keys) : Fits c ws.trustDir.pubs entry.id := by
  obtain ⟨hstored', hsound⟩ := loadPolicy_ok_iff.mp hload
  rw [hstored] at hstored'
  cases hstored'
  intro node hnode
  obtain ⟨key, hlookup, hid⟩ := hsound.backed entry hmem
  rw [lookup_of_grown hgrown hnode] at hlookup
  cases hlookup
  exact ⟨key, rfl, hid⟩

theorem loadPolicy_putPolicy {policy : TrustPolicy} {ws : Workspace}
    (h : Sound c ws.trustDir.pubs policy.keys) : loadPolicy c (putPolicy policy ws) = .ok policy :=
  loadPolicy_ok_iff.mpr ⟨rfl, h⟩

/-- A policy that loads still does with one of its entries revoked. -/
theorem loadPolicy_revokeAt {ws : Workspace} {policy : TrustPolicy}
    (hload : loadPolicy c ws = .ok policy) (id : String) (now : DateTime) :
    loadPolicy c (putPolicy (policy.withKeys
        (updateEntry id (TrustEntry.revokeAt now) policy.keys)) ws) =
      .ok (policy.withKeys (updateEntry id (TrustEntry.revokeAt now) policy.keys)) := by
  have hkeep : ∀ e, (TrustEntry.revokeAt now e).id = e.id := fun _ => rfl
  exact loadPolicy_putPolicy
    (sound_of_ids (map_id_updateEntry hkeep policy.keys) (loadPolicy_ok_iff.mp hload).2)

theorem generate_loads {key : SigningKey} {name id : String} {w w' : World} {policy : TrustPolicy}
    (hload : loadPolicy c w.fs = .ok policy) (h : KeyStore.generate c key name w = .ok id w') :
    ∃ policy', loadPolicy c w'.fs = .ok policy' := by
  obtain ⟨rfl, -, hfresh, policy', hload', hfs⟩ := generate_ok h
  -- the key file is new, so no entry had its id
  have hnone : policy.entry (keyId c (c.verifyingKey key)) = none := by
    cases hentry : policy.entry (keyId c (c.verifyingKey key)) with
    | none => rfl
    | some entry =>
      have hid : entry.id = keyId c (c.verifyingKey key) := by simpa using List.find?_some hentry
      obtain ⟨_, hlookup, -⟩ :=
        (loadPolicy_ok_iff.mp hload).2.backed entry (List.mem_of_find?_eq_some hentry)
      rw [hid, hfresh] at hlookup
      cases hlookup
  have hsame : policy' = policy := by
    have h' := (loadPolicy_ok_iff.mp hload').1
    exact Option.some.inj (h'.symm.trans (loadPolicy_ok_iff.mp hload).1)
  subst hsame
  rw [hfs]
  exact ⟨_, loadPolicy_putPolicy (sound_append (loadPolicy_ok_iff.mp hload').2 hnone
    (wellFormedId_keyId c _) ⟨c.verifyingKey key, AList.lookup_insert _, rfl⟩)⟩

theorem revoke_loads {id : String} {now : DateTime} {found : Bool} {w w' : World}
    (h : KeyStore.revoke c id now w = .ok found w') : ∃ policy', loadPolicy c w'.fs = .ok policy' := by
  obtain ⟨policy, hload, ⟨-, -, rfl⟩ | ⟨entry, -, -, hfs⟩⟩ := revoke_ok h
  · exact ⟨policy, hload⟩
  · rw [hfs]
    exact ⟨_, loadPolicy_revokeAt hload id now⟩

theorem importKey_loads {path name id : String} {pem : Option (Node PemText)} {w w' : World}
    {policy : TrustPolicy} (hload : loadPolicy c w.fs = .ok policy)
    (h : KeyStore.importKey c path pem name w = .ok id w')
    (hfits : ∀ id ∈ Op.adopts c w.fs policy (.importKey path pem name),
      Fits c w.fs.trustDir.pubs id) : ∃ policy', loadPolicy c w'.fs = .ok policy' := by
  obtain ⟨⟨_, _⟩, key, rfl, rfl, rfl, rfl, policy', hload', hfs⟩ := importKey_ok h
  have hsame := loadPolicy_ensurePub hload key
  rw [hload'] at hsame
  cases hsame
  rcases hfs with ⟨hnone, hcan, hfs⟩ | ⟨-, hfs⟩
  · obtain ⟨pubs, hdir⟩ := trustDir_ensurePub (keyId c key) key (created w.fs)
    rw [hdir] at hcan
    have hcan : canWrite w.fs.trustDir.trustToml = true := hcan
    have hadopts : Fits c w.fs.trustDir.pubs (keyId c key) := by
      apply hfits
      simp only [Op.adopts, contentOf, hnone, Option.isNone_none, Bool.true_and]
      rw [if_pos hcan]
      exact List.mem_singleton_self _
    rw [hfs]
    exact ⟨_, loadPolicy_putPolicy (sound_append (loadPolicy_ok_iff.mp hload').2 hnone
      (wellFormedId_keyId c key) (backed_ensurePub hadopts))⟩
  · rw [hfs]
    exact ⟨policy, hload'⟩

theorem importKey_fits {path name : String} {pem : Option (Node PemText)} {ws : Workspace}
    {policy : TrustPolicy} (hload : loadPolicy c ws = .ok policy)
    (h : ∀ id w', KeyStore.importKey c path pem name ⟨ws, []⟩ = .ok id w' →
      ∃ policy', loadPolicy c w'.fs = .ok policy') :
    ∀ id ∈ Op.adopts c ws policy (.importKey path pem name), Fits c ws.trustDir.pubs id := by
  intro id hid
  simp only [Op.adopts] at hid
  split at hid
  next key hcontent =>
    split at hid
    next hadds =>
      rw [List.mem_singleton.mp hid]
      rw [Bool.and_eq_true, Option.isNone_iff_eq_none] at hadds
      rw [contentOf_eq_some] at hcontent
      subst hcontent
      have hrun := @importKey_run c path name ⟨false, .ok key⟩ key rfl rfl ws policy hload
        hadds.1 hadds.2
      obtain ⟨policy', hload'⟩ := h _ _ hrun
      exact fits_of_loads
        (((grown_created ws).trans (grown_ensurePub _ key)).trans (grown_putPolicy _ _)) rfl hload'
        ⟨keyId c key, name, .trusted, none⟩ (List.mem_append_right _ (List.mem_singleton_self _))
    next => cases hid
  next => cases hid

/-- The ids a bundle adds an entry for, when it is let through and can be recorded. -/
theorem mem_adopts_importBundle {path : String} {file : Option (Node Bytes)}
    {expectedIssuer : Option String} {now : DateTime} {ws : Workspace} {policy : TrustPolicy}
    {id : String} :
    id ∈ Op.adopts c ws policy (.importBundle path file expectedIssuer now) ↔
      ∃ bundle previous handoverFrom,
        Judged c ws path file expectedIssuer now bundle previous handoverFrom ∧
        isCurrent previous bundle = false ∧ canWrite ws.trustDir.trustToml = true ∧
        canWrite (ws.trustDir.bundles.lookup bundle.issuer.keyId) = true ∧
        id ∈ bundle.keys.map BundledKey.id ∧ policy.entry id = none := by
  simp only [Op.adopts]
  cases hjudge : judge c ws path file expectedIssuer now with
  | error e =>
    simp only [List.not_mem_nil, false_iff]
    intro h
    obtain ⟨bundle, previous, handoverFrom, hjudged, -⟩ := h
    rw [judge_ok_iff.mpr hjudged] at hjudge
    cases hjudge
  | ok result =>
    obtain ⟨bundle, previous, handoverFrom⟩ := result
    have hjudged := judge_ok_iff.mp hjudge
    simp only
    refine ⟨?_, ?_⟩
    · intro h
      split at h
      next hcan =>
        simp only [Bool.and_eq_true, Bool.not_eq_true'] at hcan
        obtain ⟨hmem, hnone⟩ := List.mem_filter.mp h
        exact ⟨bundle, previous, handoverFrom, hjudged, hcan.1.1, hcan.1.2, hcan.2, hmem,
          Option.isNone_iff_eq_none.mp hnone⟩
      next => cases h
    · intro h
      obtain ⟨bundle', previous', handoverFrom', hjudged', hcurrent, hcan, hcopy, hmem, hnone⟩ := h
      rw [judge_ok_iff.mpr hjudged'] at hjudge
      cases hjudge
      rw [hcurrent, hcan, hcopy]
      exact List.mem_filter.mpr ⟨hmem, Option.isNone_iff_eq_none.mpr hnone⟩

/-- A recorded bundle loads, when the files under the ids it adds an entry for are in order. -/
theorem loadPolicy_recorded {bundle : TrustBundle} {policy : TrustPolicy} {ws : Workspace}
    (hkeys : KeysInOrder c bundle.keys) (hload : loadPolicy c ws = .ok policy)
    (hfits : ∀ key ∈ bundle.keys, policy.entry key.id = none → Fits c ws.trustDir.pubs key.id)
    (report : ImportReport) : loadPolicy c (recorded c bundle report policy ws) =
      .ok (policy.withKeys (mergeKeys policy.keys report bundle.keys).1) := by
  apply loadPolicy_putPolicy
  have hwf : ∀ key ∈ bundle.keys, wellFormedId key.id = true := by
    intro key hkey
    obtain ⟨k, -, hid⟩ := bundledKeyFromHex_of_keyId (hkeys.derive key hkey)
    rw [← hid]
    exact wellFormedId_keyId c k
  have hload' := loadPolicy_ensureKeys hload hkeys.derive
  apply sound_mergeKeys hwf hkeys.dated _ (loadPolicy_ok_iff.mp hload').2
  intro key hkey habsent
  apply backed_ensureKeys hkeys.derive hkey
  exact hfits key hkey (standingIn_eq_absent.mp habsent)

theorem importBundle_loads {path : String} {file : Option (Node Bytes)}
    {expectedIssuer : Option String} {now : DateTime} {report : ImportReport} {w w' : World}
    {policy : TrustPolicy} (hload : loadPolicy c w.fs = .ok policy)
    (h : importBundle c path file expectedIssuer now w = .ok report w')
    (hfits : ∀ id ∈ Op.adopts c w.fs policy (.importBundle path file expectedIssuer now),
      Fits c w.fs.trustDir.pubs id) : ∃ policy', loadPolicy c w'.fs = .ok policy' := by
  obtain ⟨bundle, previous, handoverFrom, hjudged, hcase⟩ := importBundle_ok h
  have hkeys := (passes_of_failedChecks hjudged.passes).keys
  rcases hcase with ⟨-, rfl, -⟩ | ⟨hcurrent, hrecord⟩
  · exact ⟨policy, hload⟩
  · obtain ⟨policy', hload', -, hfs, hcan, hcopy⟩ := record_ok hrecord
    obtain ⟨pubs, hdir⟩ := trustDir_ensureKeys c bundle.keys (created w.fs)
    rw [hdir] at hcan hcopy
    have hsame := loadPolicy_ensureKeys hload hkeys.derive
    rw [hload'] at hsame
    cases hsame
    rw [hfs]
    refine ⟨_, loadPolicy_recorded hkeys hload ?_ _⟩
    intro key hkey hnone
    exact hfits key.id (mem_adopts_importBundle.mpr ⟨bundle, previous, handoverFrom, hjudged,
      hcurrent, hcan, hcopy, List.mem_map_of_mem hkey, hnone⟩)

/-- A recorded bundle that loads had the key files of its keys in order. -/
theorem fits_of_recorded {bundle : TrustBundle} {report : ImportReport} {policy policy' : TrustPolicy}
    {ws : Workspace} (hkeys : KeysInOrder c bundle.keys)
    (hload : loadPolicy c (recorded c bundle report policy ws) = .ok policy') {key : BundledKey}
    (hmem : key ∈ bundle.keys) : Fits c ws.trustDir.pubs key.id := by
  -- the merge has an entry of this id
  have hlisted : standingIn (mergeKeys policy.keys report bundle.keys).1 key.id ≠ .absent := by
    rw [standingIn_mergeKeys hkeys.nodup hkeys.dated]
    intro habsent
    have hstated : stated bundle.keys key.id = .absent :=
      le_antisymm (le_of_max_le_right (le_of_eq habsent)) (Standing.absent_le _)
    exact stated_eq_absent_iff.mp hstated key hmem rfl
  cases hfind : (mergeKeys policy.keys report bundle.keys).1.find? (fun e => e.id == key.id) with
  | none => exact absurd (standingIn_eq_absent.mpr hfind) hlisted
  | some entry =>
    have hentry : entry.id = key.id := by simpa using List.find?_some hfind
    rw [← hentry]
    exact fits_of_loads (grown_recorded hkeys) rfl hload entry (List.mem_of_find?_eq_some hfind)

theorem importBundle_fits {path : String} {file : Option (Node Bytes)}
    {expectedIssuer : Option String} {now : DateTime} {ws : Workspace} {policy : TrustPolicy}
    (hload : loadPolicy c ws = .ok policy)
    (h : ∀ report w', importBundle c path file expectedIssuer now ⟨ws, []⟩ = .ok report w' →
      ∃ policy', loadPolicy c w'.fs = .ok policy') :
    ∀ id ∈ Op.adopts c ws policy (.importBundle path file expectedIssuer now),
      Fits c ws.trustDir.pubs id := by
  intro id hid
  obtain ⟨bundle, previous, handoverFrom, hjudged, hcurrent, hcan, hcopy, hmem, hnone⟩ :=
    mem_adopts_importBundle.mp hid
  have hkeys := (passes_of_failedChecks hjudged.passes).keys
  have hrun := (importBundle_run hjudged hcurrent []).trans (record_run hkeys hload hcan hcopy)
  obtain ⟨policy', hload'⟩ := h _ _ hrun
  obtain ⟨key, hkey, rfl⟩ := List.mem_map.mp hmem
  exact fits_of_recorded hkeys hload' hkey

/-- **A store that loads still loads after an operation that succeeds, whatever else is in the
directory and whichever calls fail on the way, exactly when every key file that an entry is added
over derives to its name.** -/
theorem loads_after_iff {ws : Workspace} {policy : TrustPolicy}
    (hload : loadPolicy c ws = .ok policy) (op : Op) :
    (∀ outcomes w', op.exec c ⟨ws, outcomes⟩ = .ok () w' →
      ∃ policy', loadPolicy c w'.fs = .ok policy') ↔
    ∀ id ∈ op.adopts c ws policy, Fits c ws.trustDir.pubs id := by
  cases op with
  | generate key name =>
    simp only [Op.adopts, List.not_mem_nil, false_implies, implies_true, iff_true]
    intro outcomes w' h
    obtain ⟨_, _, h, ⟨⟩⟩ := bind_eq_ok.mp h
    exact generate_loads hload h
  | revoke id now =>
    simp only [Op.adopts, List.not_mem_nil, false_implies, implies_true, iff_true]
    intro outcomes w' h
    obtain ⟨_, _, h, ⟨⟩⟩ := bind_eq_ok.mp h
    exact revoke_loads h
  | importKey path pem name =>
    refine ⟨?_, ?_⟩
    · intro h
      apply importKey_fits hload
      intro id w' hrun
      exact h [] w' (bind_eq_ok.mpr ⟨id, w', hrun, rfl⟩)
    · intro hfits outcomes w' h
      obtain ⟨_, _, h, ⟨⟩⟩ := bind_eq_ok.mp h
      exact importKey_loads hload h hfits
  | importBundle path file expectedIssuer now =>
    refine ⟨?_, ?_⟩
    · intro h
      apply importBundle_fits hload
      intro report w' hrun
      exact h [] w' (bind_eq_ok.mpr ⟨report, w', hrun, rfl⟩)
    · intro hfits outcomes w' h
      obtain ⟨_, _, h, ⟨⟩⟩ := bind_eq_ok.mp h
      exact importBundle_loads hload h hfits

end Sound

/-! ### A key file under another's name -/

/-- An empty store, but for a file under the first sample key's name with the second in it. -/
def sampleStray : Workspace :=
  putPub sampleIdA (some samplePublicB) sampleWorld.fs

/-- `attest keys import` of the first sample key. -/
def sampleImport : Op := .importKey "a.pub" (some (.file ⟨false, .ok samplePublicA⟩)) "authority"

theorem loads_after_sample :
    loadPolicy (sampleCrates []) sampleWorld.fs = .ok {} ∧
      ∀ outcomes w', sampleImport.exec (sampleCrates []) ⟨sampleWorld.fs, outcomes⟩ = .ok () w' →
        ∃ policy', loadPolicy (sampleCrates []) w'.fs = .ok policy' := by
  have hload : loadPolicy (sampleCrates []) sampleWorld.fs = .ok {} := by decide +kernel
  refine ⟨hload, (loads_after_iff hload sampleImport).mpr ?_⟩
  intro id hid node hnode
  have hempty : sampleWorld.fs.trustDir.pubs.lookup id = none := rfl
  rw [hempty] at hnode
  cases hnode

/-- The import succeeds over the stray file, and the store does not load any more. -/
theorem stray_key_file_blocks_loading :
    loadPolicy (sampleCrates []) sampleStray = .ok {} ∧
      ∃ w', sampleImport.exec (sampleCrates []) ⟨sampleStray, []⟩ = .ok () w' ∧
        ¬ ∃ policy', loadPolicy (sampleCrates []) w'.fs = .ok policy' := by
  refine ⟨by decide +kernel, final (sampleImport.exec (sampleCrates [])) ⟨sampleStray, []⟩, ?_, ?_⟩
  · have hruns : succeeds (sampleCrates []) ⟨sampleStray, []⟩ [sampleImport] = true := by
      decide +kernel
    exact (trace_play hruns).1
  · intro h
    obtain ⟨policy', hload⟩ := h
    have herror : loadPolicy (sampleCrates [])
        (final (sampleImport.exec (sampleCrates [])) ⟨sampleStray, []⟩).fs =
        .error "inconsistent trust policy ./.attest/trust/trust.toml" := by
      decide +kernel
    rw [herror] at hload
    cases hload

end Attest.Trust
