import Attest.Trust.Loading
import Attest.Trust.Selection

/-! Who notices a change of the files.

Two readers ask a store about keys: `key_trust_status` resolves a public key, and
`select_signing_key` picks the private key to sign with. Each looks at its own files,
so each change of the files (a directory made, a key file added, a policy replaced)
is noticed under conditions of its own, and these are what this module says. -/
namespace Attest.Trust
open Library.Fallible

/-- Every key has the status it had, and the choice of a key to sign with is the same. -/
structure Unnoticed (c : Crates) (ws ws' : Workspace) : Prop where
  status : ∀ publicKeyHex, keyTrustStatus c ws' publicKeyHex = keyTrustStatus c ws publicKeyHex
  signs : KeyStore.selectSigningKey c ws' none = KeyStore.selectSigningKey c ws none

theorem Unnoticed.refl (c : Crates) (ws : Workspace) : Unnoticed c ws ws := ⟨fun _ => rfl, rfl⟩

/-! ### Resolving a key -/

section Resolve
variable {c : Crates}

abbrev Managed := AList (fun _ : String => String)

/-- What is said of a key that no `.pub` file holds. -/
def aside (loose : List (Sigma fun _ : String => Node Bytes)) (publicKeyHex : String) :
    Except String KeyTrust := do
  if ← looseHolds publicKeyHex loose then return .trusted else return .unknown

theorem aside_eq_unknown_iff {loose : List (Sigma fun _ : String => Node Bytes)}
    {publicKeyHex : String} :
    aside loose publicKeyHex = .ok .unknown ↔ looseHolds publicKeyHex loose = .ok false := by
  unfold aside
  cases looseHolds publicKeyHex loose with
  | error e => simp [bind, Except.bind]
  | ok holds => cases holds <;> simp [bind, Except.bind, pure, Except.pure]

/-- No file that is not a `.pub` file revokes. -/
theorem aside_ne_revoked (loose : List (Sigma fun _ : String => Node Bytes))
    (publicKeyHex : String) (revokedAt : DateTime) :
    aside loose publicKeyHex ≠ .ok (.revoked revokedAt) := by
  unfold aside
  cases looseHolds publicKeyHex loose with
  | error e => simp [bind, Except.bind]
  | ok holds => cases holds <;> simp [bind, Except.bind, pure, Except.pure]

/-- What a policy, the managed keys and the loose files make of a key. -/
def resolve (policy : TrustPolicy) (managed : Managed)
    (loose : List (Sigma fun _ : String => Node Bytes)) (publicKeyHex : String) :
    Except String KeyTrust :=
  match managed.entries.find? (fun entry => entry.2 == publicKeyHex) with
  | some ⟨id, _⟩ => .ok (entryTrust policy id)
  | none => aside loose publicKeyHex

theorem storeTrustStatus_of_readable {path : String} {dir : TrustDir} {policy : TrustPolicy}
    {managed : Managed} (hload : TrustPolicy.load c path dir = .ok policy)
    (hmanaged : trustDirPublicKeys c dir = .ok managed) (publicKeyHex : String) :
    storeTrustStatus c path dir publicKeyHex =
      resolve policy managed dir.loose.entries publicKeyHex := by
  simp only [storeTrustStatus, hload, hmanaged, bind, Except.bind, resolve]
  rfl

theorem storeTrustStatus_of_unreadable {path e : String} {dir : TrustDir} {policy : TrustPolicy}
    (hload : TrustPolicy.load c path dir = .ok policy)
    (hmanaged : trustDirPublicKeys c dir = .error e) (publicKeyHex : String) :
    storeTrustStatus c path dir publicKeyHex = .error e := by
  simp only [storeTrustStatus, hload, hmanaged, bind, Except.bind]

theorem storeTrustStatus_of_unloadable {path e : String} {dir : TrustDir}
    (hload : TrustPolicy.load c path dir = .error e) (publicKeyHex : String) :
    storeTrustStatus c path dir publicKeyHex = .error e := by
  simp only [storeTrustStatus, hload, bind, Except.bind]

section Derived
variable {policy : TrustPolicy} {managed : Managed}
  {loose : List (Sigma fun _ : String => Node Bytes)} {publicKeyHex : String}
  (hderive : ∀ e ∈ managed.entries, ∃ key : VerifyingKey,
    e = ⟨keyId c key, hexEncode key.bytes.toList⟩)
include hderive

theorem resolve_of_lookup {id : String} (h : managed.lookup id = some publicKeyHex) :
    resolve policy managed loose publicKeyHex = .ok (entryTrust policy id) := by
  simp only [resolve, (find_managed hderive).mpr h]

theorem resolve_of_unmanaged (h : ∀ id, managed.lookup id ≠ some publicKeyHex) :
    resolve policy managed loose publicKeyHex = aside loose publicKeyHex := by
  unfold resolve
  cases hfind : managed.entries.find? (fun entry => entry.2 == publicKeyHex) with
  | none => rfl
  | some entry =>
    obtain ⟨id, hex⟩ := entry
    have hhex : hex = publicKeyHex := by simpa using List.find?_some hfind
    subst hhex
    exact absurd ((find_managed hderive).mp hfind) (h id)

/-- A key is managed under its own id only. -/
theorem lookup_derived {key : VerifyingKey} {id : String}
    (h : managed.lookup id = some (hexEncode key.bytes.toList)) : keyId c key = id := by
  obtain ⟨key', hkey⟩ := hderive _ (AList.mem_lookup_iff.mp h)
  obtain ⟨rfl, hhex⟩ : id = keyId c key' ∧
      hexEncode key.bytes.toList = hexEncode key'.bytes.toList := by simpa using hkey
  have hbytes := hexEncode_injective hhex
  have hsame : key = key' := by
    cases key
    cases key'
    simpa [Vector.toList_inj] using hbytes
  rw [hsame]

end Derived

end Resolve

/-! ### New key files -/

section Adds
variable {c : Crates}

/-- The hex of the first key with this id. -/
def hexOf (c : Crates) (keys : List VerifyingKey) (id : String) : Option String :=
  keys.findSome? fun key => if keyId c key = id then some (hexEncode key.bytes.toList) else none

/-- The second reading fails as the first does, and has in addition what is in `more`. -/
def Over (more : String → Option String) : Except String Managed → Except String Managed → Prop
  | .ok managed, .ok managed' => ∀ id, managed'.lookup id = (managed.lookup id).or (more id)
  | .error e, .error e' => e' = e
  | _, _ => False

theorem over_managedKeys {more : String → Option String}
    (entries : List (Sigma fun _ : String => Node (Option VerifyingKey))) {keys keys' : Managed}
    (h : ∀ id, keys'.lookup id = (keys.lookup id).or (more id)) :
    Over more (managedKeys c keys entries) (managedKeys c keys' entries) := by
  induction keys, entries using managedKeys.induct (c := c) generalizing keys' with
  | case1 keys => exact h
  | case2 keys stem rest ih => exact ih h
  | case3 keys stem rest => exact rfl
  | case4 keys stem rest ih => exact ih h
  | case5 keys stem key rest ih =>
    apply ih
    intro id
    by_cases hkey : id = keyId c key
    · rw [hkey, AList.lookup_insert, AList.lookup_insert, Option.some_or]
    · rw [AList.lookup_insert_ne hkey, AList.lookup_insert_ne hkey]
      exact h id

theorem Over.ok {more : String → Option String} {managed : Managed} {b : Except String Managed}
    (h : Over more (.ok managed) b) :
    ∃ managed', b = .ok managed' ∧ ∀ id, managed'.lookup id = (managed.lookup id).or (more id) := by
  cases b with
  | error e => exact h.elim
  | ok managed' => exact ⟨managed', rfl, h⟩

theorem Over.error {more : String → Option String} {e : String} {b : Except String Managed}
    (h : Over more (.error e) b) : b = .error e := by
  cases b with
  | error e' => rw [show e' = e from h]
  | ok managed' => exact h.elim

theorem Over.trans {more more' : String → Option String} {a b d : Except String Managed}
    (hab : Over more a b) (hbd : Over more' b d) :
    Over (fun id => (more id).or (more' id)) a d := by
  cases a with
  | error e =>
    rw [hab.error] at hbd
    rw [hbd.error]
    exact rfl
  | ok managed =>
    obtain ⟨managed', rfl, hmore⟩ := hab.ok
    obtain ⟨managed'', rfl, hmore'⟩ := hbd.ok
    intro id
    rw [hmore' id, hmore id, Option.or_assoc]

/-- The directory is there, with key files more than before: these keys, each under its id, and
perhaps one that holds none. -/
structure Adds (c : Crates) (ws ws' : Workspace) (new : List VerifyingKey) : Prop where
  keys : ws'.keys = ws.keys
  keysPath : ws'.keysPath = ws.keysPath
  path : ws'.trustPath = ws.trustPath
  present : ws'.trust = some ws'.trustDir
  toml : ws'.trustDir.trustToml = ws.trustDir.trustToml
  loose : ws'.trustDir.loose = ws.trustDir.loose
  kept : ∀ stem node, ws.trustDir.pubs.lookup stem = some node →
    ws'.trustDir.pubs.lookup stem = some node
  fresh : ∀ key ∈ new, ws.trustDir.pubs.lookup (keyId c key) = none
  held : ∀ key ∈ new, ws'.trustDir.pubs.lookup (keyId c key) = some (.file (some key))
  only : ∀ stem key, ws'.trustDir.pubs.lookup stem = some (.file (some key)) →
    ws.trustDir.pubs.lookup stem = some (.file (some key)) ∨ key ∈ new ∧ keyId c key = stem
  managed : Over (hexOf c new) (trustDirPublicKeys c ws.trustDir) (trustDirPublicKeys c ws'.trustDir)

theorem adds_created (ws : Workspace) : Adds c ws (created ws) [] := by
  refine ⟨rfl, rfl, rfl, rfl, rfl, rfl, fun _ _ h => h, by simp, by simp, fun _ _ h => .inl h, ?_⟩
  apply over_managedKeys
  intro id
  rfl

theorem Adds.trans {ws ws₁ ws₂ : Workspace} {new new' : List VerifyingKey} (h : Adds c ws ws₁ new)
    (h' : Adds c ws₁ ws₂ new') : Adds c ws ws₂ (new ++ new') := by
  refine ⟨h'.keys.trans h.keys, h'.keysPath.trans h.keysPath, h'.path.trans h.path, h'.present,
    h'.toml.trans h.toml, h'.loose.trans h.loose, ?_, ?_, ?_, ?_, ?_⟩
  · intro stem node hnode
    exact h'.kept stem node (h.kept stem node hnode)
  · intro key hkey
    rcases List.mem_append.mp hkey with hkey | hkey
    · exact h.fresh key hkey
    · have hnone := h'.fresh key hkey
      cases hnode : ws.trustDir.pubs.lookup (keyId c key) with
      | none => rfl
      | some node =>
        rw [h.kept _ node hnode] at hnone
        cases hnone
  · intro key hkey
    rcases List.mem_append.mp hkey with hkey | hkey
    · exact h'.kept _ _ (h.held key hkey)
    · exact h'.held key hkey
  · intro stem key hnode
    rcases h'.only stem key hnode with hnode | ⟨hkey, hid⟩
    · rcases h.only stem key hnode with hnode | ⟨hkey, hid⟩
      · exact .inl hnode
      · exact .inr ⟨List.mem_append_left _ hkey, hid⟩
    · exact .inr ⟨List.mem_append_right _ hkey, hid⟩
  · have hover := h.managed.trans h'.managed
    have hsame : (fun id => (hexOf c new id).or (hexOf c new' id)) = hexOf c (new ++ new') := by
      funext id
      rw [hexOf, hexOf, hexOf, List.findSome?_append]
    rw [hsame] at hover
    exact hover

theorem lookup_insert_kept {pubs : Folder (Option VerifyingKey)} {id : String}
    (hfresh : pubs.lookup id = none) (content : Node (Option VerifyingKey)) (stem : String)
    (node : Node (Option VerifyingKey)) (h : pubs.lookup stem = some node) :
    (pubs.insert id content).lookup stem = some node := by
  have hne : stem ≠ id := by
    intro heq
    rw [heq, hfresh] at h
    cases h
  rw [AList.lookup_insert_ne hne, h]

theorem lookup_insert_only {pubs : Folder (Option VerifyingKey)} {id stem : String}
    {content : Option VerifyingKey} {key : VerifyingKey}
    (h : (pubs.insert id (.file content)).lookup stem = some (.file (some key))) :
    pubs.lookup stem = some (.file (some key)) ∨ stem = id ∧ content = some key := by
  by_cases hstem : stem = id
  · rw [hstem, AList.lookup_insert] at h
    cases h
    exact .inr ⟨hstem, rfl⟩
  · rw [AList.lookup_insert_ne hstem] at h
    exact .inl h

theorem adds_putPub {ws : Workspace} {key : VerifyingKey}
    (hfresh : ws.trustDir.pubs.lookup (keyId c key) = none) :
    Adds c ws (putPub (keyId c key) (some key) ws) [key] := by
  refine ⟨rfl, rfl, rfl, rfl, rfl, rfl, lookup_insert_kept hfresh _, by simpa using hfresh, ?_, ?_, ?_⟩
  · intro key' hkey'
    rw [List.mem_singleton.mp hkey']
    exact AList.lookup_insert _
  · intro stem key' hnode
    rcases lookup_insert_only hnode with hnode | ⟨rfl, hkey⟩
    · exact .inl hnode
    · cases hkey
      exact .inr ⟨List.mem_singleton_self _, rfl⟩
  · have hentries : (putPub (keyId c key) (some key) ws).trustDir.pubs.entries =
        ⟨keyId c key, .file (some key)⟩ :: ws.trustDir.pubs.entries :=
      AList.entries_insert_of_notMem (AList.lookup_eq_none.mp hfresh)
    unfold trustDirPublicKeys
    rw [hentries]
    show Over _ (managedKeys c ∅ _) (managedKeys c (AList.insert (keyId c key) _ ∅) _)
    apply over_managedKeys
    intro id
    by_cases hid : id = keyId c key
    · rw [hid, AList.lookup_insert]
      simp [hexOf]
    · rw [AList.lookup_insert_ne hid]
      simp [hexOf, Ne.symm hid]

/-- A torn key file holds none. -/
theorem adds_putPub_none {ws : Workspace} {id : String}
    (hfresh : ws.trustDir.pubs.lookup id = none) : Adds c ws (putPub id none ws) [] := by
  refine ⟨rfl, rfl, rfl, rfl, rfl, rfl, lookup_insert_kept hfresh _, by simp, by simp, ?_, ?_⟩
  · intro stem key hnode
    rcases lookup_insert_only hnode with hnode | ⟨-, hkey⟩
    · exact .inl hnode
    · cases hkey
  have hentries : (putPub id none ws).trustDir.pubs.entries =
      ⟨id, .file none⟩ :: ws.trustDir.pubs.entries :=
    AList.entries_insert_of_notMem (AList.lookup_eq_none.mp hfresh)
  unfold trustDirPublicKeys
  rw [hentries]
  apply over_managedKeys
  intro id
  rfl

theorem hexOf_eq_some {new : List VerifyingKey} {id hex : String} (h : hexOf c new id = some hex) :
    ∃ key ∈ new, keyId c key = id ∧ hexEncode key.bytes.toList = hex := by
  obtain ⟨key, hkey, hsome⟩ := List.exists_of_findSome?_eq_some h
  split at hsome
  next hid => exact ⟨key, hkey, hid, Option.some.inj hsome⟩
  next => cases hsome

variable {ws ws' : Workspace} {new : List VerifyingKey} (h : Adds c ws ws' new)
include h

/-- An id has one new key. -/
theorem Adds.hexOf_mem {key : VerifyingKey} (hkey : key ∈ new) :
    hexOf c new (keyId c key) = some (hexEncode key.bytes.toList) := by
  cases hhex : hexOf c new (keyId c key) with
  | none =>
    have := List.findSome?_eq_none_iff.mp hhex key hkey
    simp at this
  | some hex =>
    obtain ⟨key', hkey', hid, rfl⟩ := hexOf_eq_some hhex
    have hfile := h.held key' hkey'
    rw [hid, h.held key hkey] at hfile
    cases hfile
    rfl

theorem Adds.sound {entries : List TrustEntry} (hsound : Sound c ws.trustDir.pubs entries) :
    Sound c ws'.trustDir.pubs entries := by
  refine ⟨hsound.nodup, hsound.wellFormed, ?_⟩
  intro e he
  obtain ⟨key, hlookup, hid⟩ := hsound.backed e he
  exact ⟨key, h.kept _ _ hlookup, hid⟩

theorem Adds.storedPolicy_eq : storedPolicy ws' = storedPolicy ws := by
  rw [storedPolicy, storedPolicy, h.toml]

theorem Adds.loadPolicy {policy : TrustPolicy} (hload : loadPolicy c ws = .ok policy) :
    Trust.loadPolicy c ws' = .ok policy := by
  rw [loadPolicy_ok_iff] at hload ⊢
  rw [h.storedPolicy_eq]
  exact ⟨hload.1, h.sound hload.2⟩

/-- A policy that does not load still does not, in the same words, or the new key files were all
it lacked. -/
theorem Adds.loadPolicy_error {e e' : String} (hload : Trust.loadPolicy c ws = .error e)
    (hload' : Trust.loadPolicy c ws' = .error e') : e' = e := by
  unfold Trust.loadPolicy TrustPolicy.load at hload hload'
  rw [h.path, h.toml] at hload'
  cases htoml : ws.trustDir.trustToml with
  | none =>
    rw [htoml] at hload
    cases hload
  | some node =>
    rw [htoml] at hload hload'
    cases node with
    | folder => cases hload
    | locked =>
      cases hload
      cases hload'
      rfl
    | file content =>
      cases content with
      | none =>
        cases hload
        cases hload'
        rfl
      | some policy =>
        simp only at hload hload'
        split at hload
        · cases hload
          split at hload'
          · cases hload'
            rfl
          · cases hload'
        · cases hload

/-- No entry has the id of a new key. -/
theorem Adds.standingIn_new {policy : TrustPolicy} (hload : Trust.loadPolicy c ws = .ok policy)
    {key : VerifyingKey} (hkey : key ∈ new) : standingIn policy.keys (keyId c key) = .absent := by
  rw [standingIn_eq_absent]
  cases hfind : policy.keys.find? (fun e => e.id == keyId c key) with
  | none => rfl
  | some entry =>
    have hid : entry.id = keyId c key := by simpa using List.find?_some hfind
    obtain ⟨_, hlookup, -⟩ :=
      (loadPolicy_ok_iff.mp hload).2.backed entry (List.mem_of_find?_eq_some hfind)
    rw [hid, h.fresh key hkey] at hlookup
    cases hlookup

/-- Under another policy and with new key files every key resolves as before exactly when the
policies agree on the ids there were, and say of each new key what was said of it aside. -/
theorem Adds.resolve_eq_iff {policy policy' : TrustPolicy} {managed managed' : Managed}
    (hm : trustDirPublicKeys c ws.trustDir = .ok managed)
    (hm' : trustDirPublicKeys c ws'.trustDir = .ok managed')
    (loose : List (Sigma fun _ : String => Node Bytes)) :
    (∀ hex, resolve policy' managed' loose hex = resolve policy managed loose hex) ↔
      (∀ id hex, managed.lookup id = some hex → entryTrust policy' id = entryTrust policy id) ∧
      ∀ key ∈ new, managed.lookup (keyId c key) = none →
        aside loose (hexEncode key.bytes.toList) = .ok (entryTrust policy' (keyId c key)) := by
  have hover := h.managed
  rw [hm, hm'] at hover
  have hderive := trustDirPublicKeys_derive hm
  have hderive' := trustDirPublicKeys_derive hm'
  have hgrows : ∀ {id hex}, managed.lookup id = some hex → managed'.lookup id = some hex := by
    intro id hex hid
    rw [hover id, hid, Option.some_or]
  have hnew : ∀ {key}, key ∈ new → managed.lookup (keyId c key) = none →
      managed'.lookup (keyId c key) = some (hexEncode key.bytes.toList) := by
    intro key hkey hnone
    rw [hover, hnone, Option.none_or, h.hexOf_mem hkey]
  have hunmanaged : ∀ {key : VerifyingKey}, managed.lookup (keyId c key) = none →
      ∀ id, managed.lookup id ≠ some (hexEncode key.bytes.toList) := by
    intro key hnone id hid
    rw [lookup_derived hderive hid, hid] at hnone
    cases hnone
  refine ⟨?_, ?_⟩
  · intro hsame
    refine ⟨?_, ?_⟩
    · intro id hex hid
      have hhex := hsame hex
      rw [resolve_of_lookup hderive hid, resolve_of_lookup hderive' (hgrows hid)] at hhex
      exact Except.ok.inj hhex
    · intro key hkey hnone
      have hhex := hsame (hexEncode key.bytes.toList)
      rw [resolve_of_lookup hderive' (hnew hkey hnone),
        resolve_of_unmanaged hderive (hunmanaged hnone)] at hhex
      exact hhex.symm
  · rintro ⟨hagree, haside⟩ hex
    by_cases hhad : ∃ id, managed.lookup id = some hex
    · obtain ⟨id, hid⟩ := hhad
      rw [resolve_of_lookup hderive hid, resolve_of_lookup hderive' (hgrows hid), hagree id hex hid]
    have hhad : ∀ id, managed.lookup id ≠ some hex := fun id hid => hhad ⟨id, hid⟩
    rw [resolve_of_unmanaged hderive hhad]
    by_cases hhas : ∃ id, managed'.lookup id = some hex
    · obtain ⟨id, hid⟩ := hhas
      have hid' := hid
      rw [hover id, Option.or_eq_some_iff] at hid'
      rcases hid' with hold | ⟨hnone, hmore⟩
      · exact absurd hold (hhad id)
      · obtain ⟨key, hkey, rfl, rfl⟩ := hexOf_eq_some hmore
        rw [resolve_of_lookup hderive' hid, haside key hkey hnone]
    · rw [resolve_of_unmanaged hderive' fun id hid => hhas ⟨id, hid⟩]

end Adds

/-- With no new key the policy loads as it did. -/
theorem Adds.loadPolicy_nil {c : Crates} {ws ws' : Workspace} (h : Adds c ws ws' []) :
    Trust.loadPolicy c ws' = Trust.loadPolicy c ws := by
  cases hload : Trust.loadPolicy c ws with
  | ok policy => exact h.loadPolicy hload
  | error e =>
    cases hload' : Trust.loadPolicy c ws' with
    | error e' => rw [h.loadPolicy_error hload hload']
    | ok policy =>
      obtain ⟨hstored, hsound⟩ := loadPolicy_ok_iff.mp hload'
      rw [h.storedPolicy_eq] at hstored
      have hold : Trust.loadPolicy c ws = .ok policy := by
        refine loadPolicy_ok_iff.mpr ⟨hstored, hsound.nodup, hsound.wellFormed, ?_⟩
        intro entry hentry
        obtain ⟨key, hlookup, hid⟩ := hsound.backed entry hentry
        rcases h.only _ key hlookup with hlookup | ⟨hnew, -⟩
        · exact ⟨key, hlookup, hid⟩
        · cases hnew
      rw [hold] at hload
      cases hload

/-! ### The directory, and the keys in it -/

/-- Whether `public.key` counts for something where there is no store: it is a raw key, or cannot
be read. -/
def localCounts : Option (Node Bytes) → Bool
  | some (.file bytes) => bytes.length == 32
  | some .locked => true
  | _ => false

/-- The workspace's own key does not lose its place to a new directory. -/
def QuietDir (ws : Workspace) : Prop := ws.trust = none → localCounts ws.localKey = false

/-- A file with this key in it does not make a policy load that did not, and takes no key out of
the loose files. -/
structure QuietKey (c : Crates) (ws : Workspace) (key : VerifyingKey) : Prop where
  unrepaired : ∀ e, loadPolicy c ws = .error e →
    ∃ e', loadPolicy c (putPub (keyId c key) (some key) ws) = .error e'
  unhidden : ∀ policy, loadPolicy c ws = .ok policy → ∀ managed,
    trustDirPublicKeys c ws.trustDir = .ok managed → managed.lookup (keyId c key) = none →
    looseHolds (hexEncode key.bytes.toList) ws.trustDir.loose.entries = .ok false

section Directory
variable {c : Crates} {ws ws' : Workspace} {new : List VerifyingKey}

theorem trustDir_of_none (h : ws.trust = none) : ws.trustDir = {} := by
  rw [Workspace.trustDir, h]
  rfl

theorem keyTrustStatus_present (h : ws.trust = some ws.trustDir) (hex : String) :
    keyTrustStatus c ws hex = storeTrustStatus c ws.trustPath ws.trustDir hex := by
  rw [keyTrustStatus, h]

/-- Where there is no store, no key is known unless the workspace's own counts. -/
theorem localCounts_eq_false_iff (h : ws.trust = none) :
    localCounts ws.localKey = false ↔ ∀ hex, keyTrustStatus c ws hex = .ok .unknown := by
  unfold keyTrustStatus
  rw [h]
  simp only
  cases ws.localKey with
  | none => simp [localCounts, isFile]
  | some node =>
    cases node with
    | folder => simp [localCounts, isFile]
    | locked => simp [localCounts, isFile, contentOf]
    | file bytes =>
      simp only [localCounts, isFile, contentOf, if_true]
      by_cases hlength : bytes.length = 32
      · simp [hlength]
      · simp [hlength]

/-- A store with no policy and no loose file knows no key. -/
theorem storeTrustStatus_bare {path hex : String} {dir : TrustDir} {managed : Managed}
    (htoml : dir.trustToml = none) (hloose : dir.loose = ∅)
    (hmanaged : trustDirPublicKeys c dir = .ok managed) :
    storeTrustStatus c path dir hex = .ok .unknown := by
  have hload : TrustPolicy.load c path dir = .ok {} := by
    unfold TrustPolicy.load
    rw [htoml]
  rw [storeTrustStatus_of_readable hload hmanaged, resolve, hloose]
  split
  · rfl
  · rfl

theorem entryTrust_of_absent {policy : TrustPolicy} {id : String}
    (h : standingIn policy.keys id = .absent) : entryTrust policy id = .unknown := by
  rw [entryTrust, TrustPolicy.entry, standingIn_eq_absent.mp h]

theorem loadPolicy_error_of_stored {policy : TrustPolicy} {e : String}
    (hstored : storedPolicy ws = some policy) (hload : loadPolicy c ws = .error e) :
    e.toList.head? = some 'i' := by
  unfold storedPolicy at hstored
  unfold loadPolicy TrustPolicy.load at hload
  cases htoml : ws.trustDir.trustToml with
  | none =>
    rw [htoml] at hload
    cases hload
  | some node =>
    rw [htoml] at hstored hload
    cases node with
    | folder => cases hload
    | locked => cases hstored
    | file content =>
      cases content with
      | none => cases hstored
      | some policy =>
        simp only at hload
        split at hload
        · cases hload
          exact head_of_append _ _ (by decide)
        · cases hload

theorem managedKeys_error {entries : List (Sigma fun _ : String => Node (Option VerifyingKey))}
    {keys : Managed} {e : String} (h : managedKeys c keys entries = .error e) :
    e.toList.head? = some 'c' := by
  induction keys, entries using managedKeys.induct (c := c) with
  | case1 keys => cases h
  | case2 keys stem rest ih => exact ih h
  | case3 keys stem rest =>
    cases h
    rw [String.append_assoc]
    exact head_of_append _ _ (by decide)
  | case4 keys stem rest ih => exact ih h
  | case5 keys stem key rest ih => exact ih h

theorem looseHolds_error {entries : List (Sigma fun _ : String => Node Bytes)} {hex e : String}
    (h : looseHolds hex entries = .error e) : e.toList.head? = some 'c' := by
  induction entries using looseHolds.induct hex with
  | case1 => cases h
  | case2 name rest ih => exact ih h
  | case3 name rest =>
    cases h
    exact head_of_append _ _ (by decide)
  | case4 name bytes rest hhex =>
    rw [looseHolds, if_pos hhex] at h
    cases h
  | case5 name bytes rest hhex ih =>
    rw [looseHolds, if_neg hhex] at h
    exact ih h

/-- A store whose policy loads fails, if at all, on a file it cannot read. -/
theorem storeTrustStatus_error {path hex e : String} {dir : TrustDir} {policy : TrustPolicy}
    (hload : TrustPolicy.load c path dir = .ok policy)
    (h : storeTrustStatus c path dir hex = .error e) : e.toList.head? = some 'c' := by
  cases hmanaged : trustDirPublicKeys c dir with
  | error e' =>
    rw [storeTrustStatus_of_unreadable hload hmanaged] at h
    cases h
    exact managedKeys_error hmanaged
  | ok managed =>
    rw [storeTrustStatus_of_readable hload hmanaged, resolve] at h
    split at h
    · cases h
    · unfold aside at h
      cases hloose : looseHolds hex dir.loose.entries with
      | error e' =>
        rw [hloose] at h
        cases h
        exact looseHolds_error hloose
      | ok holds =>
        rw [hloose] at h
        cases holds <;> cases h

/-- Where there was no store, new key files alone make no key known. -/
theorem Adds.status_absent (h : Adds c ws ws' new) (htrust : ws.trust = none) :
    (∀ hex, keyTrustStatus c ws' hex = keyTrustStatus c ws hex) ↔
      localCounts ws.localKey = false := by
  have hdir := trustDir_of_none htrust
  have hover := h.managed
  rw [hdir] at hover
  obtain ⟨managed', hmanaged, -⟩ := hover.ok
  have hafter : ∀ hex, keyTrustStatus c ws' hex = .ok .unknown := by
    intro hex
    rw [keyTrustStatus_present h.present]
    refine storeTrustStatus_bare ?_ ?_ hmanaged
    · rw [h.toml, hdir]
    · rw [h.loose, hdir]
  rw [@localCounts_eq_false_iff c ws htrust]
  refine forall_congr' fun hex => ?_
  rw [hafter hex, eq_comm]

section Present
variable (h : Adds c ws ws' new) (hpresent : ws.trust = some ws.trustDir)
include h

theorem Adds.load_eq : TrustPolicy.load c ws.trustPath ws'.trustDir = Trust.loadPolicy c ws' := by
  rw [Trust.loadPolicy, h.path]

include hpresent

/-- A policy that did not load is noticed when it does. -/
theorem Adds.status_unloadable {e : String} (hload : Trust.loadPolicy c ws = .error e) :
    (∀ hex, keyTrustStatus c ws' hex = keyTrustStatus c ws hex) ↔
      ∃ e', Trust.loadPolicy c ws' = .error e' := by
  have hbefore := @storeTrustStatus_of_unloadable c _ _ _ hload
  simp only [keyTrustStatus_present h.present, keyTrustStatus_present hpresent, h.path, hbefore]
  refine ⟨?_, ?_⟩
  · intro hsame
    cases hload' : Trust.loadPolicy c ws' with
    | error e' => exact ⟨e', rfl⟩
    | ok policy =>
      -- the policy says it is inconsistent before, and afterwards nothing says so
      have hstored := (loadPolicy_ok_iff.mp hload').1
      rw [h.storedPolicy_eq] at hstored
      have hi := loadPolicy_error_of_stored hstored hload
      have hc := storeTrustStatus_error (h.load_eq.trans hload') (hsame "")
      rw [hi] at hc
      exact absurd hc (by decide)
  · rintro ⟨e', hload'⟩ hex
    rw [storeTrustStatus_of_unloadable (h.load_eq.trans hload'), h.loadPolicy_error hload hload']

/-- With a policy that loads, a new key file is noticed when it takes a key out of the loose
ones. -/
theorem Adds.status_loadable {policy : TrustPolicy} (hload : Trust.loadPolicy c ws = .ok policy) :
    (∀ hex, keyTrustStatus c ws' hex = keyTrustStatus c ws hex) ↔
      ∀ key ∈ new, ∀ managed, trustDirPublicKeys c ws.trustDir = .ok managed →
        managed.lookup (keyId c key) = none →
        looseHolds (hexEncode key.bytes.toList) ws.trustDir.loose.entries = .ok false := by
  have hload' := h.load_eq.trans (h.loadPolicy hload)
  have hover := h.managed
  simp only [keyTrustStatus_present h.present, keyTrustStatus_present hpresent, h.path]
  cases hm : trustDirPublicKeys c ws.trustDir with
  | error e =>
    rw [hm] at hover
    have hbefore := @storeTrustStatus_of_unreadable c _ _ _ _ hload hm
    have hafter := @storeTrustStatus_of_unreadable c _ _ _ _ hload' hover.error
    simp [hbefore, hafter]
  | ok managed =>
    rw [hm] at hover
    obtain ⟨managed', hm', -⟩ := hover.ok
    have hbefore := @storeTrustStatus_of_readable c _ _ _ _ hload hm
    have hafter := @storeTrustStatus_of_readable c _ _ _ _ hload' hm'
    rw [h.loose] at hafter
    simp only [hbefore, hafter, h.resolve_eq_iff hm hm', implies_true, true_and, Except.ok.injEq,
      forall_eq']
    refine forall₂_congr fun key hkey => ?_
    rw [entryTrust_of_absent (h.standingIn_new hload hkey), aside_eq_unknown_iff]

end Present

/-- What new key files do to the status of keys. -/
theorem Adds.status_iff (h : Adds c ws ws' new) :
    (∀ hex, keyTrustStatus c ws' hex = keyTrustStatus c ws hex) ↔
      QuietDir ws ∧ (∀ e, Trust.loadPolicy c ws = .error e →
        ∃ e', Trust.loadPolicy c ws' = .error e') ∧
      ∀ key ∈ new, ∀ policy, Trust.loadPolicy c ws = .ok policy → ∀ managed,
        trustDirPublicKeys c ws.trustDir = .ok managed → managed.lookup (keyId c key) = none →
        looseHolds (hexEncode key.bytes.toList) ws.trustDir.loose.entries = .ok false := by
  cases htrust : ws.trust with
  | none =>
    have hdir := trustDir_of_none htrust
    have hload : Trust.loadPolicy c ws = .ok {} := by
      rw [Trust.loadPolicy, hdir]
      rfl
    rw [h.status_absent htrust]
    refine ⟨?_, ?_⟩
    · intro hlocal
      refine ⟨fun _ => hlocal, ?_, ?_⟩
      · intro e he
        rw [hload] at he
        cases he
      · intro key _ policy _ managed _ _
        rw [hdir]
        rfl
    · rintro ⟨hquiet, -, -⟩
      exact hquiet htrust
  | some dir =>
    have hpresent : ws.trust = some ws.trustDir := by
      rw [Workspace.trustDir, htrust]
      rfl
    have hquiet : QuietDir ws := by
      intro hnone
      rw [htrust] at hnone
      cases hnone
    cases hload : Trust.loadPolicy c ws with
    | error e =>
      rw [h.status_unloadable hpresent hload]
      simp [hquiet]
    | ok policy =>
      rw [h.status_loadable hpresent hload]
      simp [hquiet]

/-- What new key files do to both readers. -/
theorem Adds.unnoticed_iff (h : Adds c ws ws' new) :
    Unnoticed c ws ws' ↔ ∀ hex, keyTrustStatus c ws' hex = keyTrustStatus c ws hex := by
  refine ⟨Unnoticed.status, ?_⟩
  intro hstatus
  refine ⟨hstatus, selectSigningKey_congr h.keys h.keysPath ?_⟩
  intro stem _
  have hload : Trust.loadPolicy c ws' = Trust.loadPolicy c ws := by
    cases hload : Trust.loadPolicy c ws with
    | ok policy => exact h.loadPolicy hload
    | error e =>
      obtain ⟨e', he'⟩ := (h.status_iff.mp hstatus).2.1 e hload
      rw [he', h.loadPolicy_error hload he']
  rw [KeyStore.authorizeSigning, KeyStore.authorizeSigning, hload, h.path]

end Directory

end Attest.Trust
