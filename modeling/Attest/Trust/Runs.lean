import Attest.Trust.Entries
import Attest.Trust.Specs

/-! Histories of a trust store.

The four operations that change a store, one after another. What a history leaves
in `trust.toml` is told by the standing of each id there; what it leaves of the key
files is that new ones are added, each under the id of the key it holds. -/
namespace Attest.Trust
open Library Library.Fallible

/-- One call, with what it reads from outside the store. -/
inductive Op
  | generate (signingKey : SigningKey) (name : String)
  | importKey (path : String) (pem : Option (Node PemText)) (name : String)
  | revoke (id : String) (now : DateTime)
  | importBundle (path : String) (file : Option (Node Bytes)) (expectedIssuer : Option String)
      (now : DateTime)

/-- The call, for what it does to the store. -/
def Op.exec (c : Crates) : Op → Program Unit
  | .generate signingKey name => do
    let _ ← KeyStore.generate c signingKey name
  | .importKey path pem name => do
    let _ ← KeyStore.importKey c path pem name
  | .revoke id now => do
    let _ ← KeyStore.revoke c id now
  | .importBundle path file expectedIssuer now => do
    let _ ← Trust.importBundle c path file expectedIssuer now

/-- Calls that succeed one after another, each with the world it leaves. -/
def Trace (c : Crates) (w : World) : List (Op × World) → Prop
  | [] => True
  | (op, w') :: rest => op.exec c w = .ok () w' ∧ Trace c w' rest

/-- The stores of a history, from the one it starts in. -/
def states (w : World) (trace : List (Op × World)) : List Workspace :=
  w.fs :: trace.map (fun step => step.2.fs)

/-- A history played out, with the world after each call. -/
def play (c : Crates) (w : World) : List Op → List (Op × World)
  | [] => []
  | op :: rest => (op, final (op.exec c) w) :: play c (final (op.exec c) w) rest

/-- Whether every call of a history succeeds. -/
def succeeds (c : Crates) (w : World) : List Op → Bool
  | [] => true
  | op :: rest =>
    match op.exec c w with
    | .ok _ w' => succeeds c w' rest
    | .error _ _ => false

theorem trace_play {c : Crates} {w : World} {ops : List Op} (h : succeeds c w ops = true) :
    Trace c w (play c w ops) := by
  induction ops generalizing w with
  | nil => trivial
  | cons op rest ih =>
    rw [succeeds] at h
    split at h
    next w' hexec =>
      have hfinal := final_of_ok hexec
      refine ⟨?_, ?_⟩
      · rw [hfinal]
        exact hexec
      · rw [hfinal]
        exact ih h
    next => cases h

/-! ### What `trust.toml` holds against a key -/

def standing (ws : Workspace) (id : String) : Standing DateTime :=
  match storedPolicy ws with
  | some policy => standingIn policy.keys id
  | none => .absent

theorem standing_of_load {c : Crates} {ws : Workspace} {policy : TrustPolicy}
    (h : loadPolicy c ws = .ok policy) (id : String) :
    standing ws id = standingIn policy.keys id := by
  rw [standing, (loadPolicy_ok_iff.mp h).1]

@[simp] theorem standing_putPolicy (policy : TrustPolicy) (ws : Workspace) (id : String) :
    standing (putPolicy policy ws) id = standingIn policy.keys id := rfl

@[simp] theorem standing_putCopy (issuer : String) (bytes : Bytes) (ws : Workspace) (id : String) :
    standing (putCopy issuer bytes ws) id = standing ws id := rfl

@[simp] theorem standing_putPub (stem : String) (content : Option VerifyingKey) (ws : Workspace)
    (id : String) : standing (putPub stem content ws) id = standing ws id := rfl

@[simp] theorem standing_putKey (stem : String) (content : KeyContent) (ws : Workspace)
    (id : String) : standing (putKey stem content ws) id = standing ws id := rfl

@[simp] theorem standing_created (ws : Workspace) (id : String) :
    standing (created ws) id = standing ws id := rfl

/-- Writing key files changes nothing else of the directory. -/
theorem trustDir_ensurePub (stem : String) (key : VerifyingKey) (ws : Workspace) :
    ∃ pubs, (ensurePub stem key ws).trustDir = { ws.trustDir with pubs := pubs } := by
  unfold ensurePub
  split
  · exact ⟨_, rfl⟩
  · exact ⟨_, rfl⟩

theorem trustDir_ensureKeys (c : Crates) (keys : List BundledKey) (ws : Workspace) :
    ∃ pubs, (ensureKeys c keys ws).trustDir = { ws.trustDir with pubs := pubs } := by
  induction keys generalizing ws with
  | nil => exact ⟨_, rfl⟩
  | cons key rest ih =>
    have hstep : ∃ pubs, (ensureBundled c ws key).trustDir = { ws.trustDir with pubs := pubs } := by
      unfold ensureBundled
      split
      · exact trustDir_ensurePub _ _ _
      · exact ⟨_, rfl⟩
    obtain ⟨pubs, hpubs⟩ := hstep
    obtain ⟨pubs', hpubs'⟩ := ih (ensureBundled c ws key)
    refine ⟨pubs', ?_⟩
    show (ensureKeys c rest (ensureBundled c ws key)).trustDir = _
    rw [hpubs', hpubs]

theorem standing_of_trustToml {ws ws' : Workspace}
    (h : ws'.trustDir.trustToml = ws.trustDir.trustToml) (id : String) :
    standing ws' id = standing ws id := by
  rw [standing, standing, storedPolicy, storedPolicy, h]

@[simp] theorem standing_ensurePub (stem : String) (key : VerifyingKey) (ws : Workspace)
    (id : String) : standing (ensurePub stem key ws) id = standing ws id := by
  obtain ⟨pubs, h⟩ := trustDir_ensurePub stem key ws
  exact standing_of_trustToml (by rw [h]) id

@[simp] theorem standing_ensureKeys (c : Crates) (keys : List BundledKey) (ws : Workspace)
    (id : String) : standing (ensureKeys c keys ws) id = standing ws id := by
  obtain ⟨pubs, h⟩ := trustDir_ensureKeys c keys ws
  exact standing_of_trustToml (by rw [h]) id

/-! ### The key files -/

/-- Key files were added, each under the id of its key, and no loose file was touched. -/
structure Grown (c : Crates) (ws ws' : Workspace) : Prop where
  present : ws.trust.isSome = true → ws'.trust.isSome = true
  pubs : ∃ new, ws'.trustDir.pubs.entries = new ++ ws.trustDir.pubs.entries ∧
    ∀ e ∈ new, ∃ key, e = ⟨keyId c key, .file (some key)⟩
  loose : ws'.trustDir.loose = ws.trustDir.loose

section Grown
variable {c : Crates}

theorem Grown.refl (ws : Workspace) : Grown c ws ws := ⟨id, ⟨[], rfl, by simp⟩, rfl⟩

theorem Grown.trans {a b d : Workspace} (hab : Grown c a b) (hbd : Grown c b d) : Grown c a d := by
  obtain ⟨hpresent, ⟨new, hnew, hkeys⟩, hloose⟩ := hab
  obtain ⟨hpresent', ⟨new', hnew', hkeys'⟩, hloose'⟩ := hbd
  refine ⟨fun h => hpresent' (hpresent h), ⟨new' ++ new, by rw [hnew', hnew, List.append_assoc], ?_⟩,
    hloose'.trans hloose⟩
  intro e he
  rcases List.mem_append.mp he with he | he
  · exact hkeys' e he
  · exact hkeys e he

theorem grown_created (ws : Workspace) : Grown c ws (created ws) :=
  ⟨fun _ => rfl, ⟨[], rfl, by simp⟩, rfl⟩

theorem grown_putPolicy (policy : TrustPolicy) (ws : Workspace) :
    Grown c ws (putPolicy policy ws) := ⟨fun _ => rfl, ⟨[], rfl, by simp⟩, rfl⟩

theorem grown_putKey (stem : String) (content : KeyContent) (ws : Workspace) :
    Grown c ws (putKey stem content ws) := ⟨id, ⟨[], rfl, by simp⟩, rfl⟩

theorem grown_putCopy (issuer : String) (bytes : Bytes) (ws : Workspace) :
    Grown c ws (putCopy issuer bytes ws) := ⟨fun _ => rfl, ⟨[], rfl, by simp⟩, rfl⟩

theorem grown_putPub {ws : Workspace} {key : VerifyingKey}
    (h : ws.trustDir.pubs.lookup (keyId c key) = none) :
    Grown c ws (putPub (keyId c key) (some key) ws) := by
  refine ⟨fun _ => rfl, ⟨[⟨keyId c key, .file (some key)⟩], ?_, ?_⟩, rfl⟩
  · show (ws.trustDir.pubs.insert (keyId c key) (.file (some key))).entries = _
    rw [AList.entries_insert_of_notMem (AList.lookup_eq_none.mp h)]
    rfl
  · intro e he
    exact ⟨key, List.mem_singleton.mp he⟩

theorem grown_ensurePub (ws : Workspace) (key : VerifyingKey) :
    Grown c ws (ensurePub (keyId c key) key ws) := by
  unfold ensurePub
  split
  next => exact Grown.refl ws
  next h => exact grown_putPub (by simpa using h)

/-- The code decodes a key twice, and the second time it comes out the same. -/
theorem bundledKeyFromHex_of_keyId {hex id : String} (h : keyIdFromHex c hex = .ok id) :
    ∃ key, bundledKeyFromHex c hex = .ok key ∧ keyId c key = id := by
  unfold keyIdFromHex keyFromHex at h
  unfold bundledKeyFromHex
  cases hbytes : hexDecode hex with
  | none => simp [hbytes, Except.map] at h
  | some bytes =>
    cases harray : toVector 32 bytes with
    | none => simp [hbytes, harray, Except.map] at h
    | some array =>
      cases hkey : fromBytes c array with
      | error e => simp [hbytes, harray, hkey, Except.map, mapError_error] at h
      | ok key =>
        refine ⟨key, by simp [harray, hkey, mapError_ok], ?_⟩
        simpa [hbytes, harray, hkey, Except.map, mapError_ok] using h

theorem grown_ensureKeys {keys : List BundledKey}
    (h : ∀ key ∈ keys, keyIdFromHex c key.publicKey = .ok key.id) (ws : Workspace) :
    Grown c ws (ensureKeys c keys ws) := by
  induction keys generalizing ws with
  | nil => exact Grown.refl ws
  | cons key rest ih =>
    obtain ⟨verifyingKey, hkey, hid⟩ := bundledKeyFromHex_of_keyId (h key List.mem_cons_self)
    have hstep : Grown c ws (ensureBundled c ws key) := by
      simp only [ensureBundled, hkey]
      rw [← hid]
      exact grown_ensurePub ws verifyingKey
    exact hstep.trans (ih (fun k hk => h k (List.mem_cons_of_mem key hk)) _)

/-! ### A recorded bundle -/

/-- An import puts every id at the larger of its standing and what the bundle states. -/
theorem standing_recorded {bundle : TrustBundle} {report : ImportReport} {policy : TrustPolicy}
    {ws : Workspace} (hkeys : KeysInOrder c bundle.keys)
    (hload : loadPolicy c (ensureKeys c bundle.keys (created ws)) = .ok policy) (id : String) :
    standing (recorded c bundle report policy ws) id =
      max (standing ws id) (stated bundle.keys id) := by
  have hsame := standing_of_load hload id
  rw [standing_ensureKeys, standing_created] at hsame
  rw [recorded, standing_putCopy, standing_putPolicy, hsame]
  exact standingIn_mergeKeys hkeys.nodup hkeys.dated policy.keys report id

@[simp] theorem bundles_putPolicy (policy : TrustPolicy) (ws : Workspace) :
    (putPolicy policy ws).trustDir.bundles = ws.trustDir.bundles := rfl

/-- One copy is placed, and the others stay. -/
theorem bundles_recorded (bundle : TrustBundle) (report : ImportReport) (policy : TrustPolicy)
    (ws : Workspace) : (recorded c bundle report policy ws).trustDir.bundles =
      ws.trustDir.bundles.insert bundle.issuer.keyId (.file bundle.written) := by
  obtain ⟨pubs, hdir⟩ := trustDir_ensureKeys c bundle.keys (created ws)
  show (ensureKeys c bundle.keys (created ws)).trustDir.bundles.insert _ _ = _
  rw [hdir]
  rfl

theorem grown_recorded {bundle : TrustBundle} {report : ImportReport} {policy : TrustPolicy}
    {ws : Workspace} (hkeys : KeysInOrder c bundle.keys) :
    Grown c ws (recorded c bundle report policy ws) :=
  (((grown_created ws).trans (grown_ensureKeys hkeys.derive _)).trans (grown_putPolicy _ _)).trans
    (grown_putCopy _ _ _)

end Grown

/-! ### Sample material

Three Ed25519 public keys with their BLAKE3 digests, and the private halves of two. -/

def sampleSeedA : SigningKey :=
  ⟨#v[157, 97, 177, 157, 239, 253, 90, 96, 186, 132, 74, 244, 146, 236, 44, 196,
    68, 73, 197, 105, 123, 50, 105, 25, 112, 59, 172, 3, 28, 174, 127, 96]⟩

def samplePublicA : VerifyingKey :=
  ⟨#v[215, 90, 152, 1, 130, 177, 10, 183, 213, 75, 254, 211, 201, 100, 7, 58,
    14, 225, 114, 243, 218, 166, 35, 37, 175, 2, 26, 104, 247, 7, 81, 26]⟩

def sampleDigestA : Vector UInt8 32 :=
  #v[108, 49, 4, 18, 104, 244, 113, 96, 156, 121, 245, 242, 219, 204, 56, 228,
    164, 171, 47, 77, 65, 97, 9, 164, 224, 159, 207, 80, 253, 15, 0, 98]

def sampleSeedB : SigningKey :=
  ⟨#v[76, 205, 8, 155, 40, 255, 150, 218, 157, 182, 195, 70, 236, 17, 78, 15,
    91, 138, 49, 159, 53, 171, 166, 36, 218, 140, 246, 237, 79, 184, 166, 251]⟩

def samplePublicB : VerifyingKey :=
  ⟨#v[61, 64, 23, 195, 232, 67, 137, 90, 146, 183, 10, 167, 77, 27, 126, 188,
    156, 152, 44, 207, 46, 196, 150, 140, 192, 205, 85, 241, 42, 244, 102, 12]⟩

def sampleDigestB : Vector UInt8 32 :=
  #v[16, 39, 224, 53, 178, 107, 96, 93, 198, 212, 183, 141, 7, 220, 41, 102,
    15, 204, 52, 152, 181, 152, 162, 229, 124, 78, 107, 27, 103, 58, 30, 149]

def samplePublicC : VerifyingKey :=
  ⟨#v[252, 81, 205, 142, 98, 24, 161, 163, 141, 164, 126, 208, 2, 48, 240, 88,
    8, 22, 237, 19, 186, 51, 3, 172, 93, 235, 145, 21, 72, 144, 128, 37]⟩

def sampleDigestC : Vector UInt8 32 :=
  #v[132, 96, 108, 37, 200, 165, 167, 80, 7, 155, 218, 74, 101, 124, 172, 59,
    239, 147, 49, 151, 188, 210, 128, 136, 121, 208, 218, 185, 136, 98, 20, 6]

def sampleIdA : String := hexEncode (sampleDigestA.toList.take 16)

def sampleIdB : String := hexEncode (sampleDigestB.toList.take 16)

def sampleIdC : String := hexEncode (sampleDigestC.toList.take 16)

example : sampleIdA = "6c31041268f471609c79f5f2dbcc38e4" := by decide +kernel

/-- The crates as they behave on the sample keys and on bundles signed with them: a table of the
bundles is a table of their texts and of their signatures. -/
def sampleCrates (bundles : List TrustBundle) : Crates where
  blake3 bytes :=
    if bytes = samplePublicA.bytes.toList then sampleDigestA
    else if bytes = samplePublicB.bytes.toList then sampleDigestB
    else if bytes = samplePublicC.bytes.toList then sampleDigestC
    else Vector.replicate 32 0
  pointError _ := none
  verifyingKey key :=
    if key = sampleSeedA then samplePublicA
    else if key = sampleSeedB then samplePublicB
    else samplePublicC
  verify key message signature := bundles.any fun b =>
    b.issuer.publicKey == hexEncode key.bytes.toList &&
      b.signature == some (hexEncode signature.toList) && message == b.signingBytes
  fromSlice bytes :=
    match bundles.find? (fun b => bytes == utf8 (Json.compact b.toJson) || bytes == b.written) with
    | some b => .ok b
    | none => .error "expected value"

/-- Midnight of a day, by its seconds. -/
def sampleDay (secs : Int) (h : minSecs ≤ secs ∧ secs ≤ maxSecs := by decide) : DateTime :=
  ⟨secs, 0, h, DateTime.zero_nanos_lt⟩

theorem january_inRange : minSecs ≤ 1767225600 ∧ 1767225600 ≤ maxSecs := by decide
theorem march_inRange : minSecs ≤ 1772323200 ∧ 1772323200 ≤ maxSecs := by decide
theorem april_inRange : minSecs ≤ 1775001600 ∧ 1775001600 ≤ maxSecs := by decide
theorem may_inRange : minSecs ≤ 1777593600 ∧ 1777593600 ≤ maxSecs := by decide
theorem nextMarch_inRange : minSecs ≤ 1803859200 ∧ 1803859200 ≤ maxSecs := by decide

def sampleWorld : World := ⟨{ root := ".", keysPath := "./.attest/keys" }, []⟩

end Attest.Trust
