import Attest.Trust.Bundle

/-! The key store, as `keys.rs` has it.

The policy is checked against the `.pub` files whenever it is loaded, and every
operation loads it. The functions that only read are functions of the files; the
ones that write are programs. The cryptographic crates are a parameter: a digest,
the check that 32 bytes are a point of the curve, Ed25519 itself, and the JSON
reader of a bundle. -/
namespace Attest.Trust
open Library.Fallible

/-- What the code takes from its crates. -/
structure Crates where
  /-- `blake3::hash`. -/
  blake3 : Bytes → Vector UInt8 32
  /-- The error of `VerifyingKey::from_bytes`, where there is one. -/
  pointError : Vector UInt8 32 → Option String
  /-- `SigningKey::verifying_key`. -/
  verifyingKey : SigningKey → VerifyingKey
  /-- `VerifyingKey::verify(message, signature).is_ok()`. -/
  verify : VerifyingKey → Bytes → Vector UInt8 64 → Bool
  /-- `serde_json::from_slice::<TrustBundle>`. -/
  fromSlice : Bytes → Except String TrustBundle

/-! ### Hex -/

/-- `hex::encode`. -/
def hexEncode (bytes : Bytes) : String :=
  String.ofList (bytes.flatMap fun b => [Nat.digitChar (b.toNat / 16), Nat.digitChar (b.toNat % 16)])

def hexValue (c : Char) : Option Nat :=
  if '0' ≤ c ∧ c ≤ '9' then some (c.toNat - 48)
  else if 'a' ≤ c ∧ c ≤ 'f' then some (c.toNat - 87)
  else if 'A' ≤ c ∧ c ≤ 'F' then some (c.toNat - 55)
  else none

def hexDecodeChars : List Char → Option Bytes
  | [] => some []
  | [_] => none
  | high :: low :: rest => do
    let high ← hexValue high
    let low ← hexValue low
    let bytes ← hexDecodeChars rest
    return UInt8.ofNat (16 * high + low) :: bytes

/-- `hex::decode`, of both cases. -/
def hexDecode (s : String) : Option Bytes := hexDecodeChars s.toList

/-- `<[u8; n]>::try_from`. -/
def toVector (n : Nat) (bytes : Bytes) : Option (Vector UInt8 n) :=
  if h : bytes.length = n then some ⟨bytes.toArray, by simpa using h⟩ else none

/-! ### Key ids -/

section Policy
variable (c : Crates)

/-- The first 16 bytes of the digest of the raw key. -/
def keyId (key : VerifyingKey) : String :=
  hexEncode ((c.blake3 key.bytes.toList).toList.take 16)

/-- `VerifyingKey::from_bytes`. -/
def fromBytes (bytes : Vector UInt8 32) : Except String VerifyingKey :=
  match c.pointError bytes with
  | some error => .error error
  | none => .ok ⟨bytes⟩

/-- The key a bundle gives in hex. -/
def keyFromHex (publicKeyHex : String) : Except String VerifyingKey :=
  match hexDecode publicKeyHex with
  | none => .error "invalid public key hex"
  | some bytes =>
    match toVector 32 bytes with
    | none => .error "invalid public key length"
    | some array => (fromBytes c array).mapError fun e => s!"invalid public key: {e}"

def keyIdFromHex (publicKeyHex : String) : Except String String :=
  (keyFromHex c publicKeyHex).map (keyId c)

/-! ### Loading the policy -/

/-- `c.is_ascii_hexdigit() && !c.is_ascii_uppercase()`. -/
def isLowerHexDigit (c : Char) : Bool := decide ('0' ≤ c ∧ c ≤ '9' ∨ 'a' ≤ c ∧ c ≤ 'f')

def wellFormedId (id : String) : Bool := id.utf8ByteSize == 32 && id.toList.all isLowerHexDigit

/-- The loop of `check_against`, with the ids it has seen. -/
def checkEntries (path : String) (pubs : Folder (Option VerifyingKey)) :
    List String → List TrustEntry → Except String Unit
  | _, [] => .ok ()
  | seen, entry :: rest =>
    let publicPath := joinPath path (entry.id ++ ".pub")
    if !wellFormedId entry.id then
      .error s!"entry '{entry.name}' has a malformed key id {entry.id.quote}"
    else if entry.id ∈ seen then .error s!"key id {entry.id} appears more than once"
    else
      match contentOf (pubs.lookup entry.id) with
      | none => .error s!"entry '{entry.name}' names key {entry.id} but {publicPath} is missing"
      | some none => .error s!"{publicPath} is not a public key"
      | some (some key) =>
        if keyId c key ≠ entry.id then
          .error s!"{publicPath} holds key {keyId c key}, not the key its name claims"
        else checkEntries path pubs (entry.id :: seen) rest

def TrustPolicy.checkAgainst (policy : TrustPolicy) (path : String) (dir : TrustDir) :
    Except String Unit :=
  checkEntries c path dir.pubs [] policy.keys

def TrustPolicy.load (path : String) (dir : TrustDir) : Except String TrustPolicy :=
  let file := joinPath path "trust.toml"
  match dir.trustToml with
  | none => .ok {}
  | some .folder => .ok {}
  | some .locked => .error s!"cannot read {file}"
  | some (.file none) => .error s!"invalid trust policy {file}"
  | some (.file (some policy)) =>
    match policy.checkAgainst c path dir with
    | .error _ => .error s!"inconsistent trust policy {file}"
    | .ok _ => .ok policy

/-- `TrustPolicy::load(&self.trust_dir())`. -/
def loadPolicy (ws : Workspace) : Except String TrustPolicy :=
  TrustPolicy.load c ws.trustPath ws.trustDir

end Policy

/-! ### Writing -/

def TrustPolicy.withKeys (policy : TrustPolicy) (keys : List TrustEntry) : TrustPolicy :=
  { policy with keys := keys }

def putPolicy (policy : TrustPolicy) (ws : Workspace) : Workspace :=
  ws.setTrust { ws.trustDir with trustToml := some (.file (some policy)) }

/-- The policy is written beside the old one and renamed over it, so it is there whole or not
at all. -/
def TrustPolicy.save (policy : TrustPolicy) : Program Unit := do
  createTrustDir
  let path ← reading fun w => .ok (joinPath w.fs.trustPath "trust.toml")
  syscall (some s!"cannot write {path}") (fun ws => canWrite ws.trustDir.trustToml)
    (putPolicy policy) (fun _ => id)

/-- The length of a public key in PEM, line end included. -/
def publicPemSize : Nat := 113

/-- The length of a private key in PKCS#8 v2 PEM, line end included. -/
def privatePemSize : Nat := 168

def putPub (id : String) (content : Option VerifyingKey) (ws : Workspace) : Workspace :=
  ws.setTrust { ws.trustDir with pubs := ws.trustDir.pubs.insert id (.file content) }

/-- `std::fs::write` of a public key; the last line end is not needed to read it. -/
def writePub (context : Option String) (id : String) (key : VerifyingKey) : Program Unit :=
  syscall context (fun ws => canWrite (ws.trustDir.pubs.lookup id)) (putPub id (some key))
    (fun written => putPub id (if publicPemSize ≤ written + 1 then some key else none))

def putKey (id : String) (content : KeyContent) (ws : Workspace) : Workspace :=
  { ws with keys := ws.keys.insert id (.file content) }

def keyPath (ws : Workspace) (stem : String) : String := joinPath ws.keysPath (stem ++ ".key")

/-- The private key file is created empty, with its mode, and never written over. -/
def createPrivate (id : String) (key : SigningKey) : Program Unit := do
  let path ← reading fun w => .ok (keyPath w.fs id)
  syscall (some s!"cannot create {path}") (fun ws => (ws.keys.lookup id).isNone)
    (putKey id .other) (fun _ ws => ws)
  syscall none (fun _ => true) (putKey id (.pem key))
    (fun written => putKey id (if privatePemSize ≤ written + 1 then .pem key else .other))
  touch

/-! ### Operations -/

/-- A PEM file given to `attest keys import`. -/
structure PemText where
  /-- Whether the text contains `PRIVATE`. -/
  mentionsPrivate : Bool
  key : Except String VerifyingKey

namespace KeyStore
variable (c : Crates)

/-- `KeyStore::generate`, with the key the random generator gave. -/
def generate (signingKey : SigningKey) (name : String) : Program String := do
  let verifyingKey := c.verifyingKey signingKey
  let id := keyId c verifyingKey
  reading fun w =>
    refuseIf ((w.fs.keys.lookup id).isSome || (w.fs.trustDir.pubs.lookup id).isSome)
      s!"key {id} already exists, refusing to overwrite"
  touch
  createTrustDir
  createPrivate id signingKey
  writePub none id verifyingKey
  touch
  let policy ← reading fun w => loadPolicy c w.fs
  (policy.withKeys (policy.keys ++ [⟨id, name, .trusted, none⟩])).save
  return id

/-- `import` writes the key file unless something has its name. -/
def placePub (id : String) (key : VerifyingKey) : Program Unit := do
  let present ← reading fun w => .ok (w.fs.trustDir.pubs.lookup id).isSome
  if present then pure ()
  else
    writePub none id key
    touch

/-- `import` adds an entry unless there is one. -/
def addEntry (policy : TrustPolicy) (id name : String) : Program Unit :=
  if (policy.entry id).isNone then
    (policy.withKeys (policy.keys ++ [⟨id, name, .trusted, none⟩])).save
  else pure ()

/-- `KeyStore::import`, of the file at `path`. -/
def importKey (path : String) (pem : Option (Node PemText)) (name : String) : Program String := do
  let verifyingKey ← reading fun _ =>
    match contentOf pem with
    | none => .error s!"cannot read {path}"
    | some text =>
      if text.mentionsPrivate then
        .error "refusing to import private key material into the trust store"
      else text.key.mapError fun e => s!"invalid public key PEM: {e}"
  let id := keyId c verifyingKey
  createTrustDir
  placePub id verifyingKey
  let policy ← reading fun w => loadPolicy c w.fs
  addEntry policy id name
  return id

end KeyStore

/-- What is done to the first entry with the id. -/
def updateEntry (id : String) (f : TrustEntry → TrustEntry) : List TrustEntry → List TrustEntry
  | [] => []
  | entry :: rest => if entry.id == id then f entry :: rest else entry :: updateEntry id f rest

/-- The two assignments of `revoke`. -/
def TrustEntry.revokeAt (now : DateTime) (entry : TrustEntry) : TrustEntry :=
  { entry with status := .revoked, revokedAt := some now }

namespace KeyStore
variable (c : Crates)

/-- `KeyStore::revoke`, at the clock reading `now`. -/
def revoke (id : String) (now : DateTime) : Program Bool := do
  let policy ← reading fun w => loadPolicy c w.fs
  match policy.entry id with
  | some _ =>
    (policy.withKeys (updateEntry id (TrustEntry.revokeAt now) policy.keys)).save
    return true
  | none => return false

/-! ### Selecting a key to sign with -/

/-- Refuse to sign with a key the policy does not currently trust. -/
def authorizeSigning (ws : Workspace) (id : String) : Except String Unit := do
  let policy ← loadPolicy c ws
  match policy.entry id with
  | some entry =>
    match entry.status with
    | .trusted => .ok ()
    | .revoked =>
      let since := match entry.revokedAt with
        | some at_ => s!" (since {at_})"
        | none => ""
      .error s!"key {id} is revoked{since}; a revoked key cannot sign new evidence"
  | none =>
    let policyPath := joinPath ws.trustPath "trust.toml"
    .error (s!"key {id} has a private half but no entry in {policyPath}; " ++
      "a key the policy does not trust cannot sign")

/-- The text of the PKCS#8 reader's own error is left out. -/
def loadPrivatePem (path : String) (node : Option (Node KeyContent)) : Except String SigningKey :=
  match contentOf node with
  | none => .error s!"cannot read {path}"
  | some (.pem key) => .ok key
  | some _ => .error s!"invalid private key {path}"

/-- A managed private key: the file has the extension `key` and is not of the legacy pair. -/
def isManaged (stem : String) : Bool := stem ≠ "" && stem ≠ "private" && stem ≠ "public"

def selectSigningKey (ws : Workspace) (requested : Option String) :
    Except String (Option SigningKey) :=
  match requested with
  | some id =>
    if !isFile (ws.keys.lookup id) then .error s!"no private key for id {id} in {ws.keysPath}"
    else do
      authorizeSigning c ws id
      return some (← loadPrivatePem (keyPath ws id) (ws.keys.lookup id))
  | none =>
    match ws.keys.keys.filter isManaged with
    | [] => .ok none
    | [id] => do
      authorizeSigning c ws id
      return some (← loadPrivatePem (keyPath ws id) (ws.keys.lookup id))
    | _ => .error "multiple private keys, use --key"

end KeyStore

end Attest.Trust
