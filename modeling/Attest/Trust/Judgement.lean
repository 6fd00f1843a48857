import Attest.Trust.Specs

/-! Whether a signature counts, as `verify.rs` has it.

`key_trust_status` resolves a public key against a trust directory: the managed
keys first, each judged by its policy entry, then the loose legacy files, which are
trusted as they are. The last part of `signature_check` turns that into a verdict:
a signature by a revoked key counts when it was made no later than the revocation,
by the time of a verified token, or by the receipt's own word when the caller asks
for that. -/
namespace Attest.Trust
open Library.Fallible

inductive KeyTrust
  | trusted
  | revoked (revokedAt : DateTime)
  | unknown
deriving DecidableEq

/-! ### Key files -/

section Status
variable (c : Crates)

/-- The public key of every `.pub` file, in hex, by key id; a later file takes the place of an
earlier one with its id. -/
def managedKeys (keys : AList (fun _ : String => String)) :
    List (Sigma fun _ : String => Node (Option VerifyingKey)) →
      Except String (AList (fun _ : String => String))
  | [] => .ok keys
  | ⟨_, .folder⟩ :: rest => managedKeys keys rest
  | ⟨stem, .locked⟩ :: _ => .error s!"cannot read {stem}.pub"
  | ⟨_, .file none⟩ :: rest => managedKeys keys rest
  | ⟨_, .file (some key)⟩ :: rest =>
    managedKeys (keys.insert (keyId c key) (hexEncode key.bytes.toList)) rest

def trustDirPublicKeys (dir : TrustDir) : Except String (AList (fun _ : String => String)) :=
  managedKeys c ∅ dir.pubs.entries

/-- `char::is_whitespace`, the Unicode property `White_Space`. -/
def isWhiteSpace (c : Char) : Bool :=
  let n := c.toNat
  decide (9 ≤ n ∧ n ≤ 13 ∨ n = 0x20 ∨ n = 0x85 ∨ n = 0xA0 ∨ n = 0x1680 ∨ 0x2000 ≤ n ∧ n ≤ 0x200A ∨
    n = 0x2028 ∨ n = 0x2029 ∨ n = 0x202F ∨ n = 0x205F ∨ n = 0x3000)

/-- `str::trim`. -/
def trimChars (chars : List Char) : List Char :=
  ((chars.dropWhile isWhiteSpace).reverse.dropWhile isWhiteSpace).reverse

/-- The key a loose file holds: 32 raw bytes, or 64 digits of either case. No character outside
ASCII has one of the sixteen digits as its lower case, so folding ASCII is enough. -/
def looseKeyHex (bytes : Bytes) : Option String :=
  if bytes.length = 32 then some (hexEncode bytes)
  else do
    let text ← String.fromUTF8? ⟨bytes.toArray⟩
    let chars := (trimChars text.toList).map Char.toLower
    if chars.length = 64 ∧ chars.all isLowerHexDigit then some (String.ofList chars) else none

/-- The loop over the loose files. -/
def looseHolds (publicKeyHex : String) :
    List (Sigma fun _ : String => Node Bytes) → Except String Bool
  | [] => .ok false
  | ⟨_, .folder⟩ :: rest => looseHolds publicKeyHex rest
  | ⟨name, .locked⟩ :: _ => .error s!"cannot read {name}"
  | ⟨_, .file bytes⟩ :: rest =>
    if looseKeyHex bytes = some publicKeyHex then .ok true else looseHolds publicKeyHex rest

/-- What a policy says of a key id. -/
def entryTrust (policy : TrustPolicy) (id : String) : KeyTrust :=
  match policy.entry id with
  | none => .unknown
  | some entry =>
    match entry.status with
    | .trusted => .trusted
    -- revoked without a date: treat as always revoked
    | .revoked => .revoked (entry.revokedAt.getD .minUtc)

/-- `key_trust_status`, of a store that is a directory. -/
def storeTrustStatus (path : String) (dir : TrustDir) (publicKeyHex : String) :
    Except String KeyTrust := do
  let policy ← TrustPolicy.load c path dir
  let managed ← trustDirPublicKeys c dir
  match managed.entries.find? (fun entry => entry.2 == publicKeyHex) with
  | some ⟨id, _⟩ => return entryTrust policy id
  | none =>
    if ← looseHolds publicKeyHex dir.loose.entries then return .trusted else return .unknown

/-- `key_trust_status`, of the workspace's own store, or its own key where there is no store. -/
def keyTrustStatus (ws : Workspace) (publicKeyHex : String) : Except String KeyTrust :=
  match ws.trust with
  | some dir => storeTrustStatus c ws.trustPath dir publicKeyHex
  | none =>
    if isFile ws.localKey then
      match contentOf ws.localKey with
      | none => .error "cannot read public.key"
      | some bytes =>
        if bytes.length = 32 ∧ hexEncode bytes = publicKeyHex then .ok .trusted else .ok .unknown
    else .ok .unknown

end Status

/-! ### The verdict -/

/-- What decides about a signature that verifies: its key, when a token or the receipt says it
was made, and whether the receipt's word is enough. -/
structure Signed where
  publicKeyHex : String
  trustedTime : Option DateTime
  timestamp : DateTime
  trustReceiptTimestamp : Bool
deriving DecidableEq

/-- The moment a signature is judged by, when there is one. -/
def Signed.signedAt (s : Signed) : Option DateTime :=
  match s.trustedTime with
  | some attested => some attested
  | none => if s.trustReceiptTimestamp then some s.timestamp else none

/-- The check, and the warnings it adds. -/
structure Verdict where
  passed : Bool
  detail : String
  warnings : List String
deriving DecidableEq

/-- The branch of `signature_check` for a revoked key. -/
def judgeRevoked (s : Signed) (revokedAt : DateTime) : Verdict :=
  match s.signedAt with
  | none =>
    ⟨false, s!"signed by revoked key {s.publicKeyHex} and carrying no timestamp token, so there " ++
      s!"is no evidence the signature predates the revocation at {revokedAt}; re-verify with a " ++
      "timestamped receipt, or pass --trust-receipt-timestamp to accept the signer's own word " ++
      "for when it was signed", []⟩
  | some signedAt =>
    let fallback :=
      if s.trustedTime.isNone then
        [s!"key {s.publicKeyHex} is revoked and this receipt carries no timestamp token; " ++
          "--trust-receipt-timestamp was given, so the revocation check falls back to the " ++
          "receipt's own timestamp, which whoever holds the key controls"]
      else []
    if revokedAt < signedAt then
      ⟨false, s!"signed by key {s.publicKeyHex} after its revocation at {revokedAt}", fallback⟩
    else
      ⟨true, "valid signature; signed by key revoked later",
        fallback ++ [s!"signed by key revoked later ({s.publicKeyHex} revoked at {revokedAt})"]⟩

/-- `signature_check` from the trust store on: the Ed25519 signature has verified. -/
def judgeSigned (c : Crates) (status : Except String KeyTrust) (s : Signed) : Verdict :=
  match status with
  | .error err => ⟨false, s!"cannot load trust store: {err}", []⟩
  | .ok .unknown =>
    let id := match keyIdFromHex c s.publicKeyHex with
      | .ok id => id
      | .error _ => s.publicKeyHex
    ⟨false, s!"valid signature but signed by untrusted key {id}", []⟩
  | .ok .trusted => ⟨true, s!"valid signature by trusted key {s.publicKeyHex}", []⟩
  | .ok (.revoked revokedAt) => judgeRevoked s revokedAt

end Attest.Trust
