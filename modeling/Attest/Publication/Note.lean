import Attest.Library.Text
import Attest.Library.Base64
import Attest.Publication.Merkle
import Attest.Trust.Judgement

/-! Signed notes and the checkpoints they carry, as `publication/note.rs` has them.

A note is a body of lines, an empty line, and signature lines. The log is configured
by its origin and a verifier key of its own; a checkpoint is accepted only under that
key, and signatures of others are tolerated and not looked into. A text is a list of
characters here: a byte below 0x20 is always a character of its own. -/
namespace Attest.Publication.Note
open Merkle Library Library.Text Library.Fallible
open Trust (hexEncode toVector isLowerHexDigit utf8 VerifyingKey isWhiteSpace)

def maxNoteBytes : Nat := 128 * 1024
def maxSignatures : Nat := 32

/-- What the note profile takes from its crypto libraries. -/
structure Suite where
  sha256 : Bytes → Hash
  /-- The error of `VerifyingKey::from_bytes`, where there is one. -/
  pointError : Vector UInt8 32 → Option String
  /-- `VerifyingKey::is_weak`. -/
  isWeak : VerifyingKey → Bool
  /-- `VerifyingKey::verify_strict(message, signature).is_ok()`. -/
  verifyStrict : VerifyingKey → Bytes → Vector UInt8 64 → Bool

structure LogConfig where
  format : String
  origin : String
  verifierKey : String
  readUrl : Option String
  submitUrl : Option String
  tlsCa : Option String

/-! ### Names and numbers -/

/-- `char::is_control`, the Unicode category `Cc`. -/
def isControl (c : Char) : Bool := decide (c.toNat < 0x20 ∨ 0x7f ≤ c.toNat ∧ c.toNat ≤ 0x9f)

def validName (name : List Char) : Bool :=
  !name.isEmpty && !name.any fun c => isWhiteSpace c || isControl c || c == '+'

def canonicalBase64 (text : List Char) : Except String Bytes :=
  match Base64.decodeChars text with
  | none => .error "invalid note base64"
  | some bytes =>
    if Base64.encodeChars bytes = text then .ok bytes else .error "non-canonical note base64"

/-! ### The configured key -/

structure Verifier where
  name : List Char
  id : Vector UInt8 4
  key : VerifyingKey

/-- The next part of `splitn`, and what is left for the parts after it. -/
def nextPart (text : List Char) : List Char × Option (List Char) :=
  match splitOnce '+' text with
  | some (part, rest) => (part, some rest)
  | none => (text, none)

section Suite
variable (s : Suite)

/-- The first four bytes of the digest of a name and a key. -/
def keyIdentifier (name : List Char) (material : Bytes) : Vector UInt8 4 :=
  (s.sha256 (utf8 (String.ofList name) ++ 10 :: material)).take 4

def Verifier.parse (text : String) : Except String Verifier := do
  refuseIf (4096 < text.utf8ByteSize) "note verifier key is too long"
  let (name, rest) := nextPart text.toList
  refuseIf (validName name = false) "invalid verifier name"
  match rest with
  | none => .error "missing verifier key identifier"
  | some rest =>
    let (id, rest) := nextPart rest
    refuseIf (¬ (id.length = 8 ∧ id.all isLowerHexDigit = true)) "invalid verifier key identifier"
    match rest with
    | none => .error "missing verifier public key"
    | some rest =>
      let material ← canonicalBase64 rest
      refuseIf (¬ (material.length = 33 ∧ material.head? = some 1))
        "this log profile requires an Ed25519 note verifier key"
      let expected := keyIdentifier s name material
      refuseIf (hexEncode expected.toList ≠ String.ofList id) "verifier key identifier mismatch"
      match toVector 32 material.tail with
      | none => .error "invalid Ed25519 public key length"
      | some raw =>
        match s.pointError raw with
        | some _ => .error "invalid Ed25519 log public key"
        | none =>
          refuseIf (s.isWeak ⟨raw⟩ = true) "weak Ed25519 log public key"
          .ok ⟨name, expected, ⟨raw⟩⟩

/-! ### Notes -/

section Verify
variable (v : Verifier)

/-- What one signature line says: who signed, under which key id, and the signature. -/
def signatureFields (line : List Char) : Except String (List Char × Vector UInt8 4 × Bytes) :=
  match line with
  | '—' :: ' ' :: line =>
    match splitOnce ' ' line with
    | none => .error "invalid note signature fields"
    | some (name, signature) => do
      refuseIf (validName name = false) "invalid note signer name"
      refuseIf (16 * 1024 < (String.ofList signature).utf8ByteSize) "note signature is too long"
      let signature ← canonicalBase64 signature
      refuseIf (¬ (5 ≤ signature.length ∧ signature.length ≤ 8192)) "invalid note signature length"
      match toVector 4 (signature.take 4) with
      | none => .error "missing note signature id"
      | some id => .ok (name, id, signature.drop 4)
  | _ => .error "invalid note signature line"

/-- The loop over the signature lines, with the signers seen and whether the configured
one was among them. -/
def checkSignatures (body : Bytes) (seen : List (List Char × Vector UInt8 4))
    (authenticated : Bool) : List (List Char) → Except String Bool
  | [] => .ok authenticated
  | line :: rest => do
    let (name, id, signature) ← signatureFields line
    refuseIf ((name, id) ∈ seen) "duplicate note signer tuple"
    if name = v.name ∧ id = v.id then
      match toVector 64 signature with
      | none => .error "invalid Ed25519 note signature length"
      | some signature =>
        refuseIf (s.verifyStrict v.key body signature = false)
          "invalid signature from configured log key"
        checkSignatures body ((name, id) :: seen) true rest
    else
      checkSignatures body ((name, id) :: seen) authenticated rest

def Verifier.verifyNote (note : String) : Except String (List Char) := do
  refuseIf (maxNoteBytes < note.utf8ByteSize) "checkpoint note is too large"
  refuseIf (¬ (note.toList.getLast? = some '\n' ∧
    ∀ c ∈ note.toList, ¬ (c.toNat < 0x20 ∧ c ≠ '\n'))) "invalid signed-note text"
  match splitBlank note.toList with
  | none => .error "missing note signature separator"
  | some (body, signatures) =>
    refuseIf (¬ (body ≠ [] ∧ signatures ≠ [])) "empty signed note"
    let lines := lines signatures
    refuseIf (maxSignatures < lines.length) "too many note signatures"
    let authenticated ← checkSignatures s v (utf8 (String.ofList body)) [] false lines
    refuseIf (authenticated = false) "checkpoint has no signature from configured log key"
    .ok body

end Verify

/-! ### Checkpoints -/

def LogConfig.validate (trust : LogConfig) : Except String Unit := do
  refuseIf (trust.format ≠ "attest-log/v1") "unsupported log configuration format"
  refuseIf (¬ (validName trust.origin.toList = true ∧ trust.origin.utf8ByteSize ≤ 4096))
    "invalid checkpoint origin"
  let _ ← Verifier.parse s trust.verifierKey
  .ok ()

def LogConfig.logId (trust : LogConfig) : Except String String := do
  trust.validate s
  .ok (hexEncode
    (s.sha256 (utf8 ("attest-log/v1\n" ++ trust.origin ++ "\n" ++ trust.verifierKey))).toList)

structure Checkpoint where
  treeSize : Nat
  root : Hash
  signedNote : String

/-- The size line, as `u64`. -/
def parseSize (size : List Char) : Except String Nat := do
  refuseIf (¬ Canonical size) "non-canonical checkpoint tree size"
  refuseIf (2 ^ 64 ≤ Nat.ofDigitChars 10 size 0) "checkpoint tree size overflows"
  .ok (Nat.ofDigitChars 10 size 0)

/-- What is read from the lines of an authenticated body. -/
def readBody (trust : LogConfig) (note : String) (body : List (List Char)) :
    Except String Checkpoint :=
  match body with
  | [] => .error "checkpoint origin differs from configured log"
  | origin :: rest => do
    refuseIf (origin ≠ trust.origin.toList) "checkpoint origin differs from configured log"
    match rest with
    | [] => .error "checkpoint lacks tree size"
    | size :: rest =>
      let treeSize ← parseSize size
      match rest with
      | [] => .error "checkpoint lacks root hash"
      | encoded :: extensions =>
        let bytes ← canonicalBase64 encoded
        match toVector 32 bytes with
        | none => .error "invalid checkpoint root length"
        | some root =>
          refuseIf ([] ∈ extensions) "empty checkpoint extension line"
          refuseIf (treeSize = 0 ∧ root ≠ emptyRoot s.sha256) "invalid empty-tree checkpoint root"
          .ok ⟨treeSize, root, note⟩

def Checkpoint.verify (note : String) (trust : LogConfig) : Except String Checkpoint := do
  trust.validate s
  let verifier ← Verifier.parse s trust.verifierKey
  let body ← verifier.verifyNote s note
  readBody s trust note (lines body)

end Suite

end Attest.Publication.Note
