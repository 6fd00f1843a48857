import Attest.Library.Json
import Attest.Trust.Store

/-! A trust bundle and its text.

`TrustBundle` is the document an authority hands over; serde writes its fields in
the order of their declaration and leaves out the ones that are `None`. The bytes
that are signed are the compact text without the signature and with the keys
sorted by id; the copy an import keeps is the pretty text and a line end. -/
namespace Attest.Trust
open Library

/-- `BUNDLE_SCHEMA_VERSION`. -/
def bundleSchemaVersion : UInt32 := 1

/-- `BUNDLE_LIMIT`. -/
def bundleLimit : Nat := 1024 * 1024

structure Issuer where
  keyId : String
  publicKey : String
deriving DecidableEq

structure BundledKey where
  id : String
  name : String
  publicKey : String
  status : KeyStatus
  revokedAt : Option DateTime
deriving DecidableEq

structure TrustBundle where
  schemaVersion : UInt32
  issuer : Issuer
  issuedAt : DateTime
  validUntil : DateTime
  sequence : UInt64
  keys : List BundledKey
  successor : Option Issuer
  signature : Option String
deriving DecidableEq

/-! ### As JSON -/

/-- The serde and the `Display` form of a status. -/
instance : ToString KeyStatus where
  toString
    | .trusted => "trusted"
    | .revoked => "revoked"

/-- `skip_serializing_if = "Option::is_none"`. -/
def optionalField {α : Type} (name : String) (value : α → Json) : Option α → List (String × Json)
  | none => []
  | some a => [(name, value a)]

def DateTime.toJson (t : DateTime) : Json := .text t.rfc3339

def Issuer.toJson (issuer : Issuer) : Json :=
  .object [("key_id", .text issuer.keyId), ("public_key", .text issuer.publicKey)]

def BundledKey.toJson (key : BundledKey) : Json :=
  .object ([("id", .text key.id), ("name", .text key.name), ("public_key", .text key.publicKey),
    ("status", .text (toString key.status))] ++
    optionalField "revoked_at" DateTime.toJson key.revokedAt)

def TrustBundle.toJson (bundle : TrustBundle) : Json :=
  .object ([("schema_version", .number bundle.schemaVersion.toNat),
    ("issuer", bundle.issuer.toJson), ("issued_at", bundle.issuedAt.toJson),
    ("valid_until", bundle.validUntil.toJson), ("sequence", .number bundle.sequence.toNat),
    ("keys", .array (bundle.keys.map BundledKey.toJson))] ++
    optionalField "successor" Issuer.toJson bundle.successor ++
    optionalField "signature" Json.text bundle.signature)

/-- The bytes of a text. -/
def utf8 (s : String) : Bytes := s.toUTF8.data.toList

theorem length_utf8 (s : String) : (utf8 s).length = s.utf8ByteSize := rfl

/-! ### Sizes -/

section Sizes
open Json
variable (l : Spacing)

/-- The bytes of an issuer's object at a depth. -/
def issuerSize (depth : Nat) (issuer : Issuer) : Nat :=
  escapedSize issuer.keyId + escapedSize issuer.publicKey + 2 * l.newline (depth + 1) +
    l.newline depth + 2 * l.colon + 27

/-- The bytes of a key's object at a depth. -/
def keySize (depth : Nat) (key : BundledKey) : Nat :=
  escapedSize key.id + escapedSize key.name + escapedSize key.publicKey +
    4 * l.newline (depth + 1) + l.newline depth + 4 * l.colon + 50 +
    match key.revokedAt with
    | none => 0
    | some t => escapedSize t.rfc3339 + l.newline (depth + 1) + l.colon + 15

/-- The bytes of a bundle's text. -/
def bundleSize (bundle : TrustBundle) : Nat :=
  (toString bundle.schemaVersion.toNat).utf8ByteSize + issuerSize l 1 bundle.issuer +
    escapedSize bundle.issuedAt.rfc3339 + escapedSize bundle.validUntil.rfc3339 +
    (toString bundle.sequence.toNat).utf8ByteSize +
    (bundle.keys.map fun key => l.newline 2 + keySize l 2 key).sum + (bundle.keys.length - 1) +
    (if bundle.keys.isEmpty then 0 else l.newline 1) + 6 * l.newline 1 + 6 * l.colon + l.newline 0 +
    77 +
    (match bundle.successor with
      | none => 0
      | some s => issuerSize l 1 s + l.newline 1 + l.colon + 12) +
    match bundle.signature with
      | none => 0
      | some s => escapedSize s + l.newline 1 + l.colon + 14

theorem renderSize_issuer (depth : Nat) (issuer : Issuer) :
    renderSize l depth issuer.toJson = issuerSize l depth issuer := by
  have h₁ : escapedSize "key_id" = 6 := by decide +kernel
  have h₂ : escapedSize "public_key" = 10 := by decide +kernel
  simp only [Issuer.toJson, renderSize, fieldsSize, issuerSize, h₁, h₂, List.isEmpty_cons,
    List.isEmpty_nil, Bool.false_eq_true, if_false, if_true]
  omega

theorem escapedSize_status (status : KeyStatus) : escapedSize (toString status) = 7 := by
  cases status with
  | trusted => decide +kernel
  | revoked => decide +kernel

theorem renderSize_key (depth : Nat) (key : BundledKey) :
    renderSize l depth key.toJson = keySize l depth key := by
  have h₁ : escapedSize "id" = 2 := by decide +kernel
  have h₂ : escapedSize "name" = 4 := by decide +kernel
  have h₃ : escapedSize "public_key" = 10 := by decide +kernel
  have h₄ : escapedSize "status" = 6 := by decide +kernel
  have h₅ : escapedSize "revoked_at" = 10 := by decide +kernel
  cases hdate : key.revokedAt with
  | none =>
    simp only [BundledKey.toJson, keySize, hdate, optionalField, List.append_nil, renderSize,
      fieldsSize, h₁, h₂, h₃, h₄, escapedSize_status, List.isEmpty_cons, List.isEmpty_nil,
      Bool.false_eq_true, if_false, if_true]
    omega
  | some t =>
    simp only [BundledKey.toJson, keySize, hdate, optionalField, List.cons_append,
      List.nil_append, renderSize, fieldsSize, DateTime.toJson, h₁, h₂, h₃, h₄, h₅,
      escapedSize_status, List.isEmpty_cons, List.isEmpty_nil, Bool.false_eq_true, if_false,
      if_true]
    omega

theorem renderSize_bundle (bundle : TrustBundle) :
    renderSize l 0 bundle.toJson = bundleSize l bundle := by
  have h₁ : escapedSize "schema_version" = 14 := by decide +kernel
  have h₂ : escapedSize "issuer" = 6 := by decide +kernel
  have h₃ : escapedSize "issued_at" = 9 := by decide +kernel
  have h₄ : escapedSize "valid_until" = 11 := by decide +kernel
  have h₅ : escapedSize "sequence" = 8 := by decide +kernel
  have h₆ : escapedSize "keys" = 4 := by decide +kernel
  have h₇ : escapedSize "successor" = 9 := by decide +kernel
  have h₈ : escapedSize "signature" = 9 := by decide +kernel
  have hkeys : (bundle.keys.map BundledKey.toJson).isEmpty = bundle.keys.isEmpty := by
    cases bundle.keys with
    | nil => rfl
    | cons key rest => rfl
  have hlist : ∀ key, l.newline 2 + renderSize l 2 (BundledKey.toJson key) =
      l.newline 2 + keySize l 2 key := fun key => by rw [renderSize_key]
  unfold TrustBundle.toJson bundleSize
  cases bundle.successor with
  | none =>
    cases bundle.signature with
    | none =>
      simp only [Nat.zero_add, optionalField, List.append_nil, renderSize, fieldsSize, h₁, h₂, h₃,
        h₄, h₅, h₆, DateTime.toJson, renderSize_issuer, itemsSize_map, hkeys, hlist,
        List.isEmpty_cons, List.isEmpty_nil, Bool.false_eq_true, if_false, if_true]
      omega
    | some s =>
      simp only [Nat.zero_add, optionalField, List.append_nil, List.cons_append, List.nil_append,
        renderSize, fieldsSize, h₁, h₂, h₃, h₄, h₅, h₆, h₈, DateTime.toJson, renderSize_issuer,
        itemsSize_map, hkeys, hlist, List.isEmpty_cons, List.isEmpty_nil, Bool.false_eq_true,
        if_false, if_true]
      omega
  | some successor =>
    cases bundle.signature with
    | none =>
      simp only [Nat.zero_add, optionalField, List.append_nil, List.cons_append, List.nil_append,
        renderSize, fieldsSize, h₁, h₂, h₃, h₄, h₅, h₆, h₇, DateTime.toJson, renderSize_issuer,
        itemsSize_map, hkeys, hlist, List.isEmpty_cons, List.isEmpty_nil, Bool.false_eq_true,
        if_false, if_true]
      omega
    | some s =>
      simp only [Nat.zero_add, optionalField, List.cons_append, List.nil_append, renderSize,
        fieldsSize, h₁, h₂, h₃, h₄, h₅, h₆, h₇, h₈, DateTime.toJson, renderSize_issuer,
        itemsSize_map, hkeys, hlist, List.isEmpty_cons, List.isEmpty_nil, Bool.false_eq_true,
        if_false, if_true]
      omega

/-- The size of a bundle from the sizes of its parts. -/
theorem bundleSize_of_parts {bundle : TrustBundle} {issuer : Nat} {keys : List Nat}
    {successor signature : Option Nat} (hissuer : issuerSize l 1 bundle.issuer = issuer)
    (hkeys : bundle.keys.map (keySize l 2) = keys)
    (hsuccessor : bundle.successor.map (issuerSize l 1) = successor)
    (hsignature : bundle.signature.map escapedSize = signature) :
    bundleSize l bundle = (toString bundle.schemaVersion.toNat).utf8ByteSize + issuer +
      escapedSize bundle.issuedAt.rfc3339 + escapedSize bundle.validUntil.rfc3339 +
      (toString bundle.sequence.toNat).utf8ByteSize +
      (keys.map fun size => l.newline 2 + size).sum + (keys.length - 1) +
      (if keys.isEmpty then 0 else l.newline 1) + 6 * l.newline 1 + 6 * l.colon + l.newline 0 + 77 +
      (successor.elim 0 fun size => size + l.newline 1 + l.colon + 12) +
      signature.elim 0 fun size => size + l.newline 1 + l.colon + 14 := by
  subst hissuer hkeys hsuccessor hsignature
  unfold bundleSize
  rw [List.map_map, List.length_map, List.isEmpty_map]
  cases bundle.successor with
  | none =>
    cases bundle.signature with
    | none => rfl
    | some s => rfl
  | some successor =>
    cases bundle.signature with
    | none => rfl
    | some s => rfl

end Sizes

namespace TrustBundle

/-- `TrustBundle::signing_bytes`; writing plain data as JSON does not fail. -/
def signingBytes (bundle : TrustBundle) : Bytes :=
  let keys := bundle.keys.mergeSort (fun a b => decide (a.id ≤ b.id))
  utf8 (Json.compact { bundle with signature := none, keys := keys }.toJson)

/-- What `write` puts in a file. -/
def written (bundle : TrustBundle) : Bytes := utf8 (bundle.toJson.pretty ++ "\n")

theorem length_written (bundle : TrustBundle) :
    bundle.written.length = bundleSize Json.prettySpacing bundle + 1 := by
  rw [written, length_utf8, String.utf8ByteSize_append, Json.utf8ByteSize_pretty,
    renderSize_bundle]
  rfl

theorem length_compact (bundle : TrustBundle) :
    (utf8 (Json.compact bundle.toJson)).length = bundleSize Json.compactSpacing bundle := by
  rw [length_utf8, Json.utf8ByteSize_compact, renderSize_bundle]

end TrustBundle

end Attest.Trust
