import Attest.Library.Fallible
import Attest.Library.Reader
import Attest.Trust.Signing

/-! The DER of a timestamp token, as `crypto/timestamp.rs` reads it.

A reader stands at the front of some bytes. What it reads is one element: a tag, a length of at
most four bytes, and the contents. The contents are read by a reader of their own, and what is
left behind them is not looked at. -/
namespace Attest.Timestamp
open Library.Fallible Library.Reader
open Trust (Bytes DateTime hexEncode)

/-! ### Errors -/

/-- Why a token is not read or not accepted. -/
inductive TimestampError where
  | malformed (what : String)
  | imprintMismatch
  | unsupported (what : String)
  | badSignature
  | untrustedAuthority
  | notATimestampingCertificate
  | certificateNotValidThen (time : String)
deriving DecidableEq

/-- `Display`. -/
def TimestampError.text : TimestampError → String
  | .malformed what => s!"malformed response from the timestamp authority: {what}"
  | .imprintMismatch => "timestamp token does not cover this signature"
  | .unsupported what => s!"unsupported timestamp token: {what}"
  | .badSignature => "timestamp token signature is not valid"
  | .untrustedAuthority => "no certificate in the token is issued by a pinned authority"
  | .notATimestampingCertificate =>
    "the certificate that signed this token is not authorised to timestamp " ++
      "(RFC 3161 requires the critical id-kp-timeStamping extended key usage)"
  | .certificateNotValidThen time =>
    s!"the signing certificate was not valid at the stated time {time}"

/-! ### Tags and names -/

def tagBoolean : UInt8 := 0x01
def tagInteger : UInt8 := 0x02
def tagBitString : UInt8 := 0x03
def tagOctetString : UInt8 := 0x04
def tagNull : UInt8 := 0x05
def tagOid : UInt8 := 0x06
def tagUtcTime : UInt8 := 0x17
def tagGeneralizedTime : UInt8 := 0x18
def tagSequence : UInt8 := 0x30
def tagSet : UInt8 := 0x31
def tagContext0 : UInt8 := 0xa0
def tagContext3 : UInt8 := 0xa3

def oidSignedData : Bytes := [0x2a, 0x86, 0x48, 0x86, 0xf7, 0x0d, 0x01, 0x07, 0x02]
def oidTstInfo : Bytes := [0x2a, 0x86, 0x48, 0x86, 0xf7, 0x0d, 0x01, 0x09, 0x10, 0x01, 0x04]
def oidExtKeyUsage : Bytes := [0x55, 0x1d, 0x25]
def oidKpTimestamping : Bytes := [0x2b, 0x06, 0x01, 0x05, 0x05, 0x07, 0x03, 0x08]
def oidMessageDigest : Bytes := [0x2a, 0x86, 0x48, 0x86, 0xf7, 0x0d, 0x01, 0x09, 0x04]
def oidSha256 : Bytes := [0x60, 0x86, 0x48, 0x01, 0x65, 0x03, 0x04, 0x02, 0x01]
def oidSha384 : Bytes := [0x60, 0x86, 0x48, 0x01, 0x65, 0x03, 0x04, 0x02, 0x02]
def oidRsaEncryption : Bytes := [0x2a, 0x86, 0x48, 0x86, 0xf7, 0x0d, 0x01, 0x01, 0x01]
def oidRsaSha256 : Bytes := [0x2a, 0x86, 0x48, 0x86, 0xf7, 0x0d, 0x01, 0x01, 0x0b]
def oidRsaSha384 : Bytes := [0x2a, 0x86, 0x48, 0x86, 0xf7, 0x0d, 0x01, 0x01, 0x0c]
def oidCommonName : Bytes := [0x55, 0x04, 0x03]

/-- `SHA256_ALGORITHM_ID`, behind its tag and length. -/
def sha256Algorithm : Bytes := tagOid :: 9 :: oidSha256 ++ [tagNull, 0]

/-! ### One element -/

/-- A number, most significant byte first. -/
def bigEndian (bytes : Bytes) : Nat := bytes.foldl (fun acc b => acc * 256 + b.toNat) 0

def takeLength (first : UInt8) (rest : Bytes) : Except TimestampError (Nat × Bytes) :=
  if first < 0x80 then .ok (first.toNat, rest)
  else
    let count := (first &&& 0x7f).toNat
    if count = 0 ∨ 4 < count then .error (.malformed "unsupported length form")
    else if rest.length < count then .error (.malformed "truncated length")
    else .ok (bigEndian (rest.take count), rest.drop count)

/-- `Der::take`: the contents of the element at the front, and what is behind it. -/
def take (expectedTag : UInt8) : Bytes → Except TimestampError (Bytes × Bytes)
  | [] => .error (.malformed "truncated")
  | tag :: rest =>
    if tag ≠ expectedTag then .error (.malformed "unexpected tag")
    else
      match rest with
      | [] => .error (.malformed "truncated length")
      | first :: rest => do
        let (len, rest) ← takeLength first rest
        if rest.length < len then .error (.malformed "truncated contents")
        else .ok (rest.take len, rest.drop len)

def sequence : Bytes → Except TimestampError (Bytes × Bytes) := take tagSequence

def set : Bytes → Except TimestampError (Bytes × Bytes) := take tagSet

def oid : Bytes → Except TimestampError (Bytes × Bytes) := take tagOid

def octetString : Bytes → Except TimestampError (Bytes × Bytes) := take tagOctetString

/-- `Der::skip_any`. -/
def skipAny (bytes : Bytes) : Except TimestampError (Unit × Bytes) :=
  match bytes.head? with
  | none => .error (.malformed "truncated")
  | some tag => do
    let (_, rest) ← take tag bytes
    return ((), rest)

/-- `Der::element`: the element as it stands, with its tag and its length. -/
def element (expectedTag : UInt8) (bytes : Bytes) : Except TimestampError (Bytes × Bytes) := do
  let (_, rest) ← take expectedTag bytes
  return (bytes.take (bytes.length - rest.length), rest)

/-- The NULL of an algorithm identifier, where there is one. -/
def nullParameters (identifier : Bytes) : Except TimestampError Bytes :=
  if identifier.head? = some tagNull then do
    let (null, identifier) ← take tagNull identifier
    refuseIf (null ≠ []) (.malformed "nonempty NULL algorithm parameters")
    return identifier
  else .ok identifier

/-- `Der::algorithm_oid`: no parameters, or the empty NULL. -/
def algorithmOid (bytes : Bytes) : Except TimestampError (Bytes × Bytes) := do
  let (identifier, rest) ← sequence bytes
  let (oid, identifier) ← oid identifier
  let identifier ← nullParameters identifier
  refuseIf (identifier ≠ []) (.unsupported "algorithm parameters")
  return (oid, rest)

def bitString (bytes : Bytes) : Except TimestampError (Bytes × Bytes) := do
  let (raw, rest) ← take tagBitString bytes
  match raw with
  | [] => .error (.malformed "empty bit string")
  | unused :: contents =>
    if unused ≠ 0 then .error (.unsupported "bit string is not byte-aligned")
    else return (contents, rest)

/-- `Der::integer_bytes`: the zero that keeps a value positive is left out. -/
def integerBytes (bytes : Bytes) : Except TimestampError (Bytes × Bytes) := do
  let (raw, rest) ← take tagInteger bytes
  match raw with
  | [] => .error (.malformed "empty integer")
  | first :: tail => return (if first = 0 then tail else raw, rest)

def integer (bytes : Bytes) : Except TimestampError (Nat × Bytes) := do
  let (raw, rest) ← take tagInteger bytes
  match raw with
  | [] => .error (.malformed "integer out of range")
  | first :: _ =>
    if 8 < raw.length then .error (.malformed "integer out of range")
    else if first &&& 0x80 ≠ 0 then .error (.malformed "negative integer")
    else return (bigEndian raw, rest)

/-! ### What an element is -/

section Elements
variable {tag : UInt8} {bytes contents rest : Bytes}

theorem bigEndian_snoc (b : UInt8) : bigEndian (bytes ++ [b]) = bigEndian bytes * 256 + b.toNat := by
  rw [bigEndian, List.foldl_append]
  rfl

theorem bigEndian_lt : bigEndian bytes < 256 ^ bytes.length := by
  induction bytes using List.reverseRecOn with
  | nil => exact Nat.one_pos
  | append_singleton bytes b ih =>
    have hb := b.toNat_lt
    rw [bigEndian_snoc, List.length_append, List.length_singleton, Nat.pow_succ]
    omega

theorem takeLength_eq_ok {first : UInt8} {len : Nat} (h : takeLength first bytes = .ok (len, rest)) :
    rest <:+ bytes ∧ len < 2 ^ 32 := by
  unfold takeLength at h
  dsimp only at h
  split at h
  next hshort =>
    obtain ⟨rfl, rfl⟩ := Prod.mk.inj (Except.ok.inj h)
    have hfirst := first.toNat_lt
    exact ⟨List.suffix_refl _, by omega⟩
  next =>
    split at h
    next => cases h
    next hcount =>
      split at h
      next => cases h
      next =>
        obtain ⟨rfl, rfl⟩ := Prod.mk.inj (Except.ok.inj h)
        refine ⟨List.drop_suffix _ _, Nat.lt_of_lt_of_le bigEndian_lt ?_⟩
        have hlength : (bytes.take (first &&& 0x7f).toNat).length ≤ 4 := by
          rw [List.length_take]
          omega
        exact (Nat.pow_le_pow_right (by decide) hlength).trans (by decide)

/-- An element: its tag, the bytes of its length, its contents. -/
theorem take_eq_ok (h : take tag bytes = .ok (contents, rest)) :
    ∃ length, length ≠ [] ∧ bytes = tag :: length ++ contents ++ rest ∧
      contents.length < 2 ^ 32 := by
  unfold take at h
  split at h
  next => cases h
  next found behind =>
    split at h
    next => cases h
    next hfound =>
      split at h
      next => cases h
      next first behind =>
        obtain ⟨⟨len, inside⟩, hlen, hcontents⟩ := except_bind_eq_ok.mp h
        obtain ⟨⟨before, rfl⟩, hbound⟩ := takeLength_eq_ok hlen
        dsimp only at hcontents
        split at hcontents
        next => cases hcontents
        next =>
          obtain ⟨rfl, rfl⟩ := Prod.mk.inj (Except.ok.inj hcontents)
          refine ⟨first :: before, List.cons_ne_nil _ _, ?_, ?_⟩
          · rw [not_not.mp hfound, List.append_assoc, List.take_append_drop]
            rfl
          · rw [List.length_take]
            omega

theorem head_of_take (h : take tag bytes = .ok (contents, rest)) : bytes.head? = some tag := by
  obtain ⟨length, _, rfl, _⟩ := take_eq_ok h
  rfl

theorem consumes_take : Consumes (take tag) := by
  intro bytes contents rest h
  obtain ⟨length, _, rfl, _⟩ := take_eq_ok h
  simp
  omega

theorem slices_take : Slices (take tag) := by
  intro bytes contents rest h
  obtain ⟨length, _, rfl, _⟩ := take_eq_ok h
  exact ⟨⟨tag :: length, rest, rfl⟩, ⟨tag :: length ++ contents, rfl⟩⟩

/-- The whole of an element is what is in front of the rest. -/
theorem element_eq_ok {whole : Bytes} (h : element tag bytes = .ok (whole, rest)) :
    ∃ contents, take tag bytes = .ok (contents, rest) ∧ bytes = whole ++ rest := by
  obtain ⟨⟨contents, behind⟩, htake, h⟩ := except_bind_eq_ok.mp h
  obtain ⟨rfl, rfl⟩ := Prod.mk.inj (Except.ok.inj h)
  obtain ⟨length, _, rfl, _⟩ := take_eq_ok htake
  have hwhole : (tag :: length ++ contents ++ behind).length - behind.length =
      (tag :: length ++ contents).length := by
    rw [List.length_append]
    exact Nat.add_sub_cancel _ _
  refine ⟨contents, htake, ?_⟩
  rw [hwhole, List.take_left]

theorem consumes_element : Consumes (element tag) := by
  intro bytes whole rest h
  obtain ⟨contents, htake, _⟩ := element_eq_ok h
  exact consumes_take htake

theorem slices_element : Slices (element tag) := by
  intro bytes whole rest h
  obtain ⟨contents, _, rfl⟩ := element_eq_ok h
  exact ⟨(List.prefix_append _ _).isInfix, List.suffix_append _ _⟩

theorem consumes_skipAny : Consumes skipAny := by
  intro bytes u rest h
  unfold skipAny at h
  split at h
  next => cases h
  next tag _ =>
    obtain ⟨⟨contents, behind⟩, htake, h⟩ := except_bind_eq_ok.mp h
    obtain ⟨_, rfl⟩ := Prod.mk.inj (Except.ok.inj h)
    exact consumes_take htake

theorem consumes_algorithmOid : Consumes algorithmOid := by
  intro bytes name rest h
  obtain ⟨⟨identifier, behind⟩, htake, h⟩ := except_bind_eq_ok.mp h
  obtain ⟨⟨found, parameters⟩, _, h⟩ := except_bind_eq_ok.mp h
  obtain ⟨_, _, h⟩ := except_bind_eq_ok.mp h
  obtain ⟨_, _, h⟩ := except_bind_eq_ok.mp h
  obtain ⟨_, rfl⟩ := Prod.mk.inj (Except.ok.inj h)
  exact consumes_take htake

end Elements

/-! ### Writing an element -/

/-- `usize::to_be_bytes`. -/
def toBeBytes (n : Nat) : Bytes := (List.range 8).map fun i => UInt8.ofNat (n / 256 ^ (7 - i))

/-- A length, as short as it can be. -/
def derLength (len : Nat) : Bytes :=
  if len < 0x80 then [UInt8.ofNat len]
  else
    let trimmed := (toBeBytes len).dropWhile (· == 0)
    (0x80 ||| UInt8.ofNat trimmed.length) :: trimmed

/-- An element with a tag and its contents. -/
def der (tag : UInt8) (contents : Bytes) : Bytes := tag :: derLength contents.length ++ contents

section Written
variable {tag : UInt8} {contents rest : Bytes} {len : Nat}

theorem bigEndian_cons_zero : bigEndian (0 :: contents) = bigEndian contents := rfl

theorem bigEndian_dropWhile : bigEndian (contents.dropWhile (· == 0)) = bigEndian contents := by
  induction contents with
  | nil => rfl
  | cons b contents ih =>
    by_cases hb : b = 0
    · rw [hb, List.dropWhile_cons_of_pos (by rfl), ih, bigEndian_cons_zero]
    · rw [List.dropWhile_cons_of_neg (by simpa using hb)]

theorem toBeBytes_of_lt (h : len < 2 ^ 32) :
    toBeBytes len = [0, 0, 0, 0, UInt8.ofNat (len / 2 ^ 24), UInt8.ofNat (len / 2 ^ 16),
      UInt8.ofNat (len / 2 ^ 8), UInt8.ofNat len] := by
  have hzero : ∀ n, 2 ^ 32 ≤ n → len / n = 0 := fun n hn => Nat.div_eq_of_lt (h.trans_le hn)
  simp [toBeBytes, List.range, List.range.loop, hzero]

theorem bigEndian_toBeBytes (h : len < 2 ^ 32) : bigEndian (toBeBytes len) = len := by
  rw [toBeBytes_of_lt h]
  simp [bigEndian]
  omega

/-- The significant bytes of a long length: one to four of them. -/
theorem length_trimmed (hlong : 0x80 ≤ len) (h : len < 2 ^ 32) :
    ((toBeBytes len).dropWhile (· == 0)).length = 1 ∨
      ((toBeBytes len).dropWhile (· == 0)).length = 2 ∨
      ((toBeBytes len).dropWhile (· == 0)).length = 3 ∨
      ((toBeBytes len).dropWhile (· == 0)).length = 4 := by
  have hvalue : bigEndian ((toBeBytes len).dropWhile (· == 0)) = len := by
    rw [bigEndian_dropWhile, bigEndian_toBeBytes h]
  have hmost : ((toBeBytes len).dropWhile (· == 0)).length ≤ 4 := by
    rw [toBeBytes_of_lt h, List.dropWhile_cons_of_pos (by rfl), List.dropWhile_cons_of_pos (by rfl),
      List.dropWhile_cons_of_pos (by rfl), List.dropWhile_cons_of_pos (by rfl)]
    exact (List.dropWhile_suffix fun b : UInt8 => b == 0).length_le
  have hleast : ((toBeBytes len).dropWhile (· == 0)).length ≠ 0 := by
    intro hnil
    rw [List.length_eq_zero_iff.mp hnil] at hvalue
    exact absurd (hvalue ▸ hlong) (by decide)
  omega

/-- The length that is written is the length that is read. -/
theorem takeLength_derLength (h : len < 2 ^ 32) :
    ∃ first tail, derLength len = first :: tail ∧ takeLength first (tail ++ rest) = .ok (len, rest) := by
  by_cases hshort : len < 0x80
  · refine ⟨UInt8.ofNat len, [], if_pos hshort, ?_⟩
    have hnat : (UInt8.ofNat len).toNat = len := UInt8.toNat_ofNat_of_lt' (hshort.trans (by decide))
    have hlt : UInt8.ofNat len < 0x80 := UInt8.lt_iff_toNat_lt.mpr (by rw [hnat]; exact hshort)
    rw [takeLength, if_pos hlt, hnat]
    rfl
  · have hlength := length_trimmed (Nat.not_lt.mp hshort) h
    have hvalue : bigEndian ((toBeBytes len).dropWhile (· == 0)) = len := by
      rw [bigEndian_dropWhile, bigEndian_toBeBytes h]
    refine ⟨_, _, if_neg hshort, ?_⟩
    generalize (toBeBytes len).dropWhile (· == 0) = trimmed at hlength hvalue
    have hcount : ∀ n ∈ [1, 2, 3, 4], ¬ (0x80 ||| UInt8.ofNat n) < 0x80 ∧
        ((0x80 ||| UInt8.ofNat n) &&& 0x7f).toNat = n ∧ ¬ (n = 0 ∨ 4 < n) := by decide
    obtain ⟨hlong, hn, hform⟩ := hcount trimmed.length (by simpa using hlength)
    unfold takeLength
    rw [if_neg hlong, hn, if_neg hform, if_neg (by simp), List.take_left, List.drop_left, hvalue]

/-- A number that does not begin with a zero takes all of its bytes. -/
theorem le_bigEndian (hne : contents ≠ []) (hhead : contents.head? ≠ some 0) :
    256 ^ (contents.length - 1) ≤ bigEndian contents := by
  induction contents using List.reverseRecOn with
  | nil => exact absurd rfl hne
  | append_singleton front b ih =>
    rw [bigEndian_snoc, List.length_append, List.length_singleton, Nat.add_sub_cancel]
    cases front with
    | nil =>
      have hb : b.toNat ≠ 0 := fun hzero => hhead (congrArg some (UInt8.toNat_inj.mp hzero))
      show 1 ≤ bigEndian [] * 256 + b.toNat
      omega
    | cons first more =>
      have hfront := ih (List.cons_ne_nil _ _) hhead
      rw [List.length_cons, Nat.add_sub_cancel] at hfront
      rw [List.length_cons, Nat.pow_succ]
      omega

/-- The field of a length in DER: one byte for what fits in seven bits, else the number of bytes and
the bytes without leading zeros. No field that is read as this length is shorter. -/
structure IsDerLength (len : Nat) (field : Bytes) : Prop where
  short : len < 0x80 → field = [UInt8.ofNat len]
  long : 0x80 ≤ len → ∃ digits, field = (0x80 ||| UInt8.ofNat digits.length) :: digits ∧
    1 ≤ digits.length ∧ digits.length ≤ 4 ∧ digits.head? ≠ some 0 ∧ bigEndian digits = len
  shortest : ∀ first tail, takeLength first tail = .ok (len, []) →
    field.length ≤ (first :: tail).length

theorem isDerLength_derLength (h : len < 2 ^ 32) : IsDerLength len (derLength len) := by
  have hlong (hlen : 0x80 ≤ len) : ∃ digits,
      derLength len = (0x80 ||| UInt8.ofNat digits.length) :: digits ∧ 1 ≤ digits.length ∧
        digits.length ≤ 4 ∧ digits.head? ≠ some 0 ∧ bigEndian digits = len := by
    have hlength := length_trimmed hlen h
    refine ⟨_, if_neg (Nat.not_lt.mpr hlen), by omega, by omega, ?_, ?_⟩
    · intro hzero
      have hfirst := List.head?_dropWhile_not (fun b : UInt8 => b == 0) (toBeBytes len)
      rw [hzero] at hfirst
      exact absurd hfirst (by decide)
    · rw [bigEndian_dropWhile, bigEndian_toBeBytes h]
  refine ⟨fun hlen => if_pos hlen, hlong, ?_⟩
  intro first tail hread
  by_cases hlen : len < 0x80
  · rw [derLength, if_pos hlen]
    exact Nat.succ_le_succ (Nat.zero_le _)
  · obtain ⟨digits, hfield, hpos, -, hhead, hvalue⟩ := hlong (Nat.not_lt.mp hlen)
    have hdigits := le_bigEndian (List.length_pos_iff.mp hpos) hhead
    have hlt : len < 256 ^ tail.length := by
      rw [takeLength] at hread
      split at hread
      next hfirst =>
        obtain ⟨rfl, -⟩ := Prod.mk.inj (Except.ok.inj hread)
        exact absurd (UInt8.lt_iff_toNat_lt.mp hfirst) hlen
      next =>
        dsimp only at hread
        split at hread
        · cases hread
        · split at hread
          · cases hread
          · obtain ⟨rfl, -⟩ := Prod.mk.inj (Except.ok.inj hread)
            exact bigEndian_lt.trans_le
              (Nat.pow_le_pow_right (by decide) (List.length_take_le' _ _))
    have hpow := (hvalue ▸ hdigits).trans_lt hlt
    have hle := (Nat.pow_lt_pow_iff_right (by decide)).mp hpow
    rw [hfield, List.length_cons, List.length_cons]
    omega

/-- An element that was written is read back, with what is behind it. -/
theorem take_der (h : contents.length < 2 ^ 32) :
    take tag (der tag contents ++ rest) = .ok (contents, rest) := by
  obtain ⟨first, tail, hlength, hread⟩ := @takeLength_derLength (contents ++ rest) _ h
  rw [der, hlength]
  show take tag (tag :: first :: (tail ++ contents ++ rest)) = _
  rw [List.append_assoc, take, if_neg (not_not.mpr rfl), hread]
  show (if (contents ++ rest).length < contents.length then _ else _) = _
  rw [if_neg (by simp), List.take_left, List.drop_left]

end Written

end Attest.Timestamp
