import Attest.Timestamp.Der

/-! Timestamp tokens, as `crypto/timestamp.rs` verifies them.

A token is walked twice: `parseToken` reads what it says, and `SignedDataParts.parse` gathers what
is signed. `verified_token_proves_time` says that both have read the same bytes, and what is known
of the time in them. -/
namespace Attest.Timestamp
open Library.Fallible Library.Reader
open Trust (Bytes DateTime hexEncode)

/-- `ring` and `chrono`. -/
structure TimestampCrates where
  sha256 : Bytes → Vector UInt8 32
  sha384 : Bytes → Vector UInt8 48
  /-- `RSA_PKCS1_2048_8192_SHA256`, of a public key, a message and a signature. -/
  verifyRsaSha256 : Bytes → Bytes → Bytes → Bool
  /-- `RSA_PKCS1_2048_8192_SHA384`. -/
  verifyRsaSha384 : Bytes → Bytes → Bytes → Bool
  /-- `NaiveDateTime::parse_from_str` with `%Y%m%d%H%M%S`, in UTC. -/
  parseNaive : String → Option DateTime

def textOf (raw : Bytes) : Option String := String.fromUTF8? ⟨raw.toArray⟩

section Reading
variable (c : TimestampCrates)

/-! ### Times -/

/-- What is in front of the `Z` that a text ends with. -/
def stripZ (text : String) : Option (List Char) :=
  if text.toList.getLast? = some 'Z' then some text.toList.dropLast else none

/-- A fraction is cut off. -/
def parseGeneralizedTime (raw : Bytes) : Except TimestampError DateTime :=
  match textOf raw with
  | none => .error (.malformed "genTime is not ASCII")
  | some text =>
    match stripZ text with
    | none => .error (.unsupported "genTime is not UTC")
    | some stripped =>
      match c.parseNaive (String.ofList (stripped.takeWhile (· ≠ '.'))) with
      | none => .error (.malformed "genTime is not a valid instant")
      | some time => .ok time

/-- The year of two digits is between 1950 and 2049. -/
def parseUtcTime (raw : Bytes) : Except TimestampError DateTime :=
  match textOf raw with
  | none => .error (.malformed "UTCTime is not ASCII")
  | some text =>
    match stripZ text with
    | none => .error (.unsupported "UTCTime is not UTC")
    | some stripped =>
      if stripped.length ≠ 12 ∨ ¬ stripped.all Char.isDigit then
        .error (.unsupported "unsupported UTCTime form")
      else
        let twoDigit := Nat.ofDigitChars 10 (stripped.take 2) 0
        let century := if 50 ≤ twoDigit then 1900 else 2000
        let full := toString (century + twoDigit) ++ String.ofList (stripped.drop 2)
        match c.parseNaive full with
        | none => .error (.malformed "UTCTime is not a valid instant")
        | some time => .ok time

/-- `Der::time`. -/
def time (bytes : Bytes) : Except TimestampError (DateTime × Bytes) :=
  if bytes.head? = some tagUtcTime then do
    let (raw, rest) ← take tagUtcTime bytes
    return (← parseUtcTime c raw, rest)
  else if bytes.head? = some tagGeneralizedTime then do
    let (raw, rest) ← take tagGeneralizedTime bytes
    return (← parseGeneralizedTime c raw, rest)
  else .error (.malformed "expected a time")

/-! ### What a token says -/

/-- One more byte of an object identifier: its arcs so far, and the arc that is being read. -/
def oidByte (state : List String × Nat) (byte : UInt8) : Except TimestampError (List String × Nat) :=
  if 2 ^ 57 ≤ state.2 then .error (.malformed "OID arc overflows")
  else
    let value := state.2 * 128 + byte.toNat % 128
    if byte < 0x80 then .ok (state.1 ++ [toString value], 0) else .ok (state.1, value)

def oidToDotted : Bytes → Except TimestampError String
  | [] => .error (.malformed "empty OID")
  | first :: rest => do
    let (parts, value) ← rest.foldlM oidByte ([toString (first / 40), toString (first % 40)], 0)
    refuseIf (value ≠ 0) (.malformed "truncated OID arc")
    return ".".intercalate parts

structure TimestampInfo where
  genTime : DateTime
  policy : String
  serial : String
deriving DecidableEq

/-- `encapsulated_tst_info`. -/
def encapsulatedTstInfo (token : Bytes) : Except TimestampError Bytes := do
  let (contentInfo, _) ← sequence token
  let (contentType, contentInfo) ← oid contentInfo
  refuseIf (contentType ≠ oidSignedData) (.malformed "token is not a signedData")
  let (explicit, _) ← take tagContext0 contentInfo
  let (signedData, _) ← sequence explicit
  let (version, signedData) ← integer signedData
  refuseIf (version = 0) (.unsupported "SignedData version 0")
  let (_, signedData) ← set signedData
  let (encap, _) ← sequence signedData
  let (contentType, encap) ← oid encap
  refuseIf (contentType ≠ oidTstInfo) (.malformed "token does not encapsulate a TSTInfo")
  let (explicit, _) ← take tagContext0 encap
  let (tstInfo, _) ← octetString explicit
  return tstInfo

/-- The bytes of `genTime` in a `TSTInfo`, with what stands before them. -/
def readTstInfo (tstInfo : Bytes) (expectedImprint : Vector UInt8 32) :
    Except TimestampError (String × String × Bytes) := do
  let (info, _) ← sequence tstInfo
  let (_, info) ← integer info
  let (policy, info) ← oid info
  let policy ← oidToDotted policy
  let (imprint, info) ← sequence info
  let (algorithm, imprint) ← sequence imprint
  refuseIf (algorithm ≠ sha256Algorithm)
    (.unsupported "timestamp uses a digest algorithm other than SHA-256")
  let (hashed, _) ← octetString imprint
  refuseIf (hashed ≠ expectedImprint.toList) .imprintMismatch
  let (serial, info) ← integerBytes info
  let (genTime, _) ← take tagGeneralizedTime info
  return (policy, hexEncode serial, genTime)

/-- What a `TSTInfo` says, when it covers the imprint. -/
def parseTstInfo (tstInfo : Bytes) (expectedImprint : Vector UInt8 32) :
    Except TimestampError TimestampInfo := do
  let (policy, serial, raw) ← readTstInfo tstInfo expectedImprint
  let genTime ← parseGeneralizedTime c raw
  return ⟨genTime, policy, serial⟩

def parseToken (token : Bytes) (expectedImprint : Vector UInt8 32) :
    Except TimestampError TimestampInfo := do
  let tstInfo ← encapsulatedTstInfo token
  parseTstInfo c tstInfo expectedImprint

/-! ### What is signed -/

inductive Sha2Algorithm where
  | sha256
  | sha384
deriving DecidableEq

def Sha2Algorithm.fromDigestOid (oid : Bytes) : Except TimestampError Sha2Algorithm :=
  if oid = oidSha256 then .ok .sha256
  else if oid = oidSha384 then .ok .sha384
  else .error (.unsupported "CMS digest algorithm")

def Sha2Algorithm.fromRsaOid (oid : Bytes) : Except TimestampError Sha2Algorithm :=
  if oid = oidRsaSha256 then .ok .sha256
  else if oid = oidRsaSha384 then .ok .sha384
  else .error (.unsupported "RSA signature algorithm")

def Sha2Algorithm.digest (bytes : Bytes) : Sha2Algorithm → Bytes
  | .sha256 => (c.sha256 bytes).toList
  | .sha384 => (c.sha384 bytes).toList

def Sha2Algorithm.verifyRsa (publicKey message signature : Bytes) : Sha2Algorithm → Bool
  | .sha256 => c.verifyRsaSha256 publicKey message signature
  | .sha384 => c.verifyRsaSha384 publicKey message signature

/-- `retag_as_set`. -/
def retagAsSet (contents : Bytes) : Bytes := der tagSet contents

/-- **The set that is signed over is read back, and no other contents give it.** -/
theorem retag_take (contents : Bytes) (h : contents.length < 2 ^ 32) :
    set (retagAsSet contents) = .ok (contents, []) ∧
      (∃ field, retagAsSet contents = tagSet :: (field ++ contents) ∧
        IsDerLength contents.length field) ∧
      ∀ contents', contents'.length < 2 ^ 32 → retagAsSet contents' = retagAsSet contents →
        contents' = contents := by
  have hread {contents : Bytes} (h : contents.length < 2 ^ 32) :
      set (retagAsSet contents) = .ok (contents, []) := by
    have htake := @take_der tagSet contents [] h
    rw [List.append_nil] at htake
    exact htake
  refine ⟨hread h, ⟨_, rfl, isDerLength_derLength h⟩, ?_⟩
  intro contents' h' hsame
  have hboth := (hread h').symm.trans ((congrArg set hsame).trans (hread h))
  exact (Prod.mk.inj (Except.ok.inj hboth)).1

theorem retag_take_sample :
    set (retagAsSet (List.replicate 128 0)) = .ok (List.replicate 128 0, []) :=
  (retag_take (List.replicate 128 0) (by rw [List.length_replicate]; decide)).1

structure SignedDataParts where
  econtent : Bytes
  certificates : List Bytes
  signedAttrs : Bytes
  messageDigestAttr : Bytes
  signature : Bytes
  digestAlgorithm : Sha2Algorithm

/-- The value of the first `message-digest` among attributes. -/
def findMessageDigest : List Bytes → Except TimestampError Bytes
  | [] => .error (.malformed "no message-digest attribute")
  | attr :: rest => do
    let (id, attr) ← oid attr
    let (values, _) ← set attr
    if id = oidMessageDigest then do
      let (value, _) ← octetString values
      return value
    else findMessageDigest rest

def messageDigestAttribute (signedAttrs : Bytes) : Except TimestampError Bytes :=
  findMessageDigest (readAll sequence signedAttrs)

def readDigestAlgorithm (bytes : Bytes) : Except TimestampError (Sha2Algorithm × Bytes) := do
  let (oid, rest) ← algorithmOid bytes
  return (← Sha2Algorithm.fromDigestOid oid, rest)

/-- A plain RSA signature takes the digest there is; another must name the same one. -/
def checkSignatureOid (oid : Bytes) (digest : Sha2Algorithm) : Except TimestampError Unit :=
  if oid = oidRsaEncryption then .ok ()
  else do
    let algorithm ← Sha2Algorithm.fromRsaOid oid
    refuseIf (algorithm ≠ digest) (.malformed "CMS signature and digest algorithms differ")

def SignedDataParts.parse (token : Bytes) : Except TimestampError SignedDataParts := do
  let (contentInfo, _) ← sequence token
  let (contentType, contentInfo) ← oid contentInfo
  refuseIf (contentType ≠ oidSignedData) (.malformed "token is not a signedData")
  let (explicit, _) ← take tagContext0 contentInfo
  let (signedData, _) ← sequence explicit
  let (_, signedData) ← integer signedData
  let (algorithms, signedData) ← set signedData
  let declaredDigests ← readEach readDigestAlgorithm algorithms
  let (encap, signedData) ← sequence signedData
  let (contentType, encap) ← oid encap
  refuseIf (contentType ≠ oidTstInfo) (.malformed "not a TSTInfo")
  let (explicit, _) ← take tagContext0 encap
  let (econtent, _) ← octetString explicit
  let (certs, signedData) ← take tagContext0 signedData
  let certificates := readAll (element tagSequence) certs
  refuseIf (certificates = [])
    (.unsupported "token carries no certificate; it cannot be verified offline")
  let (signerInfos, _) ← set signedData
  let (signer, _) ← sequence signerInfos
  let (_, signer) ← integer signer
  let (_, signer) ← skipAny signer
  let (digestAlgorithm, signer) ← readDigestAlgorithm signer
  refuseIf (digestAlgorithm ∉ declaredDigests) (.malformed "CMS digest algorithm is not declared")
  let (signedAttrs, signer) ← take tagContext0 signer
  let messageDigestAttr ← messageDigestAttribute signedAttrs
  let (signatureOid, signer) ← algorithmOid signer
  checkSignatureOid signatureOid digestAlgorithm
  let (signature, _) ← octetString signer
  return ⟨econtent, certificates, signedAttrs, messageDigestAttr, signature, digestAlgorithm⟩

/-! ### Certificates -/

structure Certificate where
  tbs : Bytes
  issuer : Bytes
  subject : Bytes
  publicKey : Bytes
  signature : Bytes
  signatureAlgorithm : Sha2Algorithm
  notBefore : DateTime
  notAfter : DateTime
  allowsTimestamping : Bool

/-- `critical`, which is false where it is left out. -/
def readCritical (extension : Bytes) : Except TimestampError (Bool × Bytes) :=
  if extension.head? = some tagBoolean then do
    let (value, rest) ← take tagBoolean extension
    return (value.head?.any (· != 0), rest)
  else .ok (false, extension)

/-- One extension. The last extended key usage is the one that counts. -/
def readExtension (allows : Bool) (extension : Bytes) : Except TimestampError Bool := do
  let (id, extension) ← oid extension
  let (critical, extension) ← readCritical extension
  let (value, _) ← octetString extension
  if id ≠ oidExtKeyUsage then return allows
  else do
    let (purposes, _) ← sequence value
    return critical && readAll oid purposes == [oidKpTimestamping]

/-- The extensions behind the fields of a certificate. -/
def readExtensions (fields : Bytes) : Except TimestampError Bool := do
  let fields ← skipWhile (· != tagContext3) skipAny fields
  if fields = [] then return false
  else do
    let (explicit, _) ← take tagContext3 fields
    let (extensions, _) ← sequence explicit
    (readAll sequence extensions).foldlM readExtension false

/-- The version, which is left out in the first. -/
def skipVersion (fields : Bytes) : Except TimestampError Bytes :=
  if fields.head? = some tagContext0 then do
    let (_, fields) ← take tagContext0 fields
    return fields
  else .ok fields

def Certificate.parse (der : Bytes) : Except TimestampError Certificate := do
  let (certificate, _) ← sequence der
  let (tbs, certificate) ← element tagSequence certificate
  let (signatureOid, certificate) ← algorithmOid certificate
  let signatureAlgorithm ← Sha2Algorithm.fromRsaOid signatureOid
  let (signature, _) ← bitString certificate
  let (fields, _) ← sequence tbs
  let fields ← skipVersion fields
  let (_, fields) ← skipAny fields
  let (innerOid, fields) ← algorithmOid fields
  refuseIf (innerOid ≠ signatureOid) (.malformed "certificate signature algorithms differ")
  let (issuer, fields) ← element tagSequence fields
  let (validity, fields) ← sequence fields
  let (notBefore, validity) ← time c validity
  let (notAfter, _) ← time c validity
  let (subject, fields) ← element tagSequence fields
  let (spki, fields) ← sequence fields
  let (_, spki) ← sequence spki
  let (publicKey, _) ← bitString spki
  let allowsTimestamping ← readExtensions fields
  return ⟨tbs, issuer, subject, publicKey, signature, signatureAlgorithm, notBefore, notAfter,
    allowsTimestamping⟩

/-- The common name among the pairs of one relative name. -/
def commonNameIn : List Bytes → Option String
  | [] => none
  | pair :: rest =>
    match oid pair with
    | .error _ => none
    | .ok (id, pair) =>
      match pair.head? with
      | none => none
      | some tag =>
        match take tag pair with
        | .error _ => none
        | .ok (value, _) =>
          if id = oidCommonName then (textOf value).orElse fun _ => commonNameIn rest
          else commonNameIn rest

def commonName (der : Bytes) : String :=
  match sequence der with
  | .error _ => "unnamed authority"
  | .ok (name, _) =>
    ((readAll set name).findSome? fun rdn => commonNameIn (readAll sequence rdn)).getD
      "unnamed authority"

/-! ### Verification -/

structure VerifiedTimestamp where
  info : TimestampInfo
  signer : String
deriving DecidableEq

/-- The certificate has issued the other one. -/
def issued (signer issuer : Certificate) : Bool :=
  issuer.subject == signer.issuer &&
    signer.signatureAlgorithm.verifyRsa c issuer.publicKey signer.tbs signer.signature

def issuedByPinned (pinnedIssuers : List Bytes) (signer : Certificate) : Bool :=
  pinnedIssuers.any fun issuerDer =>
    match Certificate.parse c issuerDer with
    | .ok issuer => issued c signer issuer
    | .error _ => false

/-- The signer is the first of the embedded certificates that verifies the signature. -/
def findSigner (parts : SignedDataParts) : Except TimestampError Certificate := do
  let certificates ← parts.certificates.mapM (Certificate.parse c)
  match certificates.find? fun cert =>
      parts.digestAlgorithm.verifyRsa c cert.publicKey (retagAsSet parts.signedAttrs)
        parts.signature with
  | none => .error .badSignature
  | some signer => .ok signer

def verifyToken (token : Bytes) (expectedImprint : Vector UInt8 32) (pinnedIssuers : List Bytes) :
    Except TimestampError VerifiedTimestamp := do
  let info ← parseToken c token expectedImprint
  let parts ← SignedDataParts.parse token
  refuseIf (parts.messageDigestAttr ≠ parts.digestAlgorithm.digest c parts.econtent)
    (.malformed "signed attributes do not describe this TSTInfo")
  let signer ← findSigner c parts
  refuseIf (signer.allowsTimestamping = false) .notATimestampingCertificate
  refuseIf (issuedByPinned c pinnedIssuers signer = false) .untrustedAuthority
  refuseIf (info.genTime < signer.notBefore ∨ signer.notAfter < info.genTime)
    (.certificateNotValidThen info.genTime.toRfc3339)
  return ⟨info, commonName signer.subject⟩

end Reading

/-! ### The two walks -/

section Walks
variable {token tstInfo : Bytes} {parts : SignedDataParts}

theorem integer_eq_ok {bytes rest : Bytes} {n : Nat} (h : integer bytes = .ok (n, rest)) :
    rest <:+ bytes := by
  obtain ⟨⟨raw, behind⟩, htake, h⟩ := except_bind_eq_ok.mp h
  dsimp only at h
  split at h
  next => cases h
  next =>
    split at h
    next => cases h
    next =>
      split at h
      next => cases h
      next =>
        obtain ⟨_, rfl⟩ := Prod.mk.inj (Except.ok.inj h)
        exact (slices_take htake).2

theorem integerBytes_eq_ok {bytes value rest : Bytes} (h : integerBytes bytes = .ok (value, rest)) :
    rest <:+ bytes := by
  obtain ⟨⟨raw, behind⟩, htake, h⟩ := except_bind_eq_ok.mp h
  dsimp only at h
  split at h
  next => cases h
  next =>
    obtain ⟨_, rfl⟩ := Prod.mk.inj (Except.ok.inj h)
    exact (slices_take htake).2

/-- The way to a `TSTInfo`: what is left behind the version and behind the `TSTInfo` itself. -/
structure Encapsulated (token tstInfo versioned behind : Bytes) : Prop where
  start : ∃ contentInfo contents explicit signedData version rest₁ rest₂ rest₃,
    sequence token = .ok (contentInfo, rest₁) ∧
      oid contentInfo = .ok (oidSignedData, contents) ∧
      take tagContext0 contents = .ok (explicit, rest₂) ∧
      sequence explicit = .ok (signedData, rest₃) ∧
      integer signedData = .ok (version, versioned)
  info : ∃ algorithms inside encap contents explicit rest₁ rest₂,
    set versioned = .ok (algorithms, inside) ∧ sequence inside = .ok (encap, behind) ∧
      oid encap = .ok (oidTstInfo, contents) ∧
      take tagContext0 contents = .ok (explicit, rest₁) ∧
      octetString explicit = .ok (tstInfo, rest₂)

/-- There is one way. -/
theorem Encapsulated.unique {tstInfo' versioned versioned' behind behind' : Bytes}
    (h : Encapsulated token tstInfo versioned behind)
    (h' : Encapsulated token tstInfo' versioned' behind') : tstInfo = tstInfo' := by
  obtain ⟨⟨_, _, _, _, _, _, _, _, htoken, htype, hcontent, hdata, hversion⟩,
    _, _, _, _, _, _, _, hset, hencap, hinfo, hexplicit, hstring⟩ := h
  obtain ⟨⟨_, _, _, _, _, _, _, _, htoken', htype', hcontent', hdata', hversion'⟩,
    _, _, _, _, _, _, _, hset', hencap', hinfo', hexplicit', hstring'⟩ := h'
  cases htoken.symm.trans htoken'
  cases htype.symm.trans htype'
  cases hcontent.symm.trans hcontent'
  cases hdata.symm.trans hdata'
  cases hversion.symm.trans hversion'
  cases hset.symm.trans hset'
  cases hencap.symm.trans hencap'
  cases hinfo.symm.trans hinfo'
  cases hexplicit.symm.trans hexplicit'
  cases hstring.symm.trans hstring'
  rfl

/-- What is on the way is in the token. -/
theorem Encapsulated.inside {versioned behind : Bytes}
    (h : Encapsulated token tstInfo versioned behind) : tstInfo <:+: token ∧ behind <:+: token := by
  obtain ⟨⟨_, _, _, _, _, _, _, _, htoken, htype, hcontent, hdata, hversion⟩,
    _, _, _, _, _, _, _, hset, hencap, hinfo, hexplicit, hstring⟩ := h
  have hversioned : versioned <:+: token :=
    (integer_eq_ok hversion).isInfix.trans <| (slices_take hdata).1.trans <|
      (slices_take hcontent).1.trans <| (slices_take htype).2.isInfix.trans (slices_take htoken).1
  have hset : _ <:+: token := (slices_take hset).2.isInfix.trans hversioned
  refine ⟨?_, (slices_take hencap).2.isInfix.trans hset⟩
  exact (slices_take hstring).1.trans <| (slices_take hexplicit).1.trans <|
    (slices_take hinfo).2.isInfix.trans <| (slices_take hencap).1.trans hset

theorem encapsulatedTstInfo_eq_ok (h : encapsulatedTstInfo token = .ok tstInfo) :
    ∃ versioned behind, Encapsulated token tstInfo versioned behind := by
  obtain ⟨⟨contentInfo, rest₁⟩, htoken, h⟩ := except_bind_eq_ok.mp h
  obtain ⟨⟨contentType, contents⟩, htype, h⟩ := except_bind_eq_ok.mp h
  obtain ⟨_, hsigned, h⟩ := except_bind_eq_ok.mp h
  obtain ⟨⟨explicit, rest₂⟩, hcontent, h⟩ := except_bind_eq_ok.mp h
  obtain ⟨⟨signedData, rest₃⟩, hdata, h⟩ := except_bind_eq_ok.mp h
  obtain ⟨⟨version, versioned⟩, hversion, h⟩ := except_bind_eq_ok.mp h
  obtain ⟨_, _, h⟩ := except_bind_eq_ok.mp h
  obtain ⟨⟨algorithms, inside⟩, hset, h⟩ := except_bind_eq_ok.mp h
  obtain ⟨⟨encap, behind⟩, hencap, h⟩ := except_bind_eq_ok.mp h
  obtain ⟨⟨infoType, info⟩, hinfo, h⟩ := except_bind_eq_ok.mp h
  obtain ⟨_, htst, h⟩ := except_bind_eq_ok.mp h
  obtain ⟨⟨octets, rest₄⟩, hexplicit, h⟩ := except_bind_eq_ok.mp h
  obtain ⟨⟨found, rest₅⟩, hstring, h⟩ := except_bind_eq_ok.mp h
  cases h
  obtain rfl := not_not.mp (refuseIf_eq_ok.mp hsigned)
  obtain rfl := not_not.mp (refuseIf_eq_ok.mp htst)
  exact ⟨versioned, behind, ⟨contentInfo, contents, explicit, signedData, version, rest₁, rest₂,
    rest₃, htoken, htype, hcontent, hdata, hversion⟩,
    algorithms, inside, encap, info, octets, rest₄, rest₅, hset, hencap, hinfo, hexplicit, hstring⟩

/-- What the second walk gathers: the same contents, certificates and attributes of the token, and
the digest among the attributes. -/
theorem parse_eq_ok (h : SignedDataParts.parse token = .ok parts) :
    (∃ versioned behind, Encapsulated token parts.econtent versioned behind) ∧
      (∀ certificate ∈ parts.certificates, certificate <:+: token) ∧
      parts.signedAttrs.length < 2 ^ 32 ∧
      messageDigestAttribute parts.signedAttrs = .ok parts.messageDigestAttr := by
  obtain ⟨⟨contentInfo, rest₁⟩, htoken, h⟩ := except_bind_eq_ok.mp h
  obtain ⟨⟨contentType, contents⟩, htype, h⟩ := except_bind_eq_ok.mp h
  obtain ⟨_, hsigned, h⟩ := except_bind_eq_ok.mp h
  obtain ⟨⟨explicit, rest₂⟩, hcontent, h⟩ := except_bind_eq_ok.mp h
  obtain ⟨⟨signedData, rest₃⟩, hdata, h⟩ := except_bind_eq_ok.mp h
  obtain ⟨⟨version, versioned⟩, hversion, h⟩ := except_bind_eq_ok.mp h
  obtain ⟨⟨algorithms, inside⟩, hset, h⟩ := except_bind_eq_ok.mp h
  obtain ⟨declared, _, h⟩ := except_bind_eq_ok.mp h
  obtain ⟨⟨encap, behind⟩, hencap, h⟩ := except_bind_eq_ok.mp h
  obtain ⟨⟨infoType, info⟩, hinfo, h⟩ := except_bind_eq_ok.mp h
  obtain ⟨_, htst, h⟩ := except_bind_eq_ok.mp h
  obtain ⟨⟨octets, rest₄⟩, hexplicit, h⟩ := except_bind_eq_ok.mp h
  obtain ⟨⟨econtent, rest₅⟩, hstring, h⟩ := except_bind_eq_ok.mp h
  obtain ⟨⟨certs, afterCerts⟩, hcerts, h⟩ := except_bind_eq_ok.mp h
  obtain ⟨_, _, h⟩ := except_bind_eq_ok.mp h
  obtain ⟨⟨signerInfos, _⟩, _, h⟩ := except_bind_eq_ok.mp h
  obtain ⟨⟨signer, _⟩, _, h⟩ := except_bind_eq_ok.mp h
  obtain ⟨_, _, h⟩ := except_bind_eq_ok.mp h
  obtain ⟨_, _, h⟩ := except_bind_eq_ok.mp h
  obtain ⟨⟨digestAlgorithm, signer⟩, _, h⟩ := except_bind_eq_ok.mp h
  obtain ⟨_, _, h⟩ := except_bind_eq_ok.mp h
  obtain ⟨⟨signedAttrs, signer⟩, hattrs, h⟩ := except_bind_eq_ok.mp h
  obtain ⟨messageDigest, hdigest, h⟩ := except_bind_eq_ok.mp h
  obtain ⟨⟨signatureOid, signer⟩, _, h⟩ := except_bind_eq_ok.mp h
  obtain ⟨_, _, h⟩ := except_bind_eq_ok.mp h
  obtain ⟨⟨signature, _⟩, _, h⟩ := except_bind_eq_ok.mp h
  cases h
  obtain rfl := not_not.mp (refuseIf_eq_ok.mp hsigned)
  obtain rfl := not_not.mp (refuseIf_eq_ok.mp htst)
  have hway : Encapsulated token econtent versioned behind :=
    ⟨⟨contentInfo, contents, explicit, signedData, version, rest₁, rest₂, rest₃, htoken, htype,
      hcontent, hdata, hversion⟩,
      algorithms, inside, encap, info, octets, rest₄, rest₅, hset, hencap, hinfo, hexplicit, hstring⟩
  obtain ⟨_, _, _, hbound⟩ := take_eq_ok hattrs
  refine ⟨⟨versioned, behind, hway⟩, ?_, hbound, hdigest⟩
  intro certificate hcertificate
  exact (infix_of_mem_readAll slices_element hcertificate).trans <|
    (slices_take hcerts).1.trans hway.inside.2

/-- A `TSTInfo` that is read holds the imprint and the time. -/
theorem readTstInfo_eq_ok {imprint : Vector UInt8 32} {policy serial : String} {raw : Bytes}
    (h : readTstInfo tstInfo imprint = .ok (policy, serial, raw)) :
    imprint.toList <:+: tstInfo ∧ raw <:+: tstInfo := by
  obtain ⟨⟨info, _⟩, hinfo, h⟩ := except_bind_eq_ok.mp h
  obtain ⟨⟨_, versioned⟩, hversion, h⟩ := except_bind_eq_ok.mp h
  obtain ⟨⟨_, named⟩, hpolicy, h⟩ := except_bind_eq_ok.mp h
  obtain ⟨_, _, h⟩ := except_bind_eq_ok.mp h
  obtain ⟨⟨covered, stamped⟩, hcovered, h⟩ := except_bind_eq_ok.mp h
  obtain ⟨⟨_, hashes⟩, halgorithm, h⟩ := except_bind_eq_ok.mp h
  obtain ⟨_, _, h⟩ := except_bind_eq_ok.mp h
  obtain ⟨⟨hashed, _⟩, hhashed, h⟩ := except_bind_eq_ok.mp h
  obtain ⟨_, hsame, h⟩ := except_bind_eq_ok.mp h
  obtain ⟨⟨_, numbered⟩, hserial, h⟩ := except_bind_eq_ok.mp h
  obtain ⟨⟨found, _⟩, htime, h⟩ := except_bind_eq_ok.mp h
  cases h
  obtain rfl := not_not.mp (refuseIf_eq_ok.mp hsame)
  have hnamed : named <:+: tstInfo :=
    (slices_take hpolicy).2.isInfix.trans <| (integer_eq_ok hversion).isInfix.trans (slices_take hinfo).1
  refine ⟨?_, ?_⟩
  · exact (slices_take hhashed).1.trans <| (slices_take halgorithm).2.isInfix.trans <|
      (slices_take hcovered).1.trans hnamed
  · exact (slices_take htime).1.trans <| (integerBytes_eq_ok hserial).isInfix.trans <|
      (slices_take hcovered).2.isInfix.trans hnamed

end Walks

/-! ### What a verified token proves -/

section Proof
variable {c : TimestampCrates} {token : Bytes} {imprint : Vector UInt8 32} {pinned : List Bytes}
  {parts : SignedDataParts} {signer : Certificate} {v : VerifiedTimestamp}

theorem findSigner_eq_ok (h : findSigner c parts = .ok signer) :
    (∃ der ∈ parts.certificates, Certificate.parse c der = .ok signer) ∧
      parts.digestAlgorithm.verifyRsa c signer.publicKey (retagAsSet parts.signedAttrs)
        parts.signature = true := by
  obtain ⟨certificates, hparsed, h⟩ := except_bind_eq_ok.mp h
  split at h
  next => cases h
  next found hfound =>
    cases h
    have hverifies := List.find?_some hfound
    exact ⟨mem_of_mapM_eq_ok hparsed (List.mem_of_find?_eq_some hfound), hverifies⟩

theorem issuedByPinned_iff : issuedByPinned c pinned signer = true ↔
    ∃ der ∈ pinned, ∃ issuer, Certificate.parse c der = .ok issuer ∧ issued c signer issuer = true := by
  rw [issuedByPinned, List.any_eq_true]
  refine exists_congr fun der => and_congr_right fun _ => ?_
  cases Certificate.parse c der with
  | ok issuer => simp
  | error e => simp

/-- The steps of a verification that succeeds. -/
theorem verifyToken_eq_ok (h : verifyToken c token imprint pinned = .ok v) :
    ∃ parts signer, parseToken c token imprint = .ok v.info ∧
      SignedDataParts.parse token = .ok parts ∧
      parts.messageDigestAttr = parts.digestAlgorithm.digest c parts.econtent ∧
      findSigner c parts = .ok signer ∧ signer.allowsTimestamping = true ∧
      issuedByPinned c pinned signer = true ∧
      signer.notBefore ≤ v.info.genTime ∧ v.info.genTime ≤ signer.notAfter := by
  obtain ⟨info, hinfo, h⟩ := except_bind_eq_ok.mp h
  obtain ⟨parts, hparts, h⟩ := except_bind_eq_ok.mp h
  obtain ⟨_, hdigest, h⟩ := except_bind_eq_ok.mp h
  obtain ⟨signer, hsigner, h⟩ := except_bind_eq_ok.mp h
  obtain ⟨_, hallowed, h⟩ := except_bind_eq_ok.mp h
  obtain ⟨_, hpinned, h⟩ := except_bind_eq_ok.mp h
  obtain ⟨_, hvalid, h⟩ := except_bind_eq_ok.mp h
  cases h
  have hvalid := not_or.mp (refuseIf_eq_ok.mp hvalid)
  exact ⟨parts, signer, hinfo, hparts, not_not.mp (refuseIf_eq_ok.mp hdigest), hsigner,
    Bool.eq_true_of_not_eq_false (refuseIf_eq_ok.mp hallowed),
    Bool.eq_true_of_not_eq_false (refuseIf_eq_ok.mp hpinned), not_lt.mp hvalid.1, not_lt.mp hvalid.2⟩

theorem parseTstInfo_eq_ok {tstInfo : Bytes} {info : TimestampInfo}
    (h : parseTstInfo c tstInfo imprint = .ok info) :
    ∃ raw, readTstInfo tstInfo imprint = .ok (info.policy, info.serial, raw) ∧
      parseGeneralizedTime c raw = .ok info.genTime := by
  obtain ⟨⟨policy, serial, raw⟩, hread, h⟩ := except_bind_eq_ok.mp h
  obtain ⟨genTime, hraw, h⟩ := except_bind_eq_ok.mp h
  cases h
  exact ⟨raw, hread, hraw⟩

/-- What is known of the time of a token: who signed what, over which bytes. -/
structure ProvesTime (c : TimestampCrates) (token : Bytes) (imprint : Vector UInt8 32)
    (pinned : List Bytes) (v : VerifiedTimestamp) (tstInfo : Bytes) (parts : SignedDataParts)
    (signer issuer : Certificate) : Prop where
  /-- The bytes are in the token, and both walks come to them. -/
  inside : tstInfo <:+: token
  walk : encapsulatedTstInfo token = .ok tstInfo
  otherWalk : SignedDataParts.parse token = .ok parts ∧ parts.econtent = tstInfo
  /-- The imprint and the time are among them. -/
  covers : imprint.toList <:+: tstInfo
  states : ∃ raw, raw <:+: tstInfo ∧ parseGeneralizedTime c raw = .ok v.info.genTime
  read : parseTstInfo c tstInfo imprint = .ok v.info
  /-- The attributes hold their digest, and are signed as a SET. -/
  digest : messageDigestAttribute parts.signedAttrs =
    .ok (parts.digestAlgorithm.digest c tstInfo)
  reencoded : set (retagAsSet parts.signedAttrs) = .ok (parts.signedAttrs, [])
  verifies : parts.digestAlgorithm.verifyRsa c signer.publicKey (retagAsSet parts.signedAttrs)
    parts.signature = true
  /-- By a certificate in the token that may timestamp. -/
  embedded : ∃ der ∈ parts.certificates, der <:+: token ∧ Certificate.parse c der = .ok signer
  allowed : signer.allowsTimestamping = true
  /-- Which a pinned authority has issued, and which was valid then. -/
  pinned : ∃ der ∈ pinned, Certificate.parse c der = .ok issuer
  issued : issuer.subject = signer.issuer ∧
    signer.signatureAlgorithm.verifyRsa c issuer.publicKey signer.tbs signer.signature = true
  valid : signer.notBefore ≤ v.info.genTime ∧ v.info.genTime ≤ signer.notAfter

/-- **A token that verifies proves its time.** Both walks over the token read the same bytes, and
a certificate of a pinned authority has signed for them. -/
theorem verified_token_proves_time (h : verifyToken c token imprint pinned = .ok v) :
    ∃ tstInfo parts signer issuer, ProvesTime c token imprint pinned v tstInfo parts signer issuer := by
  obtain ⟨parts, signer, hinfo, hparts, hdigest, hsigner, hallowed, hpinned, hvalid⟩ :=
    verifyToken_eq_ok h
  obtain ⟨tstInfo, hwalk, hinfo⟩ := except_bind_eq_ok.mp hinfo
  obtain ⟨raw, hread, hraw⟩ := parseTstInfo_eq_ok hinfo
  obtain ⟨_, _, hway⟩ := encapsulatedTstInfo_eq_ok hwalk
  obtain ⟨⟨_, _, hother⟩, hcertificates, hbound, hattr⟩ := parse_eq_ok hparts
  have hsame : parts.econtent = tstInfo := hother.unique hway
  obtain ⟨⟨der, hder, hparsed⟩, hverifies⟩ := findSigner_eq_ok hsigner
  obtain ⟨pin, hpin, issuer, hissuer, hissued⟩ := issuedByPinned_iff.mp hpinned
  obtain ⟨hcovers, hinside⟩ := readTstInfo_eq_ok hread
  have hset : set (retagAsSet parts.signedAttrs) = .ok (parts.signedAttrs, []) := by
    have hread := @take_der tagSet parts.signedAttrs [] hbound
    rw [List.append_nil] at hread
    exact hread
  refine ⟨tstInfo, parts, signer, issuer, ?_⟩
  exact {
    inside := hway.inside.1
    walk := hwalk
    otherWalk := ⟨hparts, hsame⟩
    covers := hcovers
    states := ⟨raw, hinside, hraw⟩
    read := hinfo
    digest := by rw [hattr, hdigest, hsame]
    reencoded := hset
    verifies := hverifies
    embedded := ⟨der, hder, hcertificates der hder, hparsed⟩
    allowed := hallowed
    pinned := ⟨pin, hpin, hissuer⟩
    issued := by simpa [issued] using hissued
    valid := hvalid }

end Proof

/-! ### A token of an authority that issued its own certificate

The time it states has a fraction. The texts are hashed and signed as they are anywhere. -/

/-- Thirty-two bytes a number. -/
def wide (numbers : List Nat) : Bytes :=
  numbers.flatMap fun n => (List.range 32).map fun i => UInt8.ofNat (n / 256 ^ (31 - i))

def tsaModulus : Bytes := wide
  [0xb4628492b5ebc4c4b3dad4ae3650d95eaafecb537aa75f39833a1bccec0111e6,
    0x63189c492e05055bd7770a6538453b581f7611938c0e47e76f5d32f8f09b515d,
    0x34637f309c7fbbb5c271faf983bb7ff3672bf5c63377cf99912bded7f3e1b40b,
    0xe9ed92555e78de85ebc256aabd9485d55232ad9f133ababe1a44b9f1917150b6,
    0x94cc577c12db052632dcf66f813b1c032bc678e7fffb9330bd3ba1ac6124aab4,
    0x0dc8a6dd6d712e70787b6e0120ea080354c8638c9186599cde47c6d0e7608e45,
    0x18aae07ca363275423c91025750d403c4b450406ad7873c832eed92080f962ca,
    0xf618cbd864596448a0c09f7b166dec20e04d832f95319ee3dbe5c5160783c38b]

def tsaIssuance : Bytes := wide
  [0x1a119fa2e258a7f382ff388ce455ad4f1bf06b354e9a0b9785809ccd1ae41984,
    0x2824c834e55c34b07d571d37266e8791505feb65a1a0387a07cb068b3597043c,
    0xf4c10b94e4c0c51a8856b136d9f011f3d8c34532e2f43b7a99a793b76174d9ce,
    0xb1c2cc7a362d56f0043179beec3aa40aa359f02181307ba5973c93c0804a7cc6,
    0xdd3f9d2a5e18c381f0257dc346df70ab033cf495312475789e9bcd25d407e35a,
    0xff55ac4786e5c073f2038ec29822dda7073a96c2a9270e0f1a5189391b03e77b,
    0x2318e67eeab5e481c33bce35451f010d7622f4bada68e80bc3a4b89498c0a810,
    0xe959f24bb2910ff4b59460d70f0f9e8d0ce8a4c7ac78a315515e38b8f773a4cf]

def tsaStamp : Bytes := wide
  [0x1ea3d40dbf64dfd4a8cc3988d8818190026c575cd5cdd7c0435b8da36097be29,
    0xef5932752d74827ba5df6c1717c6618303f8eeeaed54bf4acc5fbcbb26aeaebd,
    0xb6dc5cf3b45dbccebc3f27adb918b34c05abf13c6500f7f765e4deff26d6ac12,
    0xefd2c13022215158a051f6e20ea7c111bd13ccbdc0be6cbdd5a2901ed7abe5fe,
    0x2e52908adb78acfc80028fc637a35179c8f11a8de9ae88ec98725698a44b8ef5,
    0x9f41a7352d1f695f5ed682de3dc529e280455bd86f19c9e778118da2e9adc9d5,
    0x507efc5566d81c8c127f6c9201287b30be408c838253dce8236552b89411db56,
    0xbbc1da9f2c03c5c82ccfa5840eb68e3235d449ca0b1d8bd533990db4da272ebe]

def stampedImprint : Vector UInt8 32 := Vector.ofFn fun i => (wide
  [0x6d7bdaf5a3d6ed4f00e792f50021649fafd8262114d9ef2ffcc18b78498fdf01]).getD i.val 0

def stampDigest : Vector UInt8 32 := Vector.ofFn fun i => (wide
  [0x49886a7cdafaa2dc25dc23c55ac59ea2b9b9718255a828d97d74e110dc453c52]).getD i.val 0

/-- The signature that is stamped. -/
def stampedSignature : Bytes := wide
  [0x47642bd7a9cc71daa881ba7d623a8c2d510156a818ac2fa631edf4caa9209981,
    0x3db03c72c1472e728969c9bd7fe5c83fa896aa5b61622485d985bf208d26a502]

def ascii (text : String) : Bytes := text.toList.map fun ch => UInt8.ofNat ch.toNat

def algorithmId (oid : Bytes) : Bytes := der tagSequence (der tagOid oid ++ der tagNull [])

def tsaName : Bytes :=
  der tagSequence (der tagSet (der tagSequence (der tagOid oidCommonName ++ der 0x0c (ascii "TSA"))))

def tsaKey : Bytes :=
  der tagSequence (der tagInteger (0 :: tsaModulus) ++ der tagInteger [1, 0, 1])

def tsaUsage : Bytes := der tagSequence (der tagOid oidExtKeyUsage ++ der tagBoolean [0xff] ++
  der tagOctetString (der tagSequence (der tagOid oidKpTimestamping)))

def tsaTbs : Bytes := der tagSequence (der tagContext0 (der tagInteger [2]) ++ der tagInteger [1] ++
  algorithmId oidRsaSha256 ++ tsaName ++
  der tagSequence (der tagUtcTime (ascii "260101000000Z") ++ der tagUtcTime (ascii "270101000000Z")) ++
  tsaName ++ der tagSequence (algorithmId oidRsaEncryption ++ der tagBitString (0 :: tsaKey)) ++
  der tagContext3 (der tagSequence tsaUsage))

def tsaCertificate : Bytes := der tagSequence (tsaTbs ++ algorithmId oidRsaSha256 ++
  der tagBitString (0 :: tsaIssuance))

/-- Another certificate for the same key, with a serial number and with what is behind the key. -/
def tsaTbsWith (serial : UInt8) (behind : Bytes) : Bytes := der tagSequence
  (der tagContext0 (der tagInteger [2]) ++ der tagInteger [serial] ++ algorithmId oidRsaSha256 ++
    tsaName ++
    der tagSequence (der tagUtcTime (ascii "260101000000Z") ++ der tagUtcTime (ascii "270101000000Z")) ++
    tsaName ++ der tagSequence (algorithmId oidRsaEncryption ++ der tagBitString (0 :: tsaKey)) ++
    behind)

def tsaCertificateWith (serial : UInt8) (behind : Bytes) : Bytes := der tagSequence
  (tsaTbsWith serial behind ++ algorithmId oidRsaSha256 ++ der tagBitString (0 :: tsaIssuance))

def stampInfo : Bytes := der tagSequence (der tagInteger [1] ++ der tagOid [0x2a, 0x03] ++
  der tagSequence (algorithmId oidSha256 ++ der tagOctetString stampedImprint.toList) ++
  der tagInteger [1] ++ der tagGeneralizedTime (ascii "20260801000000.9Z"))

def stampAttrs : Bytes :=
  der tagSequence (der tagOid [0x2a, 0x86, 0x48, 0x86, 0xf7, 0x0d, 0x01, 0x09, 0x03] ++
      der tagSet (der tagOid oidTstInfo)) ++
    der tagSequence (der tagOid oidMessageDigest ++ der tagSet (der tagOctetString stampDigest.toList))

def stampSigner : Bytes := der tagSequence (der tagInteger [1] ++
  der tagSequence (tsaName ++ der tagInteger [1]) ++ algorithmId oidSha256 ++
  der tagContext0 stampAttrs ++ algorithmId oidRsaEncryption ++ der tagOctetString tsaStamp)

def stampToken : Bytes := der tagSequence (der tagOid oidSignedData ++ der tagContext0
  (der tagSequence (der tagInteger [3] ++ der tagSet (algorithmId oidSha256) ++
    der tagSequence (der tagOid oidTstInfo ++ der tagContext0 (der tagOctetString stampInfo)) ++
    der tagContext0 tsaCertificate ++ der tagSet stampSigner)))

theorem stampDate_inRange : Trust.minSecs ≤ 1785542400 ∧ 1785542400 ≤ Trust.maxSecs := by decide
theorem issueDate_inRange : Trust.minSecs ≤ 1767225600 ∧ 1767225600 ≤ Trust.maxSecs := by decide
theorem expiryDate_inRange : Trust.minSecs ≤ 1798761600 ∧ 1798761600 ≤ Trust.maxSecs := by decide

/-- The first of August 2026. -/
def stampDate : DateTime := ⟨1785542400, 0, stampDate_inRange, DateTime.zero_nanos_lt⟩

def tsaCrates : TimestampCrates where
  sha256 bytes :=
    if bytes = stampInfo then stampDigest
    else if bytes = stampedSignature then stampedImprint
    else Vector.replicate 32 0
  sha384 _ := Vector.replicate 48 0
  verifyRsaSha256 key message signature := decide (key = tsaKey ∧
    (message = tsaTbs ∧ signature = tsaIssuance ∨
      message = retagAsSet stampAttrs ∧ signature = tsaStamp))
  verifyRsaSha384 _ _ _ := false
  parseNaive text :=
    if text = "20260801000000" then some stampDate
    else if text = "20260101000000" then
      some ⟨1767225600, 0, issueDate_inRange, DateTime.zero_nanos_lt⟩
    else if text = "20270101000000" then
      some ⟨1798761600, 0, expiryDate_inRange, DateTime.zero_nanos_lt⟩
    else none

def stampVerified : VerifiedTimestamp := ⟨⟨stampDate, "1.2.3", "01"⟩, "TSA"⟩

theorem verifyToken_stamp :
    verifyToken tsaCrates stampToken stampedImprint [tsaCertificate] = .ok stampVerified := by
  decide +kernel

theorem verified_token_proves_time_stamp :
    ∃ tstInfo parts signer issuer, ProvesTime tsaCrates stampToken stampedImprint [tsaCertificate]
      stampVerified tstInfo parts signer issuer :=
  verified_token_proves_time verifyToken_stamp

end Attest.Timestamp
