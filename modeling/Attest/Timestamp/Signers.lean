import Mathlib.Data.List.TakeWhile
import Attest.Timestamp.Token

/-! Which certificate a token is verified with.

A token may carry several certificates. `verifyToken` reads those in front of the first element
that is none, gives up when one of them is not read, and holds the first that verifies the
signature to the rest of the checks. What a token is accepted for is less: some certificate in it
that passes all of them. `independent_iff` says for which tokens the two are the same. -/
namespace Attest.Timestamp
open Library.Fallible Library.Reader
open Trust (Bytes DateTime)

/-! ### The certificates of a token -/

/-- The element at the front, whatever its tag. -/
def anyElement (bytes : Bytes) : Except TimestampError (Bytes × Bytes) :=
  match bytes.head? with
  | none => .error (.malformed "truncated")
  | some tag => element tag bytes

def isSequence (whole : Bytes) : Bool := whole.head? == some tagSequence

/-- Every certificate among the elements of a field. -/
def embedded (certificates : Bytes) : List Bytes := (readAll anyElement certificates).filter isSequence

/-- The certificates that are read: those in front of the first other element. -/
def reached (certificates : Bytes) : List Bytes :=
  (readAll anyElement certificates).takeWhile isSequence

section Elements
variable {tag : UInt8} {bytes whole rest certificates : Bytes}

theorem head_of_element (h : element tag bytes = .ok (whole, rest)) :
    whole.head? = some tag ∧ bytes.head? = some tag := by
  obtain ⟨contents, htake, hwhole⟩ := element_eq_ok h
  obtain ⟨length, _, hbytes, _⟩ := take_eq_ok htake
  have hsame : whole = tag :: length ++ contents := List.append_cancel_right (hwhole.symm.trans hbytes)
  exact ⟨by rw [hsame]; rfl, head_of_take htake⟩

/-- A certificate is an element that is a SEQUENCE. -/
theorem element_sequence_iff : element tagSequence bytes = .ok (whole, rest) ↔
    anyElement bytes = .ok (whole, rest) ∧ isSequence whole = true := by
  constructor
  · intro h
    obtain ⟨hwhole, hbytes⟩ := head_of_element h
    exact ⟨by rw [anyElement, hbytes]; exact h, by rw [isSequence, hwhole]; rfl⟩
  · intro h
    obtain ⟨hany, hsequence⟩ := h
    unfold anyElement at hany
    split at hany
    next => cases hany
    next tag hhead =>
      have htag := (head_of_element hany).1
      rw [isSequence, htag] at hsequence
      obtain rfl : tag = tagSequence := by simpa using hsequence
      exact hany

theorem readAll_element : readAll (element tagSequence) certificates = reached certificates :=
  readAll_takeWhile fun _ _ _ => element_sequence_iff

theorem embedded_of_reached {der : Bytes} (h : der ∈ reached certificates) :
    der ∈ embedded certificates :=
  List.mem_filter.mpr ⟨(List.takeWhile_prefix _).mem h, List.mem_takeWhile_imp h⟩

end Elements

/-! ### What is signed, beside the certificates -/

/-- What is in front of the signers. -/
structure SignedFields where
  econtent : Bytes
  declaredDigests : List Sha2Algorithm
  certificates : Bytes
  behind : Bytes
deriving DecidableEq

/-- The first part of `SignedDataParts.parse`. -/
def signedFields (token : Bytes) : Except TimestampError SignedFields := do
  let (contentInfo, _) ← sequence token
  let (contentType, contentInfo) ← oid contentInfo
  refuseIf (contentType ≠ oidSignedData) (.malformed "token is not a signedData")
  let (explicit, _) ← take tagContext0 contentInfo
  let (signedData, _) ← sequence explicit
  let (_, signedData) ← integer signedData
  let (algorithms, signedData) ← set signedData
  let declaredDigests ← readEach readDigestAlgorithm algorithms
  let (encap, signedData) ← sequence signedData
  let (contentType, encap) ← oid encap
  refuseIf (contentType ≠ oidTstInfo) (.malformed "not a TSTInfo")
  let (explicit, _) ← take tagContext0 encap
  let (econtent, _) ← octetString explicit
  let (certs, signedData) ← take tagContext0 signedData
  return ⟨econtent, declaredDigests, certs, signedData⟩

/-- The second part, when the certificates are the given ones. -/
def signerParts (fields : SignedFields) (certificates : List Bytes) :
    Except TimestampError SignedDataParts := do
  let (signerInfos, _) ← set fields.behind
  let (signer, _) ← sequence signerInfos
  let (_, signer) ← integer signer
  let (_, signer) ← skipAny signer
  let (digestAlgorithm, signer) ← readDigestAlgorithm signer
  refuseIf (digestAlgorithm ∉ fields.declaredDigests) (.malformed "CMS digest algorithm is not declared")
  let (signedAttrs, signer) ← take tagContext0 signer
  let messageDigestAttr ← messageDigestAttribute signedAttrs
  let (signatureOid, signer) ← algorithmOid signer
  checkSignatureOid signatureOid digestAlgorithm
  let (signature, _) ← octetString signer
  return ⟨fields.econtent, certificates, signedAttrs, messageDigestAttr, signature, digestAlgorithm⟩

section Parts
variable {token : Bytes} {fields : SignedFields} {parts : SignedDataParts}
  {certificates certificates' : List Bytes}

/-- The two parts, and the certificates between them. -/
theorem parse_eq : SignedDataParts.parse token = (do
    let fields ← signedFields token
    refuseIf (reached fields.certificates = [])
      (.unsupported "token carries no certificate; it cannot be verified offline")
    signerParts fields (reached fields.certificates)) := by
  simp only [SignedDataParts.parse, signedFields, signerParts, readAll_element, bind_assoc, pure_bind]

theorem signerParts_map : signerParts fields certificates' =
    (fun parts => { parts with certificates := certificates' }) <$> signerParts fields certificates := by
  simp only [signerParts, map_bind, map_pure]

theorem certificates_of_signerParts (h : signerParts fields certificates = .ok parts) :
    parts.certificates = certificates := by
  rw [@signerParts_map fields certificates] at h
  cases hparts : signerParts fields certificates with
  | error e =>
    rw [hparts] at h
    cases h
  | ok parts =>
    rw [hparts] at h
    cases h
    rfl

/-- What is signed does not depend on the certificates. -/
theorem signerParts_of_ok (h : signerParts fields certificates = .ok parts) :
    signerParts fields certificates' = .ok { parts with certificates := certificates' } := by
  rw [@signerParts_map fields certificates, h]
  rfl

end Parts

/-! ### Acceptance -/

section Acceptance
variable (c : TimestampCrates) (pinned : List Bytes) (imprint : Vector UInt8 32)

/-- The certificate verifies the signature over the attributes. -/
def verifiesWith (parts : SignedDataParts) (cert : Certificate) : Bool :=
  parts.digestAlgorithm.verifyRsa c cert.publicKey (retagAsSet parts.signedAttrs) parts.signature

/-- The certificate passes every check. -/
structure Qualifies (parts : SignedDataParts) (genTime : DateTime) (der : Bytes)
    (cert : Certificate) : Prop where
  parsed : Certificate.parse c der = .ok cert
  verifies : verifiesWith c parts cert = true
  allowed : cert.allowsTimestamping = true
  issued : ∃ issuerDer ∈ pinned, ∃ issuer,
    Certificate.parse c issuerDer = .ok issuer ∧ issued c cert issuer = true
  valid : cert.notBefore ≤ genTime ∧ genTime ≤ cert.notAfter

/-- What a token says, when it covers the imprint and its attributes describe it. -/
structure Consistent (token : Bytes) (info : TimestampInfo) (fields : SignedFields)
    (parts : SignedDataParts) : Prop where
  stated : parseToken c token imprint = .ok info
  read : signedFields token = .ok fields
  signed : signerParts fields (embedded fields.certificates) = .ok parts
  digest : parts.messageDigestAttr = parts.digestAlgorithm.digest c parts.econtent

def Accepted (token : Bytes) : Prop := ∃ v, verifyToken c token imprint pinned = .ok v

/-- Some certificate in the token passes every check. -/
def Acceptable (token : Bytes) : Prop :=
  ∃ info fields parts, Consistent c imprint token info fields parts ∧
    ∃ der ∈ embedded fields.certificates, ∃ cert, Qualifies c pinned parts info.genTime der cert

/-- All the certificates are read, and one that passes every check comes before any other that
verifies the signature. -/
def Selected (parts : SignedDataParts) (genTime : DateTime) (certificates : List Bytes) : Prop :=
  (∀ der ∈ certificates, ∃ cert, Certificate.parse c der = .ok cert) ∧
    ∃ before der after cert, certificates = before ++ der :: after ∧
      Qualifies c pinned parts genTime der cert ∧
      ∀ der ∈ before, ∀ cert, Certificate.parse c der = .ok cert → verifiesWith c parts cert = false

/-- The other certificates do not stand in the way of one that passes every check. -/
def Undisturbed (token : Bytes) : Prop :=
  ∀ info fields parts, Consistent c imprint token info fields parts →
    (∃ der ∈ embedded fields.certificates, ∃ cert, Qualifies c pinned parts info.genTime der cert) →
      Selected c pinned parts info.genTime (reached fields.certificates)

/-- The token is the other one with more certificates, in any order. -/
def Extends (token token' : Bytes) : Prop :=
  parseToken c token' imprint = parseToken c token imprint ∧
    ∃ fields certificates, signedFields token' = .ok fields ∧
      signedFields token = .ok { fields with certificates := certificates } ∧
      ∀ der ∈ embedded fields.certificates, der ∈ embedded certificates

/-- Whether the token is accepted does not depend on the certificates that it is not accepted
for. -/
structure Independent (token : Bytes) : Prop where
  accepted : Accepted c pinned imprint token ↔ Acceptable c pinned imprint token
  extended : ∀ token', Extends c imprint token token' → Accepted c pinned imprint token' →
    Accepted c pinned imprint token

end Acceptance

section Selection
variable {c : TimestampCrates} {pinned : List Bytes} {imprint : Vector UInt8 32}
  {token : Bytes} {info : TimestampInfo} {fields : SignedFields} {parts : SignedDataParts}
  {signer : Certificate}

/-- A token says one thing. -/
theorem Consistent.unique {info' : TimestampInfo} {fields' : SignedFields} {parts' : SignedDataParts}
    (h : Consistent c imprint token info fields parts)
    (h' : Consistent c imprint token info' fields' parts') :
    info = info' ∧ fields = fields' ∧ parts = parts' := by
  cases h.stated.symm.trans h'.stated
  cases h.read.symm.trans h'.read
  cases h.signed.symm.trans h'.signed
  exact ⟨rfl, rfl, rfl⟩

theorem findSigner_iff : findSigner c parts = .ok signer ↔
    (∀ der ∈ parts.certificates, ∃ cert, Certificate.parse c der = .ok cert) ∧
      ∃ before der after, parts.certificates = before ++ der :: after ∧
        Certificate.parse c der = .ok signer ∧ verifiesWith c parts signer = true ∧
        ∀ der ∈ before, ∀ cert, Certificate.parse c der = .ok cert →
          verifiesWith c parts cert = false := by
  rw [← find?_mapM, findSigner, except_bind_eq_ok]
  refine exists_congr fun certificates => and_congr_right fun _ => ?_
  unfold verifiesWith
  cases certificates.find? _ with
  | none => simp
  | some found => simp

/-- The signer that is found is held to the other checks. -/
theorem verifyToken_isOk : Accepted c pinned imprint token ↔
    ∃ info parts signer, parseToken c token imprint = .ok info ∧
      SignedDataParts.parse token = .ok parts ∧
      parts.messageDigestAttr = parts.digestAlgorithm.digest c parts.econtent ∧
      findSigner c parts = .ok signer ∧ signer.allowsTimestamping = true ∧
      issuedByPinned c pinned signer = true ∧
      signer.notBefore ≤ info.genTime ∧ info.genTime ≤ signer.notAfter := by
  constructor
  · intro h
    obtain ⟨v, h⟩ := h
    obtain ⟨parts, signer, h⟩ := verifyToken_eq_ok h
    exact ⟨v.info, parts, signer, h⟩
  · intro h
    obtain ⟨info, parts, signer, hinfo, hparts, hdigest, hsigner, hallowed, hpinned, hafter, huntil⟩ := h
    refine ⟨⟨info, commonName signer.subject⟩, ?_⟩
    refine except_bind_eq_ok.mpr ⟨info, hinfo, except_bind_eq_ok.mpr ⟨parts, hparts, ?_⟩⟩
    refine except_bind_eq_ok.mpr ⟨(), refuseIf_eq_ok.mpr (not_not.mpr hdigest), ?_⟩
    refine except_bind_eq_ok.mpr ⟨signer, hsigner, ?_⟩
    refine except_bind_eq_ok.mpr ⟨(), refuseIf_eq_ok.mpr (by simp [hallowed]), ?_⟩
    refine except_bind_eq_ok.mpr ⟨(), refuseIf_eq_ok.mpr (by simp [hpinned]), ?_⟩
    refine except_bind_eq_ok.mpr ⟨(), refuseIf_eq_ok.mpr ?_, rfl⟩
    exact not_or.mpr ⟨not_lt.mpr hafter, not_lt.mpr huntil⟩

/-- A token is accepted when the first certificate that verifies its signature passes the other
checks too, and all that are reached are read. -/
theorem accepted_iff : Accepted c pinned imprint token ↔
    ∃ info fields parts, Consistent c imprint token info fields parts ∧
      Selected c pinned parts info.genTime (reached fields.certificates) := by
  rw [verifyToken_isOk]
  constructor
  · intro h
    obtain ⟨info, parts, signer, hinfo, hparts, hdigest, hsigner, hallowed, hpinned, hvalid⟩ := h
    rw [parse_eq] at hparts
    obtain ⟨fields, hfields, hparts⟩ := except_bind_eq_ok.mp hparts
    obtain ⟨_, _, hparts⟩ := except_bind_eq_ok.mp hparts
    obtain ⟨hall, before, der, after, hsplit, hparsed, hverifies, hbefore⟩ := findSigner_iff.mp hsigner
    rw [certificates_of_signerParts hparts] at hall hsplit
    refine ⟨info, fields, _, ⟨hinfo, hfields, signerParts_of_ok hparts, hdigest⟩, hall, ?_⟩
    exact ⟨before, der, after, signer, hsplit,
      ⟨hparsed, hverifies, hallowed, issuedByPinned_iff.mp hpinned, hvalid⟩, hbefore⟩
  · intro h
    obtain ⟨info, fields, parts, hconsistent, hall, before, der, after, signer, hsplit, hqualifies,
      hbefore⟩ := h
    have hreached : reached fields.certificates ≠ [] := by
      rw [hsplit]
      simp
    refine ⟨info, { parts with certificates := reached fields.certificates }, signer,
      hconsistent.stated, ?_, hconsistent.digest, ?_, hqualifies.allowed,
      issuedByPinned_iff.mpr hqualifies.issued, hqualifies.valid⟩
    · rw [parse_eq]
      exact except_bind_eq_ok.mpr ⟨fields, hconsistent.read, except_bind_eq_ok.mpr
        ⟨(), refuseIf_eq_ok.mpr hreached, signerParts_of_ok hconsistent.signed⟩⟩
    · exact findSigner_iff.mpr ⟨hall, before, der, after, hsplit, hqualifies.parsed,
        hqualifies.verifies, hbefore⟩

/-- What is accepted can be accepted. -/
theorem acceptable_of_accepted (h : Accepted c pinned imprint token) :
    Acceptable c pinned imprint token := by
  obtain ⟨info, fields, parts, hconsistent, _, before, der, after, cert, hsplit, hqualifies, _⟩ :=
    accepted_iff.mp h
  have hmem : der ∈ reached fields.certificates := by
    rw [hsplit]
    exact List.mem_append_right _ List.mem_cons_self
  exact ⟨info, fields, parts, hconsistent, der, embedded_of_reached hmem, cert, hqualifies⟩

/-- More certificates, more to accept a token for. -/
theorem acceptable_of_extends {token' : Bytes} (hextends : Extends c imprint token token')
    (h : Acceptable c pinned imprint token') : Acceptable c pinned imprint token := by
  obtain ⟨hinfo, fields, certificates, hfields', hfields, hmore⟩ := hextends
  obtain ⟨info, fields', parts, hconsistent, der, hder, cert, hqualifies⟩ := h
  cases hfields'.symm.trans hconsistent.read
  refine ⟨info, _, { parts with certificates := embedded certificates },
    ⟨hinfo ▸ hconsistent.stated, hfields, ?_, hconsistent.digest⟩, der, hmore der hder, cert, ?_⟩
  · exact signerParts_of_ok hconsistent.signed
  · exact { hqualifies with verifies := hqualifies.verifies }

/-- Further certificates make no difference, for just the tokens where none stands in the way. -/
theorem independent_iff :
    Independent c pinned imprint token ↔ Undisturbed c pinned imprint token := by
  constructor
  · intro h info fields parts hconsistent hqualified
    have haccepted := h.accepted.mpr ⟨info, fields, parts, hconsistent, hqualified⟩
    obtain ⟨info', fields', parts', hconsistent', hselected⟩ := accepted_iff.mp haccepted
    obtain ⟨rfl, rfl, rfl⟩ := hconsistent.unique hconsistent'
    exact hselected
  · intro h
    have haccepted : Acceptable c pinned imprint token → Accepted c pinned imprint token := by
      intro hacceptable
      obtain ⟨info, fields, parts, hconsistent, hqualified⟩ := hacceptable
      exact accepted_iff.mpr ⟨info, fields, parts, hconsistent,
        h info fields parts hconsistent hqualified⟩
    refine ⟨⟨acceptable_of_accepted, haccepted⟩, ?_⟩
    intro token' hextends haccepted'
    exact haccepted (acceptable_of_extends hextends (acceptable_of_accepted haccepted'))

end Selection

/-! ### Two tokens that are refused for a certificate too many

One carries the certificate of another authority too, whose signature is not RSA; the other, in
front of the certificate that stamps, one for the same key that may not. -/

/-- The stamp with other certificates. -/
def stampTokenWith (certificates : Bytes) : Bytes :=
  der tagSequence (der tagOid oidSignedData ++ der tagContext0
    (der tagSequence (der tagInteger [3] ++ der tagSet (algorithmId oidSha256) ++
      der tagSequence (der tagOid oidTstInfo ++ der tagContext0 (der tagOctetString stampInfo)) ++
      der tagContext0 certificates ++ der tagSet stampSigner)))

def stampFields (certificates : Bytes) : SignedFields where
  econtent := stampInfo
  declaredDigests := [.sha256]
  certificates := certificates
  behind := der tagSet stampSigner

/-- `ecdsa-with-SHA256`. -/
def ecdsaAlgorithm : Bytes :=
  der tagSequence (der tagOid [0x2a, 0x86, 0x48, 0xce, 0x3d, 0x04, 0x03, 0x02])

def otherName : Bytes :=
  der tagSequence (der tagSet (der tagSequence (der tagOid oidCommonName ++ der 0x0c (ascii "CA"))))

/-- An authority on the curve P-256. -/
def otherTbs : Bytes := der tagSequence (der tagContext0 (der tagInteger [2]) ++
  der tagInteger [1] ++ ecdsaAlgorithm ++ otherName ++
  der tagSequence (der tagUtcTime (ascii "260101000000Z") ++ der tagUtcTime (ascii "270101000000Z")) ++
  otherName ++ der tagSequence (der tagSequence
    (der tagOid [0x2a, 0x86, 0x48, 0xce, 0x3d, 0x02, 0x01] ++
      der tagOid [0x2a, 0x86, 0x48, 0xce, 0x3d, 0x03, 0x01, 0x07]) ++
    der tagBitString (0 :: 4 :: tsaStamp.take 64)))

def otherCertificate : Bytes := der tagSequence (otherTbs ++ ecdsaAlgorithm ++
  der tagBitString (0 :: der tagSequence (der tagInteger (tsaIssuance.take 32) ++
    der tagInteger (stampedSignature.take 32))))

/-- A certificate for the key that stamps, without the usage that lets it. -/
def plainCertificate : Bytes := tsaCertificateWith 2 []

/-- What is computed of a token with other certificates: it says what the accepted one says, it
carries the certificate of that one, and it is refused. -/
structure RefusedWith (certificates : Bytes) (e : TimestampError) : Prop where
  stated : parseToken tsaCrates (stampTokenWith certificates) stampedImprint = .ok stampVerified.info
  read : signedFields (stampTokenWith certificates) = .ok (stampFields certificates)
  carried : tsaCertificate ∈ embedded certificates
  refused : verifyToken tsaCrates (stampTokenWith certificates) stampedImprint [tsaCertificate] =
    .error e

theorem lawfulBEq_bytes : LawfulBEq Bytes := inferInstance

instance (certificates : Bytes) (e : TimestampError) : Decidable (RefusedWith certificates e) :=
  haveI := lawfulBEq_bytes
  decidable_of_iff
    ((parseToken tsaCrates (stampTokenWith certificates) stampedImprint = .ok stampVerified.info ∧
        signedFields (stampTokenWith certificates) = .ok (stampFields certificates)) ∧
      tsaCertificate ∈ embedded certificates ∧
      verifyToken tsaCrates (stampTokenWith certificates) stampedImprint [tsaCertificate] = .error e)
    ⟨fun ⟨⟨stated, read⟩, carried, refused⟩ => ⟨stated, read, carried, refused⟩,
      fun ⟨stated, read, carried, refused⟩ => ⟨⟨stated, read⟩, carried, refused⟩⟩

/-- Such a token is refused for the certificates that it has besides. -/
theorem RefusedWith.not_independent {certificates : Bytes} {e : TimestampError}
    (h : RefusedWith certificates e) :
    ¬ Independent tsaCrates [tsaCertificate] stampedImprint (stampTokenWith certificates) := by
  intro hindependent
  have hstamp : parseToken tsaCrates stampToken stampedImprint = .ok stampVerified.info ∧
      signedFields stampToken = .ok (stampFields tsaCertificate) ∧
      embedded tsaCertificate = [tsaCertificate] := by
    decide +kernel
  obtain ⟨hstated, hfields, hembedded⟩ := hstamp
  have hcarried : ∀ der ∈ embedded tsaCertificate, der ∈ embedded certificates := by
    intro der hder
    rw [hembedded] at hder
    obtain rfl := List.mem_singleton.mp hder
    exact h.carried
  have hextends : Extends tsaCrates stampedImprint (stampTokenWith certificates) stampToken :=
    ⟨hstated.trans h.stated.symm, stampFields tsaCertificate, certificates, hfields, h.read, hcarried⟩
  obtain ⟨v, haccepted⟩ := hindependent.extended _ hextends ⟨stampVerified, verifyToken_stamp⟩
  cases h.refused.symm.trans haccepted

/-- Both are the token that was accepted, with one certificate more. -/
theorem stamp_refused_with_another :
    ¬ Independent tsaCrates [tsaCertificate] stampedImprint
        (stampTokenWith (tsaCertificate ++ otherCertificate)) ∧
      ¬ Independent tsaCrates [tsaCertificate] stampedImprint
        (stampTokenWith (plainCertificate ++ tsaCertificate)) := by
  have hother : RefusedWith (tsaCertificate ++ otherCertificate)
      (.unsupported "RSA signature algorithm") := by
    decide +kernel
  have hplain : RefusedWith (plainCertificate ++ tsaCertificate) .notATimestampingCertificate := by
    decide +kernel
  exact ⟨hother.not_independent, hplain.not_independent⟩

end Attest.Timestamp
