import Attest.Identity.Der
import Attest.Trust.Specs

/-! The source that a workflow certificate certifies.

The certificate is walked element by element: what the walk needs is opened, the rest is passed
over, and nothing may be left behind at any level that is opened. `certificateSource_iff` says
which bytes are accepted: those of a certificate whose extensions have ids of their own and hold
the two texts, and those only. -/
namespace Attest.Identity
open Library.Fallible Library.Reader
open Trust (Bytes utf8)
open Timestamp (der)

/-! ### The walk -/

/-- `Der::finish`. -/
def finish (bytes : Bytes) : Except String Unit :=
  refuseIf (bytes ≠ []) "trailing certificate DER data"

/-- An element that is not looked into. -/
def skip (tag : UInt8) (bytes : Bytes) : Except String Bytes := do
  let (_, rest) ← take tag bytes
  return rest

/-- The same, where it is there. -/
def skipOptional (tag : UInt8) (bytes : Bytes) : Except String Bytes :=
  if bytes.head? = some tag then skip tag bytes else .ok bytes

def oidRepository : Bytes := [0x2b, 6, 1, 4, 1, 0x83, 0xbf, 0x30, 1, 12]
def oidRevision : Bytes := [0x2b, 6, 1, 4, 1, 0x83, 0xbf, 0x30, 1, 13]

/-- What has been found, and the extensions it was looked for in. -/
structure Found where
  repository : Option String
  revision : Option String
  seen : List Bytes

def Found.none : Found := ⟨.none, .none, []⟩

/-- A text that is all there is. -/
def certifiedText (value : Bytes) : Except String String := do
  let (contents, rest) ← take 0x0c value
  let text ← context "workflow extension is not UTF-8" (String.fromUTF8? ⟨contents.toArray⟩)
  finish rest
  return text

def Found.note (found : Found) (oid value : Bytes) : Except String Found :=
  if oid = oidRepository then do
    let text ← certifiedText value
    return { found with repository := some text }
  else if oid = oidRevision then do
    let text ← certifiedText value
    return { found with revision := some text }
  else .ok found

def readExtension (found : Found) (extension : Bytes) : Except String Found := do
  let (oid, extension) ← take 0x06 extension
  refuseIf (oid ∈ found.seen) "duplicate workflow certificate extension"
  let extension ← skipOptional 0x01 extension
  let (value, extension) ← take 0x04 extension
  finish extension
  { found with seen := oid :: found.seen }.note oid value

def nextExtension (found : Found) (bytes : Bytes) : Except String (Found × Bytes) := do
  let (extension, rest) ← take 0x30 bytes
  return (← readExtension found extension, rest)

def certificateSource (bytes : Bytes) : Except String (String × String) := do
  let (certificate, outer) ← take 0x30 bytes
  finish outer
  let (tbs, certificate) ← take 0x30 certificate
  let certificate ← skip 0x30 certificate
  let certificate ← skip 0x03 certificate
  finish certificate
  let tbs ← skipOptional 0xa0 tbs
  let tbs ← [0x02, 0x30, 0x30, 0x30, 0x30, 0x30].foldlM (fun tbs tag => skip tag tbs) tbs
  let tbs ← [0x81, 0x82].foldlM (fun tbs tag => skipOptional tag tbs) tbs
  let (explicit, tbs) ← (take 0xa3 tbs).mapError fun _ => "workflow certificate has no extensions"
  finish tbs
  let (extensions, explicit) ← take 0x30 explicit
  finish explicit
  let found ← foldEach nextExtension .none extensions
  let repository ← context "workflow certificate is missing certified source repository"
    found.repository
  let revision ← context "workflow certificate is missing certified source revision" found.revision
  return (repository, revision)

/-! ### Certificates -/

def derOptional (tag : UInt8) : Option Bytes → Bytes
  | none => []
  | some contents => der tag contents

/-- An extension, and what stands behind its value. -/
structure Extension where
  oid : Bytes
  critical : Option Bytes
  value : Bytes
  rest : Bytes

namespace Extension

def contents (e : Extension) : Bytes :=
  der 0x06 e.oid ++ derOptional 0x01 e.critical ++ der 0x04 e.value ++ e.rest

def bytes (e : Extension) : Bytes := der 0x30 e.contents

end Extension

/-- An extension of this id among these holds the text, as a UTF8String and nothing else. -/
def CertifiedBy (es : List Extension) (oid : Bytes) (text : String) : Prop :=
  ∃ e ∈ es, e.oid = oid ∧ e.value = der 0x0c (utf8 text)

/-- A certificate, and what stands behind the last element at each level. -/
structure Certificate where
  version : Option Bytes
  serialNumber : Bytes
  signature : Bytes
  issuer : Bytes
  validity : Bytes
  subject : Bytes
  subjectPublicKeyInfo : Bytes
  issuerUniqueId : Option Bytes
  subjectUniqueId : Option Bytes
  extensions : List Extension
  signatureAlgorithm : Bytes
  signatureValue : Bytes
  afterExtensions : Bytes
  afterExplicit : Bytes
  afterTbs : Bytes
  afterCertificate : Bytes
  rest : Bytes

namespace Certificate
variable (c : Certificate)

def extensionBytes : Bytes := c.extensions.flatMap Extension.bytes ++ c.afterExtensions

def explicit : Bytes := der 0x30 c.extensionBytes ++ c.afterExplicit

def tbs : Bytes :=
  derOptional 0xa0 c.version ++ der 0x02 c.serialNumber ++ der 0x30 c.signature ++
    der 0x30 c.issuer ++ der 0x30 c.validity ++ der 0x30 c.subject ++
    der 0x30 c.subjectPublicKeyInfo ++ derOptional 0x81 c.issuerUniqueId ++
    derOptional 0x82 c.subjectUniqueId ++ der 0xa3 c.explicit ++ c.afterTbs

def contents : Bytes :=
  der 0x30 c.tbs ++ der 0x30 c.signatureAlgorithm ++ der 0x03 c.signatureValue ++ c.afterCertificate

def bytes : Bytes := der 0x30 c.contents ++ c.rest

/-- Nothing stands behind the last element at any level. -/
structure Whole : Prop where
  extension : ∀ e ∈ c.extensions, e.rest = []
  explicit : c.afterExplicit = []
  tbs : c.afterTbs = []
  certificate : c.afterCertificate = []
  whole : c.rest = []

/-- A length that the reader takes, and with it every length within. -/
def Fits : Prop := c.contents.length < 2 ^ 32

def oids : List Bytes := c.extensions.map Extension.oid

/-- It certifies this source: extensions with ids of their own, and among them the two texts. -/
structure Sourced (repository revision : String) : Prop where
  whole : c.Whole
  nodup : c.oids.Nodup
  repository : CertifiedBy c.extensions oidRepository repository
  revision : CertifiedBy c.extensions oidRevision revision

end Certificate

/-! ### Elements, written and read -/

section Elements
variable {tag : UInt8} {bytes contents rest : Bytes} {o : Option Bytes}

theorem finish_eq_ok {u : Unit} : finish bytes = .ok u ↔ bytes = [] :=
  refuseIf_eq_ok.trans not_not

theorem length_der : (der tag contents).length =
    contents.length + (Timestamp.derLength contents.length).length + 1 := by
  rw [der, List.length_append, List.length_cons]
  omega

theorem head?_der : (der tag contents ++ rest).head? = some tag := rfl

theorem length_le_derOptional (h : contents ∈ o) : contents.length ≤ (derOptional tag o).length := by
  obtain rfl := Option.mem_def.mp h
  rw [derOptional, length_der]
  omega

theorem take_der (h : contents.length < 2 ^ 32) :
    take tag (der tag contents ++ rest) = .ok (contents, rest) :=
  identity_take_iff.mpr ⟨rfl, h⟩

theorem der_inj {contents' rest' : Bytes} (h : contents.length < 2 ^ 32)
    (h' : contents'.length < 2 ^ 32) (hsame : der tag contents ++ rest = der tag contents' ++ rest') :
    contents = contents' ∧ rest = rest' := by
  have htake := @take_der tag contents rest h
  rw [hsame, take_der h'] at htake
  cases htake
  exact ⟨rfl, rfl⟩

theorem skip_der (h : contents.length < 2 ^ 32) : skip tag (der tag contents ++ rest) = .ok rest := by
  rw [skip, take_der h]
  rfl

theorem of_skip (h : skip tag bytes = .ok rest) : ∃ contents, bytes = der tag contents ++ rest := by
  obtain ⟨⟨contents, _⟩, htake, h⟩ := except_bind_eq_ok.mp h
  cases h
  exact ⟨contents, (identity_take_iff.mp htake).1⟩

/-- What is not there is told by the tag of what comes next. -/
theorem skipOptional_der (h : ∀ contents ∈ o, contents.length < 2 ^ 32)
    (hnext : rest.head? ≠ some tag) : skipOptional tag (derOptional tag o ++ rest) = .ok rest := by
  cases o with
  | none => exact if_neg hnext
  | some contents => exact (if_pos rfl).trans (skip_der (h contents rfl))

theorem of_skipOptional (h : skipOptional tag bytes = .ok rest) :
    ∃ o, bytes = derOptional tag o ++ rest := by
  unfold skipOptional at h
  split at h
  next =>
    obtain ⟨contents, hbytes⟩ := of_skip h
    exact ⟨some contents, hbytes⟩
  next =>
    cases h
    exact ⟨none, rfl⟩

theorem certifiedText_der {text : String} (h : (utf8 text).length < 2 ^ 32) :
    certifiedText (der 0x0c (utf8 text)) = .ok text := by
  have htake : take 0x0c (der 0x0c (utf8 text)) = .ok (utf8 text, []) :=
    identity_take_iff.mpr ⟨(List.append_nil _).symm, h⟩
  rw [certifiedText, htake]
  show (context _ (String.fromUTF8? _) >>= _) = _
  rw [Trust.fromUTF8?_utf8]
  rfl

theorem of_certifiedText {text : String} (h : certifiedText bytes = .ok text) :
    bytes = der 0x0c (utf8 text) := by
  obtain ⟨⟨contents, rest⟩, htake, h⟩ := except_bind_eq_ok.mp h
  obtain ⟨text', htext, h⟩ := except_bind_eq_ok.mp h
  obtain ⟨_, hrest, h⟩ := except_bind_eq_ok.mp h
  cases h
  rw [(identity_take_iff.mp htake).1, finish_eq_ok.mp hrest, List.append_nil,
    Trust.utf8_of_fromUTF8? (context_eq_ok.mp htext)]

end Elements

/-! ### Extensions -/

/-- An extension with nothing behind its value. -/
def Found.add (found : Found) (e : Extension) : Except String Found := do
  refuseIf (e.oid ∈ found.seen) "duplicate workflow certificate extension"
  { found with seen := e.oid :: found.seen }.note e.oid e.value

/-- The two ids that are looked for. -/
def Certified (oid : Bytes) : Prop := oid = oidRepository ∨ oid = oidRevision

/-- What has been found under an id. -/
def Found.at (found : Found) (oid : Bytes) : Option String :=
  if oid = oidRepository then found.repository
  else if oid = oidRevision then found.revision else .none

section Extensions
variable {found found' : Found} {e : Extension} {es : List Extension} {bytes rest : Bytes}

theorem oids_differ : oidRevision ≠ oidRepository := by decide

theorem readExtension_contents (h : e.contents.length < 2 ^ 32) :
    readExtension found e.contents = .ok found' ↔ e.rest = [] ∧ found.add e = .ok found' := by
  have hbounds : e.oid.length < 2 ^ 32 ∧ (derOptional 0x01 e.critical).length < 2 ^ 32 ∧
      e.value.length < 2 ^ 32 := by
    simp only [Extension.contents, List.length_append, length_der] at h
    omega
  obtain ⟨hoid, hcritical, hvalue⟩ := hbounds
  have hskip : skipOptional 0x01 (derOptional 0x01 e.critical ++ (der 0x04 e.value ++ e.rest)) =
      .ok (der 0x04 e.value ++ e.rest) := by
    refine skipOptional_der ?_ (by rw [head?_der]; decide)
    intro contents hcontents
    exact (length_le_derOptional hcontents).trans_lt hcritical
  have htake := @take_der 0x06 e.oid
    (derOptional 0x01 e.critical ++ (der 0x04 e.value ++ e.rest)) hoid
  have hlast := @take_der 0x04 e.value e.rest hvalue
  simp only [readExtension, Extension.contents, List.append_assoc, htake, hskip, hlast,
    except_ok_bind, Found.add, except_bind_eq_ok]
  constructor
  · intro hread
    obtain ⟨_, hnew, _, hrest, hnote⟩ := hread
    exact ⟨finish_eq_ok.mp hrest, (), hnew, hnote⟩
  · intro hadd
    obtain ⟨hrest, _, hnew, hnote⟩ := hadd
    exact ⟨(), hnew, (), finish_eq_ok.mpr hrest, hnote⟩

theorem of_readExtension (h : readExtension found bytes = .ok found') :
    ∃ e, bytes = e.contents ∧ e.rest = [] ∧ found.add e = .ok found' := by
  obtain ⟨⟨oid, behindOid⟩, hoid, h⟩ := except_bind_eq_ok.mp h
  obtain ⟨_, hnew, h⟩ := except_bind_eq_ok.mp h
  obtain ⟨behindCritical, hcritical, h⟩ := except_bind_eq_ok.mp h
  obtain ⟨⟨value, rest⟩, hvalue, h⟩ := except_bind_eq_ok.mp h
  obtain ⟨_, hrest, hnote⟩ := except_bind_eq_ok.mp h
  obtain ⟨critical, hcritical⟩ := of_skipOptional hcritical
  refine ⟨⟨oid, critical, value, []⟩, ?_, rfl, except_bind_eq_ok.mpr ⟨(), hnew, hnote⟩⟩
  rw [(identity_take_iff.mp hoid).1, hcritical, (identity_take_iff.mp hvalue).1,
    finish_eq_ok.mp hrest]
  simp only [Extension.contents, List.append_assoc]

theorem nextExtension_consumes (found : Found) : Consumes (nextExtension found) := by
  intro bytes found' rest h
  obtain ⟨⟨contents, _⟩, htake, h⟩ := except_bind_eq_ok.mp h
  obtain ⟨_, _, h⟩ := except_bind_eq_ok.mp h
  cases h
  rw [(identity_take_iff.mp htake).1, List.length_append, length_der]
  omega

/-- Extensions in a row, and whatever is behind them. -/
theorem foldEach_extensions (h : (es.flatMap Extension.bytes ++ rest).length < 2 ^ 32) :
    foldEach nextExtension found (es.flatMap Extension.bytes ++ rest) = .ok found' ↔
      (∀ e ∈ es, e.rest = []) ∧ ∃ found₁, es.foldlM Found.add found = .ok found₁ ∧
        foldEach nextExtension found₁ rest = .ok found' := by
  induction es generalizing found with
  | nil => simp [pure, Except.pure]
  | cons e es ih =>
    rw [List.flatMap_cons, List.append_assoc] at h ⊢
    have hsplit := h
    rw [List.length_append, Extension.bytes, length_der] at hsplit
    have hne : e.bytes ++ (es.flatMap Extension.bytes ++ rest) ≠ [] := List.cons_ne_nil _ _
    have htake := @take_der 0x30 e.contents (es.flatMap Extension.bytes ++ rest) (by omega)
    rw [foldEach_of_ne_nil nextExtension_consumes _ hne, nextExtension, Extension.bytes, htake,
      List.foldlM_cons, List.forall_mem_cons]
    simp only [except_ok_bind, bind_assoc, except_bind_eq_ok]
    constructor
    · intro hread
      obtain ⟨found₁, hfirst, _, hnext, hread⟩ := hread
      cases hnext
      obtain ⟨hrest, hadd⟩ := (readExtension_contents (by omega)).mp hfirst
      obtain ⟨hall, found₂, hfold, hread⟩ := (ih (by omega)).mp hread
      exact ⟨⟨hrest, hall⟩, found₂, ⟨found₁, hadd, hfold⟩, hread⟩
    · intro hread
      obtain ⟨⟨hrest, hall⟩, found₂, ⟨found₁, hadd, hfold⟩, hread⟩ := hread
      exact ⟨found₁, (readExtension_contents (by omega)).mpr ⟨hrest, hadd⟩, _, rfl,
        (ih (by omega)).mpr ⟨hall, found₂, hfold, hread⟩⟩

/-- What is gone over to its end are extensions, and nothing else. -/
theorem of_foldEach (h : foldEach nextExtension found bytes = .ok found') :
    ∃ es : List Extension, bytes = es.flatMap Extension.bytes ∧ (∀ e ∈ es, e.rest = []) ∧
      es.foldlM Found.add found = .ok found' := by
  induction hn : bytes.length using Nat.strongRecOn generalizing bytes found with
  | ind n ih =>
    subst hn
    by_cases hnil : bytes = []
    · subst hnil
      cases h
      exact ⟨[], rfl, nofun, rfl⟩
    · rw [foldEach_of_ne_nil nextExtension_consumes _ hnil] at h
      obtain ⟨⟨found₁, rest⟩, hnext, h⟩ := except_bind_eq_ok.mp h
      have hless := nextExtension_consumes found hnext
      obtain ⟨⟨contents, _⟩, htake, hnext⟩ := except_bind_eq_ok.mp hnext
      obtain ⟨_, hfirst, hnext⟩ := except_bind_eq_ok.mp hnext
      cases hnext
      obtain ⟨e, rfl, hrest, hadd⟩ := of_readExtension hfirst
      obtain ⟨es, rfl, hall, hfold⟩ := ih _ hless h rfl
      refine ⟨e :: es, (identity_take_iff.mp htake).1, List.forall_mem_cons.mpr ⟨hrest, hall⟩, ?_⟩
      rw [List.foldlM_cons]
      exact except_bind_eq_ok.mpr ⟨found₁, hadd, hfold⟩

theorem note_eq_ok {oid value : Bytes} (h : found.note oid value = .ok found') :
    found'.seen = found.seen ∧ (∀ other, other ≠ oid → found'.at other = found.at other) ∧
      (Certified oid → ∃ text, value = der 0x0c (utf8 text) ∧ found'.at oid = some text) := by
  unfold Found.note at h
  split at h
  next hoid =>
    obtain ⟨text, htext, h⟩ := except_bind_eq_ok.mp h
    cases h
    refine ⟨rfl, ?_, fun _ => ⟨text, of_certifiedText htext, if_pos hoid⟩⟩
    intro other hother
    have hother : other ≠ oidRepository := hoid ▸ hother
    simp only [Found.at, if_neg hother]
  next hne =>
    split at h
    next hoid =>
      obtain ⟨text, htext, h⟩ := except_bind_eq_ok.mp h
      cases h
      refine ⟨rfl, ?_, fun _ => ⟨text, of_certifiedText htext, ?_⟩⟩
      · intro other hother
        have hother : other ≠ oidRevision := hoid ▸ hother
        simp only [Found.at, if_neg hother]
      · rw [Found.at, if_neg hne, if_pos hoid]
    next hother =>
      cases h
      exact ⟨rfl, fun _ _ => rfl, fun hcertified => absurd hcertified (not_or.mpr ⟨hne, hother⟩)⟩

theorem note_of_readable {oid value : Bytes} (hsize : value.length < 2 ^ 32)
    (h : Certified oid → ∃ text, value = der 0x0c (utf8 text)) :
    ∃ found', found.note oid value = .ok found' := by
  have htext (hcertified : Certified oid) : ∃ text, certifiedText value = .ok text := by
    obtain ⟨text, rfl⟩ := h hcertified
    rw [length_der] at hsize
    exact ⟨text, certifiedText_der (by omega)⟩
  unfold Found.note
  split
  next hoid =>
    obtain ⟨text, htext⟩ := htext (.inl hoid)
    exact ⟨_, except_bind_eq_ok.mpr ⟨text, htext, rfl⟩⟩
  next =>
    split
    next hoid =>
      obtain ⟨text, htext⟩ := htext (.inr hoid)
      exact ⟨_, except_bind_eq_ok.mpr ⟨text, htext, rfl⟩⟩
    next => exact ⟨found, rfl⟩

/-- What a walk that ends has found, and in what. -/
theorem of_foldlM_add (h : es.foldlM Found.add found = .ok found') :
    (es.map Extension.oid).Nodup ∧ (∀ e ∈ es, e.oid ∉ found.seen) ∧
      (∀ e ∈ es, Certified e.oid → ∃ text, e.value = der 0x0c (utf8 text)) ∧
      ∀ oid text, Certified oid → found'.at oid = some text →
        found.at oid = some text ∨ CertifiedBy es oid text := by
  induction es generalizing found with
  | nil =>
    cases h
    exact ⟨List.nodup_nil, nofun, nofun, fun _ _ _ hfound => .inl hfound⟩
  | cons e es ih =>
    rw [List.foldlM_cons] at h
    obtain ⟨found₁, hadd, h⟩ := except_bind_eq_ok.mp h
    obtain ⟨_, hnew, hnote⟩ := except_bind_eq_ok.mp hadd
    obtain ⟨hseen, hothers, htext⟩ := note_eq_ok hnote
    obtain ⟨hnodup, hfresh, hreadable, hfound⟩ := ih h
    have hfresh' (e' : Extension) (he' : e' ∈ es) : e'.oid ∉ e.oid :: found.seen := by
      have hnot := hfresh e' he'
      rwa [hseen] at hnot
    refine ⟨?_, ?_, ?_, ?_⟩
    · rw [List.map_cons, List.nodup_cons]
      refine ⟨?_, hnodup⟩
      intro hmem
      obtain ⟨e', he', hoid⟩ := List.mem_map.mp hmem
      exact hfresh' e' he' (hoid ▸ List.mem_cons_self)
    · rw [List.forall_mem_cons]
      exact ⟨refuseIf_eq_ok.mp hnew, fun e' he' hmem => hfresh' e' he' (List.mem_cons_of_mem _ hmem)⟩
    · rw [List.forall_mem_cons]
      refine ⟨?_, hreadable⟩
      intro hcertified
      obtain ⟨text, hvalue, _⟩ := htext hcertified
      exact ⟨text, hvalue⟩
    · intro oid text hcertified hat
      rcases hfound oid text hcertified hat with hat | ⟨e', he', hoid⟩
      · by_cases hoid : oid = e.oid
        · subst hoid
          obtain ⟨text', hvalue, hat'⟩ := htext hcertified
          cases hat'.symm.trans hat
          exact .inr ⟨e, List.mem_cons_self, rfl, hvalue⟩
        · rw [hothers oid hoid] at hat
          exact .inl hat
      · exact .inr ⟨e', List.mem_cons_of_mem _ he', hoid⟩

/-- Extensions with ids of their own, of which the two that are looked for hold texts. -/
theorem foldlM_add (hsize : ∀ e ∈ es, e.value.length < 2 ^ 32)
    (hnodup : (es.map Extension.oid).Nodup) (hfresh : ∀ e ∈ es, e.oid ∉ found.seen)
    (hreadable : ∀ e ∈ es, Certified e.oid → ∃ text, e.value = der 0x0c (utf8 text)) :
    ∃ found', es.foldlM Found.add found = .ok found' ∧ ∀ oid, Certified oid →
      (∀ e ∈ es, e.oid ≠ oid) ∧ found'.at oid = found.at oid ∨
        ∃ e ∈ es, ∃ text, e.oid = oid ∧ e.value = der 0x0c (utf8 text) ∧
          found'.at oid = some text := by
  induction es generalizing found with
  | nil => exact ⟨found, rfl, fun _ _ => .inl ⟨nofun, rfl⟩⟩
  | cons e es ih =>
    rw [List.map_cons, List.nodup_cons] at hnodup
    rw [List.forall_mem_cons] at hsize hfresh hreadable
    obtain ⟨found₁, hnote⟩ := @note_of_readable { found with seen := e.oid :: found.seen } e.oid
      e.value hsize.1 hreadable.1
    obtain ⟨hseen, hothers, htext⟩ := note_eq_ok hnote
    have hapart (e' : Extension) (he' : e' ∈ es) : e'.oid ≠ e.oid := fun hoid =>
      hnodup.1 (hoid ▸ List.mem_map_of_mem he')
    have hfresh₁ (e' : Extension) (he' : e' ∈ es) : e'.oid ∉ found₁.seen := by
      rw [hseen, List.mem_cons]
      exact not_or.mpr ⟨hapart e' he', hfresh.2 e' he'⟩
    obtain ⟨found', hfold, hfound⟩ := ih hsize.2 hnodup.2 hfresh₁ hreadable.2
    refine ⟨found', ?_, ?_⟩
    · rw [List.foldlM_cons]
      exact except_bind_eq_ok.mpr
        ⟨found₁, except_bind_eq_ok.mpr ⟨(), refuseIf_eq_ok.mpr hfresh.1, hnote⟩, hfold⟩
    · intro oid hcertified
      rcases hfound oid hcertified with ⟨hnone, hat⟩ | ⟨e', he', htext'⟩
      · by_cases hoid : e.oid = oid
        · subst hoid
          obtain ⟨text, hvalue, hat'⟩ := htext hcertified
          exact .inr ⟨e, List.mem_cons_self, text, rfl, hvalue, hat.trans hat'⟩
        · refine .inl ⟨List.forall_mem_cons.mpr ⟨hoid, hnone⟩, hat.trans ?_⟩
          exact hothers oid (Ne.symm hoid)
      · exact .inr ⟨e', List.mem_cons_of_mem _ he', htext'⟩

end Extensions

/-! ### Certificates, written and read -/

section Certificates
variable {c : Certificate} {bytes rest : Bytes} {repository revision : String}

/-- Every length that the walk reads is below that of the whole. -/
structure Certificate.Bounds (c : Certificate) : Prop where
  tbs : c.tbs.length < 2 ^ 32
  signatureAlgorithm : c.signatureAlgorithm.length < 2 ^ 32
  signatureValue : c.signatureValue.length < 2 ^ 32
  version : ∀ contents ∈ c.version, contents.length < 2 ^ 32
  serialNumber : c.serialNumber.length < 2 ^ 32
  signature : c.signature.length < 2 ^ 32
  issuer : c.issuer.length < 2 ^ 32
  validity : c.validity.length < 2 ^ 32
  subject : c.subject.length < 2 ^ 32
  subjectPublicKeyInfo : c.subjectPublicKeyInfo.length < 2 ^ 32
  issuerUniqueId : ∀ contents ∈ c.issuerUniqueId, contents.length < 2 ^ 32
  subjectUniqueId : ∀ contents ∈ c.subjectUniqueId, contents.length < 2 ^ 32
  explicit : c.explicit.length < 2 ^ 32
  extensions : c.extensionBytes.length < 2 ^ 32

theorem Certificate.Fits.bounds (h : c.Fits) : c.Bounds := by
  have hcontents : c.contents.length < 2 ^ 32 := h
  simp only [Certificate.contents, List.length_append, length_der] at hcontents
  have htbs : c.tbs.length < 2 ^ 32 := by omega
  have hparts := htbs
  simp only [Certificate.tbs, List.length_append, length_der] at hparts
  have hexplicit : c.explicit.length < 2 ^ 32 := by omega
  have hextensions := hexplicit
  simp only [Certificate.explicit, List.length_append, length_der] at hextensions
  have hoptional {tag : UInt8} {o : Option Bytes} (ho : (derOptional tag o).length < 2 ^ 32)
      (contents : Bytes) (hmem : contents ∈ o) : contents.length < 2 ^ 32 :=
    (length_le_derOptional hmem).trans_lt ho
  have hversion : (derOptional 0xa0 c.version).length < 2 ^ 32 := by omega
  have hissuer : (derOptional 0x81 c.issuerUniqueId).length < 2 ^ 32 := by omega
  have hsubject : (derOptional 0x82 c.subjectUniqueId).length < 2 ^ 32 := by omega
  refine ⟨htbs, ?_, ?_, hoptional hversion, ?_, ?_, ?_, ?_, ?_, ?_, hoptional hissuer,
    hoptional hsubject, hexplicit, ?_⟩ <;> omega

/-- What the walk makes of a certificate, by what it opens. -/
theorem certificateSource_bytes (h : c.Fits) :
    certificateSource c.bytes = .ok (repository, revision) ↔
      (c.rest = [] ∧ c.afterCertificate = [] ∧ c.afterTbs = [] ∧ c.afterExplicit = []) ∧
        ∃ found, foldEach nextExtension .none c.extensionBytes = .ok found ∧
          found.repository = some repository ∧ found.revision = some revision := by
  have hb := h.bounds
  have hwhole : take 0x30 c.bytes = .ok (c.contents, c.rest) := take_der h
  have htbs : take 0x30 c.contents = .ok (c.tbs, der 0x30 c.signatureAlgorithm ++
      (der 0x03 c.signatureValue ++ c.afterCertificate)) := by
    rw [Certificate.contents, List.append_assoc, List.append_assoc]
    exact take_der hb.tbs
  have hexplicit : take 0x30 c.explicit = .ok (c.extensionBytes, c.afterExplicit) :=
    take_der hb.extensions
  have hlast : skipOptional 0x82 (derOptional 0x82 c.subjectUniqueId ++
      (der 0xa3 c.explicit ++ c.afterTbs)) = .ok (der 0xa3 c.explicit ++ c.afterTbs) :=
    skipOptional_der hb.subjectUniqueId (by rw [head?_der]; decide)
  have hissuer : skipOptional 0x81 (derOptional 0x81 c.issuerUniqueId ++
      (derOptional 0x82 c.subjectUniqueId ++ (der 0xa3 c.explicit ++ c.afterTbs))) =
      .ok (derOptional 0x82 c.subjectUniqueId ++ (der 0xa3 c.explicit ++ c.afterTbs)) := by
    refine skipOptional_der hb.issuerUniqueId ?_
    cases c.subjectUniqueId with
    | none =>
      rw [derOptional, List.nil_append, head?_der]
      decide
    | some contents =>
      rw [derOptional, head?_der]
      decide
  have hversion (rest : Bytes) : skipOptional 0xa0 (derOptional 0xa0 c.version ++
      (der 0x02 c.serialNumber ++ rest)) = .ok (der 0x02 c.serialNumber ++ rest) :=
    skipOptional_der hb.version (by rw [head?_der]; decide)
  have hinside : take 0xa3 (der 0xa3 c.explicit ++ c.afterTbs) = .ok (c.explicit, c.afterTbs) :=
    take_der hb.explicit
  simp only [certificateSource, hwhole, htbs, skip_der hb.signatureAlgorithm,
    skip_der hb.signatureValue, except_ok_bind, Certificate.tbs, List.append_assoc, hversion,
    List.foldlM_cons, List.foldlM_nil, skip_der hb.serialNumber, skip_der hb.signature,
    skip_der hb.issuer, skip_der hb.validity, skip_der hb.subject, skip_der hb.subjectPublicKeyInfo,
    hissuer, hlast, hinside, hexplicit, mapError_ok, pure_bind, except_bind_eq_ok, finish_eq_ok,
    context_eq_ok]
  constructor
  · intro h
    obtain ⟨_, hrest, _, hcertificate, _, htbs, _, hexplicit, found, hfold, repository', hrepository,
      revision', hrevision, hsame⟩ := h
    cases hsame
    exact ⟨⟨hrest, hcertificate, htbs, hexplicit⟩, found, hfold, hrepository, hrevision⟩
  · intro h
    obtain ⟨⟨hrest, hcertificate, htbs, hexplicit⟩, found, hfold, hrepository, hrevision⟩ := h
    exact ⟨(), hrest, (), hcertificate, (), htbs, (), hexplicit, found, hfold, _, hrepository, _,
      hrevision, rfl⟩

/-- What is accepted is a certificate with nothing behind its parts. -/
theorem of_certificateSource (h : certificateSource bytes = .ok (repository, revision)) :
    ∃ c : Certificate, bytes = c.bytes ∧ c.Whole ∧ c.afterExtensions = [] ∧ c.Fits := by
  obtain ⟨⟨certificate, outer⟩, hwhole, h⟩ := except_bind_eq_ok.mp h
  obtain ⟨_, houter, h⟩ := except_bind_eq_ok.mp h
  obtain ⟨⟨tbs, behindTbs⟩, htbs, h⟩ := except_bind_eq_ok.mp h
  obtain ⟨behindAlgorithm, halgorithm, h⟩ := except_bind_eq_ok.mp h
  obtain ⟨behindValue, hvalue, h⟩ := except_bind_eq_ok.mp h
  obtain ⟨_, hcertificate, h⟩ := except_bind_eq_ok.mp h
  obtain ⟨behindVersion, hversion, h⟩ := except_bind_eq_ok.mp h
  obtain ⟨behindFields, hfields, h⟩ := except_bind_eq_ok.mp h
  obtain ⟨behindIds, hids, h⟩ := except_bind_eq_ok.mp h
  obtain ⟨⟨explicit, behindExplicit⟩, hexplicit, h⟩ := except_bind_eq_ok.mp h
  obtain ⟨_, hlast, h⟩ := except_bind_eq_ok.mp h
  obtain ⟨⟨extensions, behindExtensions⟩, hextensions, h⟩ := except_bind_eq_ok.mp h
  obtain ⟨_, hend, h⟩ := except_bind_eq_ok.mp h
  obtain ⟨found, hfold, _⟩ := except_bind_eq_ok.mp h
  simp only [List.foldlM_cons, List.foldlM_nil, except_bind_eq_ok] at hfields hids
  obtain ⟨_, h1, _, h2, _, h3, _, h4, _, h5, _, h6, hfields⟩ := hfields
  obtain ⟨_, hissuer, _, hsubject, hids⟩ := hids
  cases hfields
  cases hids
  obtain ⟨signatureAlgorithm, halgorithm⟩ := of_skip halgorithm
  obtain ⟨signatureValue, hvalue⟩ := of_skip hvalue
  obtain ⟨version, hversion⟩ := of_skipOptional hversion
  obtain ⟨serialNumber, h1⟩ := of_skip h1
  obtain ⟨signature, h2⟩ := of_skip h2
  obtain ⟨issuer, h3⟩ := of_skip h3
  obtain ⟨validity, h4⟩ := of_skip h4
  obtain ⟨subject, h5⟩ := of_skip h5
  obtain ⟨subjectPublicKeyInfo, h6⟩ := of_skip h6
  obtain ⟨issuerUniqueId, hissuer⟩ := of_skipOptional hissuer
  obtain ⟨subjectUniqueId, hsubject⟩ := of_skipOptional hsubject
  obtain ⟨es, hes, hall, _⟩ := of_foldEach hfold
  obtain ⟨hwhole, hfits⟩ := identity_take_iff.mp hwhole
  obtain ⟨htbs, _⟩ := identity_take_iff.mp htbs
  obtain ⟨hexplicit, _⟩ := identity_take_iff.mp (mapError_eq_ok.mp hexplicit)
  obtain ⟨hextensions, _⟩ := identity_take_iff.mp hextensions
  rw [finish_eq_ok] at houter hcertificate hlast hend
  subst houter hcertificate hlast hend hwhole htbs halgorithm hvalue hversion h1 h2 h3 h4 h5 h6
    hissuer hsubject hexplicit hextensions hes
  refine ⟨⟨version, serialNumber, signature, issuer, validity, subject, subjectPublicKeyInfo,
    issuerUniqueId, subjectUniqueId, es, signatureAlgorithm, signatureValue, [], [], [], [], []⟩,
    ?_, ⟨hall, rfl, rfl, rfl, rfl⟩, rfl, ?_⟩
  · simp only [Certificate.bytes, Certificate.contents, Certificate.tbs, Certificate.explicit,
      Certificate.extensionBytes, List.append_nil, List.append_assoc]
  · simpa only [Certificate.Fits, Certificate.contents, Certificate.tbs, Certificate.explicit,
      Certificate.extensionBytes, List.append_nil, List.append_assoc] using hfits

theorem at_repository {found : Found} : found.at oidRepository = found.repository := if_pos rfl

theorem at_revision {found : Found} : found.at oidRevision = found.revision :=
  (if_neg oids_differ).trans (if_pos rfl)

/-- The value of an extension is within the extensions. -/
theorem value_le {e : Extension} {es : List Extension} (h : e ∈ es) :
    e.value.length ≤ (es.flatMap Extension.bytes).length := by
  have hle : e.bytes.length ≤ (es.flatMap Extension.bytes).length :=
    (List.sublist_flatten_of_mem (List.mem_map_of_mem h)).length_le
  refine le_trans ?_ hle
  simp only [Extension.bytes, Extension.contents, List.length_append, length_der]
  omega

/-- The text of an id that no other extension has. -/
theorem text_unique {es : List Extension} {oid : Bytes} {text text' : String}
    (hsize : (es.flatMap Extension.bytes).length < 2 ^ 32) (hnodup : (es.map Extension.oid).Nodup)
    (h : CertifiedBy es oid text) (h' : CertifiedBy es oid text') : text = text' := by
  obtain ⟨e, he, hoid, hvalue⟩ := h
  obtain ⟨e', he', hoid', hvalue'⟩ := h'
  obtain rfl := List.inj_on_of_nodup_map hnodup he he' (hoid.trans hoid'.symm)
  have hlength := (value_le he).trans_lt hsize
  have htext : (utf8 text).length < 2 ^ 32 := by
    rw [hvalue, length_der] at hlength
    omega
  have htext' : (utf8 text').length < 2 ^ 32 := by
    rw [hvalue', length_der] at hlength
    omega
  have hsame : der 0x0c (utf8 text) ++ [] = der 0x0c (utf8 text') ++ [] := by
    rw [← hvalue, hvalue']
  exact Trust.utf8_injective (der_inj htext htext' hsame).1

/-- The certificates that certify a source are read. -/
theorem source_of_sourced (h : c.Fits) (hlast : c.afterExtensions = [])
    (hsourced : c.Sourced repository revision) :
    certificateSource c.bytes = .ok (repository, revision) := by
  have hbytes : c.extensionBytes = c.extensions.flatMap Extension.bytes := by
    rw [Certificate.extensionBytes, hlast, List.append_nil]
  have hsize := h.bounds.extensions
  rw [hbytes] at hsize
  have hunique (e : Extension) (he : e ∈ c.extensions) (oid : Bytes) (text : String)
      (hoid : e.oid = oid) (htext : CertifiedBy c.extensions oid text) :
      e.value = der 0x0c (utf8 text) := by
    obtain ⟨e', he', hoid', hvalue⟩ := htext
    rw [List.inj_on_of_nodup_map hsourced.nodup he he' (hoid.trans hoid'.symm), hvalue]
  have hreadable (e : Extension) (he : e ∈ c.extensions) (hcertified : Certified e.oid) :
      ∃ text, e.value = der 0x0c (utf8 text) := by
    rcases hcertified with hoid | hoid
    · exact ⟨repository, hunique e he _ _ hoid hsourced.repository⟩
    · exact ⟨revision, hunique e he _ _ hoid hsourced.revision⟩
  obtain ⟨found, hfold, hfound⟩ := @foldlM_add .none c.extensions
    (fun e he => (value_le he).trans_lt hsize) hsourced.nodup (fun _ _ => List.not_mem_nil) hreadable
  have hat (oid : Bytes) (text : String) (hcertified : Certified oid)
      (htext : CertifiedBy c.extensions oid text) : found.at oid = some text := by
    rcases hfound oid hcertified with ⟨hnone, _⟩ | ⟨e, he, text', hoid, hvalue, hat⟩
    · obtain ⟨e, he, hoid, _⟩ := htext
      exact absurd hoid (hnone e he)
    · rw [hat, text_unique hsize hsourced.nodup ⟨e, he, hoid, hvalue⟩ htext]
  refine (certificateSource_bytes h).mpr ⟨⟨hsourced.whole.whole, hsourced.whole.certificate,
    hsourced.whole.tbs, hsourced.whole.explicit⟩, found, ?_, ?_, ?_⟩
  · rw [hbytes, ← List.append_nil (c.extensions.flatMap _)]
    rw [← List.append_nil (c.extensions.flatMap _)] at hsize
    exact (foldEach_extensions hsize).mpr ⟨hsourced.whole.extension, found, hfold, rfl⟩
  · exact at_repository.symm.trans (hat _ _ (.inl rfl) hsourced.repository)
  · exact at_revision.symm.trans (hat _ _ (.inr rfl) hsourced.revision)

/-- What a certificate has that is accepted, whatever stands behind its parts: nothing does, but
for further extensions behind the extensions. -/
theorem whole_of_accepted (h : c.Fits) (haccepted : certificateSource c.bytes = .ok (repository, revision)) :
    c.Whole ∧ (∀ e ∈ c.extensions, Certified e.oid → ∃ text, e.value = der 0x0c (utf8 text)) ∧
      ∃ more : List Extension, c.afterExtensions = more.flatMap Extension.bytes ∧
        (∀ e ∈ more, e.rest = []) ∧ ((c.extensions ++ more).map Extension.oid).Nodup ∧
        CertifiedBy (c.extensions ++ more) oidRepository repository ∧
        CertifiedBy (c.extensions ++ more) oidRevision revision := by
  obtain ⟨⟨hrest, hcertificate, htbs, hexplicit⟩, found, hfold, hrepository, hrevision⟩ :=
    (certificateSource_bytes h).mp haccepted
  obtain ⟨hall, found₁, hfirst, hfold⟩ := (foldEach_extensions h.bounds.extensions).mp hfold
  obtain ⟨more, hmore, hwhole, hlast⟩ := of_foldEach hfold
  have hboth : (c.extensions ++ more).foldlM Found.add .none = .ok found := by
    rw [List.foldlM_append]
    exact except_bind_eq_ok.mpr ⟨found₁, hfirst, hlast⟩
  obtain ⟨hnodup, _, hreadable, hfound⟩ := of_foldlM_add hboth
  have hcertified (oid : Bytes) (text : String) (hoid : Certified oid)
      (hat : found.at oid = some text) : CertifiedBy (c.extensions ++ more) oid text := by
    refine (hfound oid text hoid hat).resolve_left ?_
    rcases hoid with rfl | rfl
    · exact nofun
    · exact nofun
  exact ⟨⟨hall, hexplicit, htbs, hcertificate, hrest⟩,
    fun e he => hreadable e (List.mem_append_left _ he), more, hmore, hwhole, hnodup,
    hcertified _ _ (.inl rfl) (at_repository.trans hrepository),
    hcertified _ _ (.inr rfl) (at_revision.trans hrevision)⟩

def Accepted (bytes : Bytes) : Prop := ∃ source, certificateSource bytes = .ok source

/-- What is accepted with a source, and what of it is read. -/
theorem certificateSource_iff : certificateSource bytes = .ok (repository, revision) ↔
    ∃ c : Certificate, bytes = c.bytes ∧ c.Fits ∧ c.afterExtensions = [] ∧
      c.Sourced repository revision := by
  constructor
  · intro h
    obtain ⟨c, rfl, hwhole, hlast, hfits⟩ := of_certificateSource h
    obtain ⟨_, _, more, hmore, _, hnodup, hrepository, hrevision⟩ := whole_of_accepted hfits h
    have hnil : more = [] := by
      cases more with
      | nil => rfl
      | cons e more =>
        rw [hlast, List.flatMap_cons] at hmore
        exact absurd hmore.symm (List.cons_ne_nil _ _)
    subst hnil
    rw [List.append_nil] at hnodup hrepository hrevision
    exact ⟨c, rfl, hfits, hlast, hwhole, hnodup, hrepository, hrevision⟩
  · intro h
    obtain ⟨c, rfl, hfits, hlast, hsourced⟩ := h
    exact source_of_sourced hfits hlast hsourced

/-- What is accepted is one element, and its length is that of the whole. -/
theorem one_element (h : Accepted bytes) :
    ∃ contents, bytes = der 0x30 contents ∧ contents.length < 2 ^ 32 := by
  obtain ⟨⟨repository, revision⟩, h⟩ := h
  obtain ⟨c, rfl, hfits, _, hsourced⟩ := certificateSource_iff.mp h
  refine ⟨c.contents, ?_, hfits⟩
  rw [Certificate.bytes, hsourced.whole.whole, List.append_nil]

theorem prefix_free (h : Accepted bytes) (h' : Accepted (bytes ++ rest)) : rest = [] := by
  obtain ⟨contents, rfl, hsize⟩ := one_element h
  obtain ⟨contents', hsame, hsize'⟩ := one_element h'
  rw [← List.append_nil (der 0x30 contents')] at hsame
  exact (der_inj hsize hsize' hsame).2

/-- Behind its extensions a certificate goes on with what is read as further ones. -/
theorem bytes_more (more : List Extension) (h : c.afterExtensions = more.flatMap Extension.bytes) :
    c.bytes =
      { c with extensions := c.extensions ++ more, afterExtensions := [] : Certificate }.bytes := by
  simp only [Certificate.bytes, Certificate.contents, Certificate.tbs, Certificate.explicit,
    Certificate.extensionBytes, h, List.flatMap_append, List.append_nil]

theorem length_le_of_accepted (h : Accepted bytes) : bytes.length ≤ 2 ^ 32 + 5 := by
  obtain ⟨contents, rfl, hsize⟩ := one_element h
  obtain ⟨first, tail, hheader, hmost⟩ :=
    header_cons ((derLength_iff.mp ⟨rfl, hsize⟩).imp_right fun ⟨raw, hlong, _⟩ => ⟨raw, hlong⟩)
  rw [length_der, hheader, List.length_cons]
  omega

/-- A certificate that fits is read to its source when each of its extensions has an id of its own
and two of them hold the texts. What is read is such a certificate, and it ends where it is read
to: nothing may follow it, or any part of it that is opened, but for further extensions behind the
extensions. -/
theorem certificate_source_exact :
    (∀ (c : Certificate) (repository revision : String), c.Fits → c.afterExtensions = [] →
      c.Sourced repository revision →
        certificateSource c.bytes = .ok (repository, revision)) ∧
    (∀ (bytes : Bytes) (repository revision : String),
      certificateSource bytes = .ok (repository, revision) → ∃ c : Certificate, bytes = c.bytes ∧
        c.Fits ∧ c.afterExtensions = [] ∧ c.Sourced repository revision) ∧
    (∀ bytes rest : Bytes, Accepted bytes → Accepted (bytes ++ rest) → rest = []) ∧
    ∀ c : Certificate, c.Fits → Accepted c.bytes → c.Whole ∧
      (∀ e ∈ c.extensions, Certified e.oid → ∃ text, e.value = der 0x0c (utf8 text)) ∧
      ∃ more : List Extension, c.afterExtensions = more.flatMap Extension.bytes ∧
        (∀ e ∈ more, e.rest = []) ∧ ((c.extensions ++ more).map Extension.oid).Nodup := by
  refine ⟨fun c repository revision => source_of_sourced, ?_, fun bytes rest => prefix_free, ?_⟩
  · intro bytes repository revision
    exact certificateSource_iff.mp
  · intro c hfits haccepted
    obtain ⟨⟨repository, revision⟩, haccepted⟩ := haccepted
    obtain ⟨hwhole, hreadable, more, hmore, hends, hnodup, _⟩ := whole_of_accepted hfits haccepted
    exact ⟨hwhole, hreadable, more, hmore, hends, hnodup⟩

end Certificates

/-! ### Where a certificate is too long, or goes on -/

def sourceExtension (oid : Bytes) (text : String) : Extension :=
  ⟨oid, none, der 0x0c (utf8 text), []⟩

/-- A certificate with two extensions, of which the fields are empty but for the serial number. -/
def sampleCertificate (serialNumber more : Bytes) : Certificate :=
  ⟨none, serialNumber, [], [], [], [], [], none, none,
    [sourceExtension oidRepository "r", sourceExtension oidRevision "v"], [], [], more, [], [], [],
    []⟩

theorem sourced_sample (serialNumber more : Bytes) :
    (sampleCertificate serialNumber more).Sourced "r" "v" where
  whole := ⟨by simp [sampleCertificate, sourceExtension], rfl, rfl, rfl, rfl⟩
  nodup := by
    show [oidRepository, oidRevision].Nodup
    decide
  repository := ⟨_, List.mem_cons_self, rfl, rfl⟩
  revision := ⟨_, List.mem_cons_of_mem _ List.mem_cons_self, rfl, rfl⟩

theorem fits_sample : (sampleCertificate [1] []).Fits := by
  show (sampleCertificate [1] []).contents.length < 2 ^ 32
  decide

theorem certificate_source_exact_sample :
    certificateSource (sampleCertificate [1] []).bytes = .ok ("r", "v") :=
  certificate_source_exact.1 _ _ _ fits_sample rfl (sourced_sample [1] [])

/-- A certificate of more than four gigabytes is refused, and one that is accepted is accepted with
bytes behind its last extension, where they are read as another extension. -/
theorem certificate_source_limits :
    ((sampleCertificate (List.replicate (2 ^ 33) 0) []).Sourced "r" "v" ∧
        (sampleCertificate (List.replicate (2 ^ 33) 0) []).afterExtensions = [] ∧
        ¬ Accepted (sampleCertificate (List.replicate (2 ^ 33) 0) []).bytes) ∧
      Accepted (sampleCertificate [1] []).bytes ∧
      Accepted (sampleCertificate [1] (sourceExtension [0x55] "x").bytes).bytes := by
  refine ⟨⟨sourced_sample _ _, rfl, ?_⟩, ⟨("r", "v"), ?_⟩, ⟨("r", "v"), ?_⟩⟩
  · intro haccepted
    have hlength := length_le_of_accepted haccepted
    simp only [Certificate.bytes, Certificate.contents, Certificate.tbs, List.length_append,
      length_der] at hlength
    have hserial : (sampleCertificate (List.replicate (2 ^ 33) 0) []).serialNumber.length =
      2 ^ 33 := List.length_replicate
    omega
  · exact source_of_sourced fits_sample rfl (sourced_sample [1] [])
  · rw [bytes_more [sourceExtension [0x55] "x"] (by simp [sampleCertificate])]
    refine source_of_sourced ?_ rfl ⟨⟨?_, rfl, rfl, rfl, rfl⟩, ?_, ?_, ?_⟩
    · show List.length _ < 2 ^ 32
      decide
    · simp [sampleCertificate, sourceExtension]
    · show [oidRepository, oidRevision, [0x55]].Nodup
      decide
    · exact ⟨_, List.mem_cons_self, rfl, rfl⟩
    · exact ⟨_, List.mem_cons_of_mem _ List.mem_cons_self, rfl, rfl⟩

end Attest.Identity
