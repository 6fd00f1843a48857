import Mathlib.Data.List.Forall2
import Attest.Timestamp.Token

/-! Which certificates may stamp.

RFC 3161 asks for exactly one extended key usage, critical, and for nothing in it but
`id-kp-timeStamping`; `Dedicated` is a list of extensions that says so and is read to its end.
`Certificate.parse` stops wherever an element is not read, does not look at what is left, and takes
the last usage it has met. `allowsTimestamping_iff` says for which certificates that is the same. -/
namespace Attest.Timestamp
open Library.Fallible Library.Reader
open Trust (Bytes)

/-! ### Where the extensions are -/

/-- What is behind the public key of a certificate. -/
def behindKey (der : Bytes) : Except TimestampError Bytes := do
  let (certificate, _) ← sequence der
  let (tbs, _) ← element tagSequence certificate
  let (fields, _) ← sequence tbs
  let fields ← skipVersion fields
  let (_, fields) ← skipAny fields
  let (_, fields) ← algorithmOid fields
  let (_, fields) ← element tagSequence fields
  let (_, fields) ← sequence fields
  let (_, fields) ← element tagSequence fields
  let (_, fields) ← sequence fields
  return fields

/-- The first `[3]`, or the end. -/
def extensionsField (der : Bytes) : Except TimestampError Bytes := do
  let fields ← behindKey der
  skipWhile (· != tagContext3) skipAny fields

section Walk
variable {c : TimestampCrates} {der : Bytes} {cert : Certificate}

/-- The flag of a certificate comes from there. -/
theorem parse_extensions (h : Certificate.parse c der = .ok cert) :
    ∃ fields, behindKey der = .ok fields ∧ readExtensions fields = .ok cert.allowsTimestamping := by
  obtain ⟨⟨certificate, _⟩, hcertificate, h⟩ := except_bind_eq_ok.mp h
  obtain ⟨⟨tbs, _⟩, htbs, h⟩ := except_bind_eq_ok.mp h
  obtain ⟨_, _, h⟩ := except_bind_eq_ok.mp h
  obtain ⟨_, _, h⟩ := except_bind_eq_ok.mp h
  obtain ⟨_, _, h⟩ := except_bind_eq_ok.mp h
  obtain ⟨⟨fields, _⟩, hfields, h⟩ := except_bind_eq_ok.mp h
  obtain ⟨versioned, hversion, h⟩ := except_bind_eq_ok.mp h
  obtain ⟨⟨_, numbered⟩, hserial, h⟩ := except_bind_eq_ok.mp h
  obtain ⟨⟨_, named⟩, halgorithm, h⟩ := except_bind_eq_ok.mp h
  obtain ⟨_, _, h⟩ := except_bind_eq_ok.mp h
  obtain ⟨⟨_, issued⟩, hissuer, h⟩ := except_bind_eq_ok.mp h
  obtain ⟨⟨_, dated⟩, hvalidity, h⟩ := except_bind_eq_ok.mp h
  obtain ⟨_, _, h⟩ := except_bind_eq_ok.mp h
  obtain ⟨_, _, h⟩ := except_bind_eq_ok.mp h
  obtain ⟨⟨_, addressed⟩, hsubject, h⟩ := except_bind_eq_ok.mp h
  obtain ⟨⟨_, behind⟩, hkey, h⟩ := except_bind_eq_ok.mp h
  obtain ⟨_, _, h⟩ := except_bind_eq_ok.mp h
  obtain ⟨_, _, h⟩ := except_bind_eq_ok.mp h
  obtain ⟨allows, hallows, h⟩ := except_bind_eq_ok.mp h
  cases h
  refine ⟨behind, ?_, hallows⟩
  refine except_bind_eq_ok.mpr ⟨_, hcertificate, except_bind_eq_ok.mpr ⟨_, htbs, ?_⟩⟩
  refine except_bind_eq_ok.mpr ⟨_, hfields, except_bind_eq_ok.mpr ⟨_, hversion, ?_⟩⟩
  refine except_bind_eq_ok.mpr ⟨_, hserial, except_bind_eq_ok.mpr ⟨_, halgorithm, ?_⟩⟩
  refine except_bind_eq_ok.mpr ⟨_, hissuer, except_bind_eq_ok.mpr ⟨_, hvalidity, ?_⟩⟩
  exact except_bind_eq_ok.mpr ⟨_, hsubject, except_bind_eq_ok.mpr ⟨_, hkey, rfl⟩⟩

end Walk

/-! ### A dedicated certificate -/

structure Extension where
  id : Bytes
  critical : Bool
  value : Bytes
deriving DecidableEq

def Extension.isUsage (e : Extension) : Bool := e.id == oidExtKeyUsage

/-- `critical`, one byte, false where it is left out. -/
inductive Flag : Bytes → Bool → Bytes → Prop where
  | absent {bytes : Bytes} : bytes.head? ≠ some tagBoolean → Flag bytes false bytes
  | present {bytes rest : Bytes} {b : UInt8} :
    take tagBoolean bytes = .ok ([b], rest) → Flag bytes (b != 0) rest

/-- The bytes are the extension, and nothing else. -/
def IsExtension (bytes : Bytes) (e : Extension) : Prop :=
  ∃ flagged rest, oid bytes = .ok (e.id, flagged) ∧ Flag flagged e.critical rest ∧
    octetString rest = .ok (e.value, [])

/-- The extensions of a certificate, read to their end. -/
def HasExtensions (der : Bytes) (extensions : List Extension) : Prop :=
  ∃ field explicit behind contents parts, extensionsField der = .ok field ∧
    take tagContext3 field = .ok (explicit, behind) ∧ sequence explicit = .ok (contents, []) ∧
    readEach sequence contents = .ok parts ∧ List.Forall₂ IsExtension parts extensions

/-- RFC 3161: one extended key usage, critical, and one purpose in it. -/
def Dedicated (der : Bytes) : Prop :=
  ∃ extensions e, HasExtensions der extensions ∧ extensions.filter Extension.isUsage = [e] ∧
    e.critical = true ∧ ∃ purposes, sequence e.value = .ok (purposes, []) ∧
      readEach oid purposes = .ok [oidKpTimestamping]

/-! ### What is read of it -/

/-- An extension, and what is left behind it. -/
structure Found where
  id : Bytes
  flag : Option Bytes
  value : Bytes
  behind : Bytes
deriving DecidableEq

def Found.critical (found : Found) : Bool := found.flag.any fun flag => flag.head?.any (· != 0)

def Found.isUsage (found : Found) : Bool := found.id == oidExtKeyUsage

def Found.extension (found : Found) : Extension := ⟨found.id, found.critical, found.value⟩

def readFlag (extension : Bytes) : Except TimestampError (Option Bytes × Bytes) :=
  if extension.head? = some tagBoolean then do
    let (flag, rest) ← take tagBoolean extension
    return (some flag, rest)
  else .ok (none, extension)

def findExtension (extension : Bytes) : Except TimestampError Found := do
  let (id, extension) ← oid extension
  let (flag, extension) ← readFlag extension
  let (value, behind) ← octetString extension
  return ⟨id, flag, value, behind⟩

/-- The extensions that are read, the bytes at which the reading ends, and those behind. -/
structure Listed where
  extensions : List Found
  unread : Bytes
  behind : Bytes

def Listed.usages (l : Listed) : List Found := l.extensions.filter Found.isUsage

/-- The list, where there is one. -/
def listed (der : Bytes) : Except TimestampError (Option Listed) := do
  let field ← extensionsField der
  if field = [] then return none
  else do
    let (explicit, _) ← take tagContext3 field
    let (contents, behind) ← sequence explicit
    let extensions ← (readAll sequence contents).mapM findExtension
    return some ⟨extensions, readRest sequence contents, behind⟩

/-- A usage that lets its certificate stamp, whatever is left behind what is read. -/
def Found.Stamps (found : Found) : Prop :=
  found.critical = true ∧ ∃ purposes rest, sequence found.value = .ok (purposes, rest) ∧
    readAll oid purposes = [oidKpTimestamping]

/-- The last usage lets the certificate stamp. -/
def Listed.Stamping (l : Listed) : Prop := ∃ found, l.usages.getLast? = some found ∧ found.Stamps

/-- One byte for `critical`, and nothing behind the value. -/
def Found.Clean (found : Found) : Prop :=
  (∀ flag, found.flag = some flag → flag.length = 1) ∧ found.behind = []

/-- Nothing is left unread, and no usage is met twice. -/
structure Listed.Clean (l : Listed) : Prop where
  list : l.unread = [] ∧ l.behind = []
  extensions : ∀ found ∈ l.extensions, found.Clean
  once : l.usages.length ≤ 1
  purposes : ∀ found ∈ l.usages, ∀ purposes rest, sequence found.value = .ok (purposes, rest) →
    rest = [] ∧ readRest oid purposes = []

section Reading
variable {bytes : Bytes} {allows allowed : Bool} {found : Found} {parts : List Bytes}

theorem readCritical_eq : readCritical bytes = (do
    let (flag, rest) ← readFlag bytes
    return (flag.any fun flag => flag.head?.any (· != 0), rest)) := by
  unfold readCritical readFlag
  split
  next => simp only [bind_assoc, pure_bind, Option.any_some]
  next => rfl

theorem readExtension_eq : readExtension allows bytes = (do
    let found ← findExtension bytes
    if found.id ≠ oidExtKeyUsage then return allows
    else do
      let (purposes, _) ← sequence found.value
      return found.critical && readAll oid purposes == [oidKpTimestamping]) := by
  simp only [readExtension, findExtension, readCritical_eq, bind_assoc, pure_bind, Found.critical]

theorem readFlag_eq_ok {flag : Option Bytes} {rest : Bytes} : readFlag bytes = .ok (flag, rest) ↔
    bytes.head? ≠ some tagBoolean ∧ flag = none ∧ rest = bytes ∨
      ∃ contents, take tagBoolean bytes = .ok (contents, rest) ∧ flag = some contents := by
  unfold readFlag
  constructor
  · intro h
    split at h
    next =>
      obtain ⟨⟨contents, rest⟩, htake, h⟩ := except_bind_eq_ok.mp h
      cases h
      exact .inr ⟨contents, htake, rfl⟩
    next habsent =>
      cases h
      exact .inl ⟨habsent, rfl, rfl⟩
  · intro h
    obtain ⟨habsent, rfl, rfl⟩ | ⟨contents, htake, rfl⟩ := h
    · rw [if_neg habsent]
    · rw [if_pos (head_of_take htake), htake]
      rfl

/-- An extension is one that is found with nothing left of it. -/
theorem isExtension_iff {e : Extension} : IsExtension bytes e ↔
    ∃ found, findExtension bytes = .ok found ∧ found.Clean ∧ e = found.extension := by
  constructor
  · intro h
    obtain ⟨id, critical, value⟩ := e
    obtain ⟨flagged, rest, hid, hflag, hvalue⟩ := h
    cases hflag with
    | absent habsent =>
      refine ⟨⟨id, none, value, []⟩, ?_, ⟨by simp, rfl⟩, rfl⟩
      exact except_bind_eq_ok.mpr ⟨_, hid, except_bind_eq_ok.mpr
        ⟨_, readFlag_eq_ok.mpr (.inl ⟨habsent, rfl, rfl⟩), except_bind_eq_ok.mpr ⟨_, hvalue, rfl⟩⟩⟩
    | @present _ b htake =>
      refine ⟨⟨id, some [b], value, []⟩, ?_, ⟨by simp, rfl⟩, rfl⟩
      exact except_bind_eq_ok.mpr ⟨_, hid, except_bind_eq_ok.mpr
        ⟨_, readFlag_eq_ok.mpr (.inr ⟨_, htake, rfl⟩), except_bind_eq_ok.mpr ⟨_, hvalue, rfl⟩⟩⟩
  · intro h
    obtain ⟨found, hfound, ⟨hone, hnothing⟩, rfl⟩ := h
    obtain ⟨⟨id, flagged⟩, hid, hfound⟩ := except_bind_eq_ok.mp hfound
    obtain ⟨⟨flag, rest⟩, hflag, hfound⟩ := except_bind_eq_ok.mp hfound
    obtain ⟨⟨value, behind⟩, hvalue, hfound⟩ := except_bind_eq_ok.mp hfound
    cases hfound
    obtain rfl : behind = [] := hnothing
    refine ⟨flagged, rest, hid, ?_, hvalue⟩
    obtain ⟨habsent, rfl, rfl⟩ | ⟨contents, htake, rfl⟩ := readFlag_eq_ok.mp hflag
    · exact .absent habsent
    · obtain ⟨b, rfl⟩ := List.length_eq_one_iff.mp (hone contents rfl)
      exact .present htake

theorem forall_isExtension_iff {extensions : List Extension} :
    List.Forall₂ IsExtension parts extensions ↔ ∃ found, parts.mapM findExtension = .ok found ∧
      (∀ f ∈ found, f.Clean) ∧ extensions = found.map Found.extension := by
  induction parts generalizing extensions with
  | nil => simp [pure, Except.pure]
  | cons part parts ih =>
    rw [List.forall₂_cons_left_iff, List.mapM_cons]
    constructor
    · intro h
      obtain ⟨e, rest, he, hrest, rfl⟩ := h
      obtain ⟨first, hfirst, hclean, rfl⟩ := isExtension_iff.mp he
      obtain ⟨found, hfound, hall, rfl⟩ := ih.mp hrest
      refine ⟨first :: found, ?_, List.forall_mem_cons.mpr ⟨hclean, hall⟩, rfl⟩
      exact except_bind_eq_ok.mpr ⟨first, hfirst, except_bind_eq_ok.mpr ⟨found, hfound, rfl⟩⟩
    · intro h
      obtain ⟨found, hfound, hall, rfl⟩ := h
      obtain ⟨first, hfirst, hfound⟩ := except_bind_eq_ok.mp hfound
      obtain ⟨rest, hrest, hfound⟩ := except_bind_eq_ok.mp hfound
      cases hfound
      obtain ⟨hclean, hall⟩ := List.forall_mem_cons.mp hall
      exact ⟨_, _, isExtension_iff.mpr ⟨first, hfirst, hclean, rfl⟩, ih.mpr ⟨rest, hrest, hall, rfl⟩,
        rfl⟩

/-- One more extension: another kind leaves the flag, a usage decides it. -/
theorem readExtension_eq_ok (h : readExtension allows bytes = .ok allowed) :
    ∃ found, findExtension bytes = .ok found ∧
      (found.isUsage = false ∧ allowed = allows ∨
        found.isUsage = true ∧ (allowed = true ↔ found.Stamps)) := by
  rw [readExtension_eq] at h
  obtain ⟨found, hfound, h⟩ := except_bind_eq_ok.mp h
  refine ⟨found, hfound, ?_⟩
  split at h
  next hother =>
    cases h
    exact .inl ⟨by simpa [Found.isUsage] using hother, rfl⟩
  next husage =>
    obtain ⟨⟨purposes, rest⟩, hpurposes, h⟩ := except_bind_eq_ok.mp h
    cases h
    refine .inr ⟨by simpa [Found.isUsage] using husage, ?_⟩
    simp [Found.Stamps, hpurposes]

/-- The last usage decides, and without one what was there before. -/
theorem foldlM_readExtension (h : parts.foldlM readExtension allows = .ok allowed) :
    ∃ found, parts.mapM findExtension = .ok found ∧
      (allowed = true ↔ found.filter Found.isUsage = [] ∧ allows = true ∨
        ∃ last, (found.filter Found.isUsage).getLast? = some last ∧ last.Stamps) := by
  induction parts generalizing allows with
  | nil =>
    cases h
    exact ⟨[], rfl, by simp⟩
  | cons part parts ih =>
    rw [List.foldlM_cons] at h
    obtain ⟨next, hnext, h⟩ := except_bind_eq_ok.mp h
    obtain ⟨first, hfirst, hdecides⟩ := readExtension_eq_ok hnext
    obtain ⟨found, hfound, hrest⟩ := ih h
    refine ⟨first :: found, ?_, ?_⟩
    · rw [List.mapM_cons]
      exact except_bind_eq_ok.mpr ⟨first, hfirst, except_bind_eq_ok.mpr ⟨found, hfound, rfl⟩⟩
    · rw [hrest]
      obtain ⟨hother, rfl⟩ | ⟨husage, hstamps⟩ := hdecides
      · rw [List.filter_cons_of_neg (by simp [hother])]
      · rw [List.filter_cons_of_pos husage, hstamps]
        cases found.filter Found.isUsage with
        | nil => simp
        | cons later usages => simp

end Reading

/-! ### When the two are the same -/

section Usages
variable {c : TimestampCrates} {der : Bytes} {cert : Certificate} {l : Listed}

/-- The steps of a list that is read. -/
theorem listed_eq_ok : listed der = .ok (some l) ↔
    ∃ field explicit behind contents, extensionsField der = .ok field ∧ field ≠ [] ∧
      take tagContext3 field = .ok (explicit, behind) ∧
      sequence explicit = .ok (contents, l.behind) ∧
      (readAll sequence contents).mapM findExtension = .ok l.extensions ∧
      l.unread = readRest sequence contents := by
  constructor
  · intro h
    obtain ⟨field, hfield, h⟩ := except_bind_eq_ok.mp h
    split at h
    next => cases h
    next hsome =>
      obtain ⟨⟨explicit, _⟩, hexplicit, h⟩ := except_bind_eq_ok.mp h
      obtain ⟨⟨contents, _⟩, hcontents, h⟩ := except_bind_eq_ok.mp h
      obtain ⟨extensions, hextensions, h⟩ := except_bind_eq_ok.mp h
      cases h
      exact ⟨field, explicit, _, contents, hfield, hsome, hexplicit, hcontents, hextensions, rfl⟩
  · intro h
    obtain ⟨field, explicit, _, contents, hfield, hsome, hexplicit, hcontents, hextensions, hunread⟩ := h
    obtain ⟨extensions, unread, behind⟩ := l
    obtain rfl : unread = readRest sequence contents := hunread
    refine except_bind_eq_ok.mpr ⟨field, hfield, ?_⟩
    rw [if_neg hsome]
    exact except_bind_eq_ok.mpr ⟨_, hexplicit, except_bind_eq_ok.mpr
      ⟨_, hcontents, except_bind_eq_ok.mpr ⟨_, hextensions, rfl⟩⟩⟩

/-- What the code allows: the last usage that is read lets the certificate stamp. -/
theorem allows_iff_stamping (h : Certificate.parse c der = .ok cert) :
    cert.allowsTimestamping = true ↔ ∃ l, listed der = .ok (some l) ∧ l.Stamping := by
  obtain ⟨fields, hfields, hread⟩ := parse_extensions h
  obtain ⟨field, hskip, hread⟩ := except_bind_eq_ok.mp hread
  have hfield : extensionsField der = .ok field := except_bind_eq_ok.mpr ⟨fields, hfields, hskip⟩
  split at hread
  next hnone =>
    have hallows : cert.allowsTimestamping = false := (Except.ok.inj hread).symm
    constructor
    · intro htrue
      cases hallows.symm.trans htrue
    · intro hlisted
      obtain ⟨l, hlisted, _⟩ := hlisted
      obtain ⟨_, _, _, _, hfield', hsome, _⟩ := listed_eq_ok.mp hlisted
      cases hfield.symm.trans hfield'
      exact absurd hnone hsome
  next hsome =>
    obtain ⟨⟨explicit, _⟩, hexplicit, hread⟩ := except_bind_eq_ok.mp hread
    obtain ⟨⟨contents, behind⟩, hcontents, hread⟩ := except_bind_eq_ok.mp hread
    obtain ⟨found, hfound, hdecides⟩ := foldlM_readExtension hread
    have hlisted : listed der = .ok (some ⟨found, readRest sequence contents, behind⟩) :=
      listed_eq_ok.mpr ⟨field, explicit, _, contents, hfield, hsome, hexplicit, hcontents, hfound, rfl⟩
    rw [hdecides]
    constructor
    · intro hlast
      obtain ⟨_, hfalse⟩ | hlast := hlast
      · cases hfalse
      · exact ⟨_, hlisted, hlast⟩
    · intro hstamping
      obtain ⟨l, hlisted', hlast⟩ := hstamping
      cases hlisted.symm.trans hlisted'
      exact .inr hlast

/-- A list that says so and is read to its end. -/
theorem dedicated_iff : Dedicated der ↔ ∃ l, listed der = .ok (some l) ∧ l.Stamping ∧ l.Clean := by
  constructor
  · intro h
    obtain ⟨extensions, e, hextensions, honly, hcritical, purposes, hvalue, hpurposes⟩ := h
    obtain ⟨field, explicit, behind, contents, parts, hfield, hexplicit, hcontents, hparts, hall⟩ :=
      hextensions
    obtain ⟨found, hfound, hclean, rfl⟩ := forall_isExtension_iff.mp hall
    obtain ⟨hparts, hunread⟩ := (readEach_eq_ok consumes_take).mp hparts
    obtain ⟨hpurposes, hleft⟩ := (readEach_eq_ok consumes_take).mp hpurposes
    have hsome : field ≠ [] := by
      intro hnil
      rw [hnil] at hexplicit
      cases hexplicit
    -- The kinds of the extensions are those of what is found.
    rw [List.filter_map] at honly
    obtain ⟨last, husages, rfl⟩ := List.map_eq_singleton_iff.mp honly
    have husages : found.filter Found.isUsage = [last] := husages
    refine ⟨⟨found, readRest sequence contents, []⟩, ?_, ?_, ?_⟩
    · rw [← hparts] at hfound
      exact listed_eq_ok.mpr ⟨field, explicit, behind, contents, hfield, hsome, hexplicit, hcontents,
        hfound, rfl⟩
    · refine ⟨last, ?_, hcritical, purposes, [], hvalue, hpurposes⟩
      rw [Listed.usages, husages]
      rfl
    · refine ⟨⟨hunread, rfl⟩, hclean, ?_, ?_⟩
      · rw [Listed.usages, husages]
        exact Nat.le_refl _
      · intro usage husage purposes' rest hvalue'
        rw [Listed.usages, husages] at husage
        obtain rfl := List.mem_singleton.mp husage
        cases hvalue.symm.trans hvalue'
        exact ⟨rfl, hleft⟩
  · intro h
    obtain ⟨l, hlisted, ⟨last, hlast, hcritical, purposes, rest, hvalue, hpurposes⟩, hclean⟩ := h
    obtain ⟨field, explicit, behind, contents, hfield, hsome, hexplicit, hcontents, hfound, hunread⟩ :=
      listed_eq_ok.mp hlisted
    have husages : l.usages = [last] := by
      obtain ⟨earlier, hearlier⟩ := List.getLast?_eq_some_iff.mp hlast
      have honce := hclean.once
      rw [hearlier, List.length_append, List.length_singleton] at honce
      rw [hearlier, List.length_eq_zero_iff.mp (by omega : earlier.length = 0), List.nil_append]
    obtain ⟨rfl, hleft⟩ := hclean.purposes last (by rw [husages]; exact List.mem_cons_self) _ _ hvalue
    rw [hclean.list.2] at hcontents
    rw [hclean.list.1] at hunread
    refine ⟨l.extensions.map Found.extension, last.extension, ?_, ?_, hcritical, purposes, hvalue, ?_⟩
    · exact ⟨field, explicit, behind, contents, _, hfield, hexplicit, hcontents,
        (readEach_eq_ok consumes_take).mpr ⟨rfl, hunread.symm⟩,
        forall_isExtension_iff.mpr ⟨l.extensions, hfound, hclean.extensions, rfl⟩⟩
    · rw [List.filter_map]
      exact congrArg (List.map Found.extension) husages
    · exact (readEach_eq_ok consumes_take).mpr ⟨hpurposes, hleft⟩

/-- A certificate may stamp just when it is dedicated to it, unless something is left unread of
one that seems to be. -/
theorem allowsTimestamping_iff (h : Certificate.parse c der = .ok cert) :
    (cert.allowsTimestamping = true ↔ Dedicated der) ↔
      ∀ l, listed der = .ok (some l) → l.Stamping → l.Clean := by
  rw [allows_iff_stamping h, dedicated_iff]
  constructor
  · intro hsame l hlisted hstamping
    obtain ⟨l', hlisted', _, hclean⟩ := hsame.mp ⟨l, hlisted, hstamping⟩
    cases hlisted.symm.trans hlisted'
    exact hclean
  · intro hclean
    constructor
    · intro hstamping
      obtain ⟨l, hlisted, hstamping⟩ := hstamping
      exact ⟨l, hlisted, hstamping, hclean l hlisted hstamping⟩
    · intro hdedicated
      obtain ⟨l, hlisted, hstamping, _⟩ := hdedicated
      exact ⟨l, hlisted, hstamping⟩

end Usages

theorem exists_of_allows {der : Bytes} {allows : Bool}
    (h : (Certificate.parse tsaCrates der).map Certificate.allowsTimestamping = .ok allows) :
    ∃ cert, Certificate.parse tsaCrates der = .ok cert ∧ cert.allowsTimestamping = allows := by
  cases hparsed : Certificate.parse tsaCrates der with
  | error e =>
    rw [hparsed] at h
    cases h
  | ok cert =>
    rw [hparsed] at h
    exact ⟨cert, rfl, Except.ok.inj h⟩

theorem allowsTimestamping_tsa : ∃ cert, Certificate.parse tsaCrates tsaCertificate = .ok cert ∧
    ((cert.allowsTimestamping = true ↔ Dedicated tsaCertificate) ↔
      ∀ l, listed tsaCertificate = .ok (some l) → l.Stamping → l.Clean) := by
  obtain ⟨cert, hparsed, _⟩ := @exists_of_allows tsaCertificate true (by decide +kernel)
  exact ⟨cert, hparsed, allowsTimestamping_iff hparsed⟩

/-- `id-kp-serverAuth`. -/
def serverUsage : Bytes := der tagSequence (der tagOid oidExtKeyUsage ++ der tagBoolean [0xff] ++
  der tagOctetString (der tagSequence (der tagOid [0x2b, 0x06, 0x01, 0x05, 0x05, 0x07, 0x03, 0x01])))

/-- A certificate for servers, that may stamp as well. -/
def serverCertificate : Bytes :=
  tsaCertificateWith 1 (der tagContext3 (der tagSequence (serverUsage ++ tsaUsage)))

/-- It is allowed to, with two usages. -/
theorem server_allowed_to_stamp :
    ∃ cert, Certificate.parse tsaCrates serverCertificate = .ok cert ∧
      ¬ (cert.allowsTimestamping = true ↔ Dedicated serverCertificate) := by
  obtain ⟨cert, hparsed, hallows⟩ := @exists_of_allows serverCertificate true (by decide +kernel)
  refine ⟨cert, hparsed, ?_⟩
  intro hsame
  obtain ⟨l, hlisted, _, hclean⟩ := dedicated_iff.mp (hsame.mp hallows)
  have htwo : (listed serverCertificate).map (Option.map fun l => l.usages.length) = .ok (some 2) := by
    decide +kernel
  rw [hlisted] at htwo
  have honce := hclean.once
  have htwo : l.usages.length = 2 := Option.some.inj (Except.ok.inj htwo)
  omega

end Attest.Timestamp
