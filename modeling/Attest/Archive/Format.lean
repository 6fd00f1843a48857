import Attest.Archive.Verification
import Attest.Hashing.Paths
import Attest.Library.StableSort

/-! The file of an archive: what `write_archive` writes and `read_archive_bounded` takes.

The writer sorts the entries and leaves the headers to `tar`, which spells some paths another
way and puts a record before an entry whose path fits no header. The reader takes plain
files under paths inside the archive, each path once, within four limits. `read_written_iff`
says which of the written archives it takes, and what it gives for them. -/
namespace Attest.Archive
open Library Library.Fallible Library.StableSort
open Trust (Bytes utf8)
open Hashing (Path)

/-! ### The format -/

inductive EntryKind where
  | regular
  /-- A record about the next entry: `L`, `K`, `x` or `g`. -/
  | extension (flag : Char)
  | other (name : String)
deriving DecidableEq

/-- One record of a tar, with the size its header declares where that can be read. -/
structure Record where
  kind : EntryKind
  path : String
  declared : Option Nat
  bytes : Bytes
deriving DecidableEq

/-- What `append_data` makes of a path: the path the header holds, and whether the whole of it
goes into a record of its own before that. -/
structure Header where
  long : Bool
  path : String

/-- A record as raw iteration yields it, once so many bytes of the tar have passed. -/
structure RawEntry where
  opened : Nat
  entry : Except String Record

/-- A tar as raw iteration yields it. It sees the end once so many bytes have passed. -/
structure RawEntries where
  entries : List RawEntry
  ended : Nat

/-- What the writer and the reader take from `tar` and `zstd`. -/
structure TarCrates where
  /-- `Header::set_path`, or the long name instead. -/
  header : String → Except String Header
  /-- `Builder::append` of each, `into_inner` and `encode_all`. -/
  pack : List Record → Except String Bytes
  /-- `Decoder::new`, `Archive::new` and `entries().raw(true)`. -/
  rawEntries : Bytes → RawEntries

/-! ### Writing -/

section Write
variable (t : TarCrates)

/-- `append_data`. -/
def appendData (entry : ArchiveEntry) : Except String (List Record) := do
  let header ← (t.header entry.path).mapError fun _ => s!"cannot append {entry.path} to archive"
  let name := ⟨.extension 'L', "././@LongLink", some ((utf8 entry.path).length + 1), utf8 entry.path ++ [0]⟩
  let file := ⟨.regular, header.path, some entry.bytes.length, entry.bytes⟩
  return if header.long then [name, file] else [file]

def writeArchive (entries : List ArchiveEntry) : Except String Bytes := do
  let records ← (sortByKey ArchiveEntry.path entries).mapM (appendData t)
  t.pack records.flatten

end Write

/-! ### Reading -/

structure ArchiveLimits where
  compressed : Nat
  decompressed : Nat
  entries : Nat
  entry : Nat

/-- `ArchiveLimits::default`. -/
def defaultLimits : ArchiveLimits where
  compressed := 64 * 1024 * 1024
  decompressed := 512 * 1024 * 1024
  entries := 10000
  entry := 64 * 1024 * 1024

/-- The text of a `ResourceLimit`. -/
def resourceLimit (limit detail : String) : String := s!"resource limit ({limit}): {detail}"

/-- An absolute path, or one with a `..`. -/
def escapes (path : String) : Bool :=
  (Path.ofString path).absolute || (Path.ofString path).components.contains .parentDir

section Read
variable (t : TarCrates) (limits : ArchiveLimits)

def countChecked (index : Nat) : Except String Unit :=
  refuseIf (limits.entries ≤ index)
    (resourceLimit "entries" s!"the archive has more than {limits.entries} entries")

def kindChecked (record : Record) : Except String Unit :=
  match record.kind with
  | .regular => .ok ()
  | .extension flag =>
    .error s!"archive carries a tar extension record (type '{flag}'); an attest archive has none"
  | .other name => .error
      s!"archive entry {record.path} is not a regular file ({name}); an attest archive holds only files"

/-- The size a header declares; one that cannot be read is `u64::MAX`. -/
def declaredSize (record : Record) : Nat := record.declared.getD (2 ^ 64 - 1)

/-- One turn of the loop: at most one byte more than the limit is read of an entry. -/
def readEntry (index : Nat) (seen : List String) (raw : RawEntry) : Except String ArchiveEntry := do
  countChecked limits index
  refuseIf (limits.decompressed < raw.opened) "corrupt archive entry"
  let record ← raw.entry.mapError fun _ => "corrupt archive entry"
  kindChecked record
  refuseIf (escapes record.path = true)
    s!"archive entry {record.path} escapes the archive; refusing it"
  refuseIf (record.path ∈ seen)
    s!"archive lists {record.path} twice; refusing an archive that contradicts itself"
  refuseIf (limits.entry < declaredSize record) (resourceLimit "entry"
    s!"entry {record.path} declares {declaredSize record} bytes; the limit is {limits.entry}")
  refuseIf (limits.decompressed < raw.opened + min record.bytes.length (limits.entry + 1))
    (resourceLimit "decompressed" s!"the archive expands past {limits.decompressed} bytes")
  refuseIf (limits.entry < record.bytes.length)
    (resourceLimit "entry" s!"entry {record.path} exceeds {limits.entry} bytes")
  return ⟨record.path, record.bytes⟩

def readEntries (ended : Nat) : Nat → List String → List RawEntry → Except String (List ArchiveEntry)
  | index, _, [] =>
    if limits.decompressed < ended then do
      countChecked limits index
      .error "corrupt archive entry"
    else .ok []
  | index, seen, raw :: rest => do
    let entry ← readEntry limits index seen raw
    let entries ← readEntries ended (index + 1) (entry.path :: seen) rest
    return entry :: entries

/-- `read_archive_bounded`, of the file at a path. -/
def readArchiveBounded (path : String) (file : Bytes) : Except String (List ArchiveEntry) := do
  refuseIf (limits.compressed < file.length) (resourceLimit "compressed"
    s!"{path} is {file.length} bytes on disk; the limit is {limits.compressed}")
  readEntries limits (t.rawEntries file).ended 0 [] (t.rawEntries file).entries

end Read

/-! ### What is relied on -/

/-- A record's bytes in a tar: its header of 512 bytes, and its data up to a multiple of that. -/
def recordSpan (size : Nat) : Nat := 512 + (size + 511) / 512 * 512

/-- The records one after the other. -/
def laidOut : Nat → List Record → RawEntries
  | start, [] => ⟨[], start + 512⟩
  | start, record :: rest =>
    ⟨⟨start + 512, .ok record⟩ :: (laidOut (start + recordSpan record.bytes.length) rest).entries,
      (laidOut (start + recordSpan record.bytes.length) rest).ended⟩

/-- Names with a slash between them, as short as a header holds in one field. -/
structure PlainPath (path : String) : Prop where
  short : (utf8 path).length ≤ 100
  noNul : 0 ∉ utf8 path
  relative : (Path.ofString path).absolute = false
  names : ∀ component ∈ (Path.ofString path).components, component ≠ .curDir ∧ component ≠ .parentDir

instance (path : String) : Decidable (PlainPath path) :=
  decidable_of_iff
    ((utf8 path).length ≤ 100 ∧ 0 ∉ utf8 path ∧ (Path.ofString path).absolute = false ∧
      ∀ component ∈ (Path.ofString path).components, component ≠ .curDir ∧ component ≠ .parentDir)
    ⟨fun h => ⟨h.1, h.2.1, h.2.2.1, h.2.2.2⟩, fun h => ⟨h.short, h.noNul, h.relative, h.names⟩⟩

/-- The documented behaviour of `tar` and `zstd`. -/
structure TarCrates.Lawful (t : TarCrates) : Prop where
  /-- A plain path is held as it is. -/
  plain : ∀ path, PlainPath path → t.header path = .ok ⟨false, path⟩
  /-- A path that a header holds is held as it is the next time. -/
  again : ∀ path held, t.header path = .ok ⟨false, held⟩ → t.header held = .ok ⟨false, held⟩
  /-- Paths in archives are relative and have no `..`. -/
  contained : ∀ path held, t.header path = .ok ⟨false, held⟩ → escapes held = false
  /-- What is read back is what was appended, in blocks of 512 bytes. -/
  unpacked : ∀ records file, t.pack records = .ok file → t.rawEntries file = laidOut 0 records

/-! ### What the reader takes -/

/-- What records of these sizes fill. -/
def spanOf (sizes : List Nat) : Nat := (sizes.map recordSpan).sum

def entryOf (record : Record) : ArchiveEntry := ⟨record.path, record.bytes⟩

/-- A plain file inside the archive, of an allowed size. -/
structure Acceptable (limits : ArchiveLimits) (record : Record) : Prop where
  regular : record.kind = .regular
  inside : escapes record.path = false
  small : record.bytes.length ≤ limits.entry

section Take
variable {limits : ArchiveLimits} {record : Record} {records : List Record} {start index : Nat}
  {seen : List String} {entry : ArchiveEntry} {read : List ArchiveEntry}

theorem kindChecked_eq_ok {u : Unit} : kindChecked record = .ok u ↔ record.kind = .regular := by
  unfold kindChecked
  cases record.kind with
  | regular => simp
  | extension flag => simp
  | other name => simp

/-- What one turn takes. -/
theorem readEntry_eq_ok_iff (hdeclared : record.declared = some record.bytes.length) :
    readEntry limits index seen ⟨start + 512, .ok record⟩ = .ok entry ↔
      index < limits.entries ∧ start + 512 + record.bytes.length ≤ limits.decompressed ∧
        Acceptable limits record ∧ record.path ∉ seen ∧ entry = entryOf record := by
  have hsize : declaredSize record = record.bytes.length := by rw [declaredSize, hdeclared, Option.getD_some]
  simp only [readEntry, countChecked, except_bind_eq_ok, refuseIf_eq_ok, mapError_eq_ok, exists_const,
    kindChecked_eq_ok, hsize, not_le, not_lt, Except.ok.injEq, Bool.not_eq_true, exists_eq_left', pure,
    Except.pure]
  constructor
  · intro htaken
    obtain ⟨hcount, hopened, hkind, hinside, hseen, hsmall, hroom, _, hentry⟩ := htaken
    have hmin : min record.bytes.length (limits.entry + 1) = record.bytes.length :=
      Nat.min_eq_left (Nat.le_succ_of_le hsmall)
    rw [hmin] at hroom
    exact ⟨hcount, hroom, ⟨hkind, hinside, hsmall⟩, hseen, hentry.symm⟩
  · intro hfits
    obtain ⟨hcount, hroom, haccepted, hseen, hentry⟩ := hfits
    have hmin : min record.bytes.length (limits.entry + 1) = record.bytes.length :=
      Nat.min_eq_left (Nat.le_succ_of_le haccepted.small)
    rw [hmin]
    exact ⟨hcount, (Nat.le_add_right _ _).trans hroom, haccepted.regular, haccepted.inside, hseen,
      haccepted.small, hroom, haccepted.small, hentry.symm⟩

theorem length_le_recordSpan (size : Nat) : 512 + size ≤ recordSpan size := by
  unfold recordSpan
  omega

/-- What the loop takes of records one after the other. -/
theorem readEntries_laidOut_iff (hcount : index ≤ limits.entries)
    (hdeclared : ∀ record ∈ records, record.declared = some record.bytes.length) :
    readEntries limits (laidOut start records).ended index seen (laidOut start records).entries = .ok read ↔
      index + records.length ≤ limits.entries ∧
        start + spanOf (records.map fun record => record.bytes.length) + 512 ≤ limits.decompressed ∧
        (∀ record ∈ records, Acceptable limits record ∧ record.path ∉ seen) ∧
        (records.map Record.path).Nodup ∧ read = records.map entryOf := by
  induction records generalizing start index seen read with
  | nil =>
    simp only [laidOut, readEntries, spanOf, List.map_nil, List.sum_nil, List.length_nil]
    split
    next hended =>
      constructor
      · intro h
        obtain ⟨_, _, h⟩ := except_bind_eq_ok.mp h
        cases h
      · intro ⟨_, hroom, _⟩
        exact absurd hroom (Nat.not_le.mpr hended)
    next hended =>
      simp only [Except.ok.injEq]
      constructor
      · intro h
        exact ⟨hcount, Nat.not_lt.mp hended, by simp, List.nodup_nil, h.symm⟩
      · intro ⟨_, _, _, _, h⟩
        exact h.symm
  | cons record rest ih =>
    obtain ⟨hfirst, hrest⟩ := List.forall_mem_cons.mp hdeclared
    have hspan : spanOf ((record :: rest).map fun record => record.bytes.length) =
        recordSpan record.bytes.length + spanOf (rest.map fun record => record.bytes.length) := by
      simp [spanOf]
    simp only [laidOut, readEntries, except_bind_eq_ok, readEntry_eq_ok_iff hfirst, pure, Except.pure,
      Except.ok.injEq]
    constructor
    · intro ⟨entry, ⟨hindex, hroom, haccepted, hseen, hentry⟩, entries, hread, h⟩
      rw [ih (Nat.succ_le_of_lt hindex) hrest] at hread
      obtain ⟨hlength, htotal, hall, hdistinct, hentries⟩ := hread
      subst hentry hentries
      refine ⟨?_, ?_, ?_, ?_, h.symm⟩
      · rw [List.length_cons]
        omega
      · rw [hspan]
        omega
      · refine List.forall_mem_cons.mpr ⟨⟨haccepted, hseen⟩, ?_⟩
        intro other hother
        exact ⟨(hall other hother).1, List.not_mem_of_not_mem_cons (hall other hother).2⟩
      · refine List.nodup_cons.mpr ⟨?_, hdistinct⟩
        intro hmem
        obtain ⟨other, hother, hpath⟩ := List.mem_map.mp hmem
        exact (hall other hother).2 (hpath ▸ List.mem_cons_self)
    · intro ⟨hlength, htotal, hall, hdistinct, h⟩
      rw [hspan] at htotal
      rw [List.length_cons] at hlength
      obtain ⟨⟨haccepted, hseen⟩, hothers⟩ := List.forall_mem_cons.mp hall
      obtain ⟨hfresh, hdistinct⟩ := List.nodup_cons.mp hdistinct
      have hfits := length_le_recordSpan record.bytes.length
      refine ⟨entryOf record, ⟨by omega, by omega, haccepted, hseen, rfl⟩, rest.map entryOf, ?_, h.symm⟩
      rw [ih (by omega) hrest]
      refine ⟨by omega, by omega, ?_, hdistinct, rfl⟩
      intro other hother
      refine ⟨(hothers other hother).1, ?_⟩
      intro hmem
      rcases List.mem_cons.mp hmem with hpath | hmem
      · exact hfresh (List.mem_map.mpr ⟨other, hother, hpath⟩)
      · exact (hothers other hother).2 hmem

end Take

/-! ### What the writer leaves -/

/-- The entry's record, where a header holds the path. -/
structure Held (t : TarCrates) (entry : ArchiveEntry) (record : Record) : Prop where
  path : t.header entry.path = .ok ⟨false, record.path⟩
  kind : record.kind = .regular
  declared : record.declared = some record.bytes.length
  bytes : record.bytes = entry.bytes

/-- The record where that is the path itself. -/
def recordOf (entry : ArchiveEntry) : Record :=
  ⟨.regular, entry.path, some entry.bytes.length, entry.bytes⟩

section Write
variable {t : TarCrates} {entry : ArchiveEntry} {entries read : List ArchiveEntry}
  {records : List Record} {appended : List (List Record)} {limits : ArchiveLimits} {path : String}
  {file : Bytes}

/-- The records of an entry are files only where its path needs no record. -/
theorem appendData_regular (h : appendData t entry = .ok records)
    (hregular : ∀ record ∈ records, record.kind = .regular) :
    ∃ record, records = [record] ∧ Held t entry record := by
  simp only [appendData, except_bind_eq_ok, mapError_eq_ok, pure, Except.pure, Except.ok.injEq] at h
  obtain ⟨⟨long, held⟩, hheader, hrecords⟩ := h
  cases long with
  | true =>
    subst hrecords
    exact nomatch hregular _ List.mem_cons_self
  | false => exact ⟨_, hrecords.symm, hheader, rfl, rfl, rfl⟩

/-- Where all records are files, there is one for each entry. -/
theorem held_of_regular (h : entries.mapM (appendData t) = .ok appended)
    (hregular : ∀ record ∈ appended.flatten, record.kind = .regular) :
    List.Forall₂ (Held t) entries appended.flatten := by
  induction entries generalizing appended with
  | nil =>
    cases h
    exact .nil
  | cons entry rest ih =>
    rw [List.mapM_cons] at h
    obtain ⟨records, hrecords, h⟩ := except_bind_eq_ok.mp h
    obtain ⟨others, hothers, h⟩ := except_bind_eq_ok.mp h
    cases h
    rw [List.flatten_cons, List.forall_mem_append] at hregular
    obtain ⟨record, rfl, hheld⟩ := appendData_regular hrecords hregular.1
    exact .cons hheld (ih hothers hregular.2)

/-- The record is all that is appended. -/
theorem appendData_of_held {record : Record} (h : Held t entry record) :
    appendData t entry = .ok [record] := by
  obtain ⟨kind, path, declared, bytes⟩ := record
  obtain ⟨hpath, hkind, hdeclared, hbytes⟩ := h
  obtain rfl : kind = .regular := hkind
  obtain rfl : bytes = entry.bytes := hbytes
  obtain rfl : declared = some entry.bytes.length := hdeclared
  exact except_bind_eq_ok.mpr ⟨_, mapError_eq_ok.mpr hpath, rfl⟩

theorem mapM_of_held (h : List.Forall₂ (Held t) entries records) :
    entries.mapM (appendData t) = .ok (records.map fun record => [record]) := by
  induction h with
  | nil => rfl
  | cons hfirst _ ih =>
    rw [List.mapM_cons, appendData_of_held hfirst, ih]
    rfl

/-- What is packed where the headers hold the paths. -/
theorem writeArchive_of_held
    (hheld : List.Forall₂ (Held t) (sortByKey ArchiveEntry.path entries) records) :
    writeArchive t entries = t.pack records := by
  rw [writeArchive, mapM_of_held hheld]
  show t.pack (records.map fun record => [record]).flatten = _
  rw [← List.flatMap_def, List.flatMap_singleton']

theorem regular_of_held (h : List.Forall₂ (Held t) entries records) :
    ∀ record ∈ records, record.kind = .regular ∧ record.declared = some record.bytes.length ∧
      ∃ entry ∈ entries, Held t entry record := by
  induction h with
  | nil => exact fun _ hrecord => nomatch hrecord
  | cons hheld _ ih =>
    refine List.forall_mem_cons.mpr ⟨⟨hheld.kind, hheld.declared, _, List.mem_cons_self, hheld⟩, ?_⟩
    intro record hrecord
    obtain ⟨hkind, hdeclared, entry, hentry, hheld⟩ := ih record hrecord
    exact ⟨hkind, hdeclared, entry, List.mem_cons_of_mem _ hentry, hheld⟩

theorem sizes_of_held (h : List.Forall₂ (Held t) entries records) :
    (records.map fun record => record.bytes.length) = entries.map fun entry => entry.bytes.length := by
  induction h with
  | nil => rfl
  | cons hheld _ ih => rw [List.map_cons, List.map_cons, ih, hheld.bytes]

theorem mem_of_held (h : List.Forall₂ (Held t) entries records) (hentry : entry ∈ entries) :
    ∃ record ∈ records, Held t entry record := by
  induction h with
  | nil => cases hentry
  | cons hheld _ ih =>
    rcases List.mem_cons.mp hentry with rfl | hentry
    · exact ⟨_, List.mem_cons_self, hheld⟩
    · obtain ⟨record, hrecord, hheld⟩ := ih hentry
      exact ⟨record, List.mem_cons_of_mem _ hrecord, hheld⟩

/-- Entries whose paths the headers hold as they are. -/
theorem held_recordOf (h : ∀ entry ∈ entries, t.header entry.path = .ok ⟨false, entry.path⟩) :
    List.Forall₂ (Held t) entries (entries.map recordOf) := by
  induction entries with
  | nil => exact .nil
  | cons entry rest ih =>
    obtain ⟨hfirst, hrest⟩ := List.forall_mem_cons.mp h
    exact .cons ⟨hfirst, rfl, rfl, rfl⟩ (ih hrest)

/-- The records an entry gives are declared with their sizes. -/
theorem declared_of_appendData (h : appendData t entry = .ok records) :
    ∀ record ∈ records, record.declared = some record.bytes.length := by
  simp only [appendData, except_bind_eq_ok, mapError_eq_ok, pure, Except.pure, Except.ok.injEq] at h
  obtain ⟨⟨long, held⟩, _, rfl⟩ := h
  cases long with
  | true => simp
  | false => simp

/-- Such an entry has no other record. -/
theorem records_of_direct (hheld : List.Forall₂ (Held t) entries records)
    (h : ∀ entry ∈ entries, t.header entry.path = .ok ⟨false, entry.path⟩) :
    records = entries.map recordOf := by
  induction hheld with
  | nil => rfl
  | @cons entry record _ _ hfirst _ ih =>
    obtain ⟨hentry, hrest⟩ := List.forall_mem_cons.mp h
    have hrecord : record = recordOf entry := by
      obtain ⟨kind, path, declared, bytes⟩ := record
      obtain ⟨hpath, hkind, hdeclared, hbytes⟩ := hfirst
      obtain ⟨_, rfl⟩ := Header.mk.inj (Except.ok.inj (hpath.symm.trans hentry))
      obtain rfl : kind = .regular := hkind
      obtain rfl : bytes = entry.bytes := hbytes
      obtain rfl : declared = some entry.bytes.length := hdeclared
      rfl
    rw [List.map_cons, ← ih hrest, hrecord]

/-- An archive within the limits. -/
structure Fits (limits : ArchiveLimits) (entries : List ArchiveEntry) (file : Bytes) : Prop where
  compressed : file.length ≤ limits.compressed
  decompressed : spanOf (entries.map fun entry => entry.bytes.length) + 512 ≤ limits.decompressed
  count : entries.length ≤ limits.entries
  sizes : ∀ entry ∈ entries, entry.bytes.length ≤ limits.entry

/-- A permutation fits where the other does. -/
theorem Fits.perm {entries' : List ArchiveEntry} (hperm : entries.Perm entries')
    (h : Fits limits entries file) : Fits limits entries' file where
  compressed := h.compressed
  decompressed := by
    have hsizes := (hperm.map fun entry => recordSpan entry.bytes.length).sum_eq
    have hspan := h.decompressed
    simp only [spanOf, List.map_map, Function.comp_def] at hspan ⊢
    rw [← hsizes]
    exact hspan
  count := hperm.length_eq ▸ h.count
  sizes := fun entry hentry => h.sizes entry (hperm.mem_iff.mpr hentry)

/-- **What can be read of what was written**: an archive within the limits whose paths the
headers hold, each under another one. -/
theorem read_written_iff (ht : t.Lawful) (h : writeArchive t entries = .ok file) :
    readArchiveBounded t limits path file = .ok read ↔
      Fits limits entries file ∧ ∃ records, List.Forall₂ (Held t) (sortByKey ArchiveEntry.path entries) records ∧
        (records.map Record.path).Nodup ∧ read = records.map entryOf := by
  obtain ⟨appended, happended, hpack⟩ := except_bind_eq_ok.mp h
  have hdeclared : ∀ record ∈ appended.flatten, record.declared = some record.bytes.length := by
    intro record hrecord
    obtain ⟨records, hrecords, hmem⟩ := List.mem_flatten.mp hrecord
    obtain ⟨entry, _, happend⟩ := mem_of_mapM_eq_ok happended hrecords
    exact declared_of_appendData happend record hmem
  have hsorted : (sortByKey ArchiveEntry.path entries).Perm entries := List.mergeSort_perm _ _
  simp only [readArchiveBounded, except_bind_eq_ok, refuseIf_eq_ok, exists_const, not_lt,
    ht.unpacked _ _ hpack, readEntries_laidOut_iff (Nat.zero_le _) hdeclared, Nat.zero_add]
  constructor
  · intro haccepted
    obtain ⟨hcompressed, hcount, hroom, hall, hdistinct, hread⟩ := haccepted
    have hheld := held_of_regular happended fun record hrecord => (hall record hrecord).1.regular
    rw [sizes_of_held hheld] at hroom
    have hfits : Fits limits (sortByKey ArchiveEntry.path entries) file := by
      refine ⟨hcompressed, hroom, hheld.length_eq ▸ hcount, ?_⟩
      intro entry hentry
      have hsize : entry.bytes.length ∈ appended.flatten.map fun record => record.bytes.length := by
        rw [sizes_of_held hheld]
        exact List.mem_map_of_mem hentry
      obtain ⟨record, hrecord, hsame⟩ := List.mem_map.mp hsize
      exact hsame ▸ (hall record hrecord).1.small
    exact ⟨hfits.perm hsorted, appended.flatten, hheld, hdistinct, hread⟩
  · intro hfound
    obtain ⟨hfits, records, hheld, hdistinct, hread⟩ := hfound
    have hsame : appended.flatten = records := by
      rw [Except.ok.inj (happended.symm.trans (mapM_of_held hheld)), ← List.flatMap_def,
        List.flatMap_singleton']
    have hfits := hfits.perm hsorted.symm
    rw [hsame, sizes_of_held hheld]
    refine ⟨hfits.compressed, hheld.length_eq ▸ hfits.count, hfits.decompressed, ?_, hdistinct, hread⟩
    intro record hrecord
    obtain ⟨hkind, _, entry, hentry, hrecord⟩ := regular_of_held hheld record hrecord
    refine ⟨⟨hkind, ht.contained _ _ hrecord.path, ?_⟩, List.not_mem_nil⟩
    exact hrecord.bytes ▸ hfits.sizes entry hentry

end Write

end Attest.Archive
