import Attest.Archive.Export
import Attest.Archive.Format
import Attest.Evidence.Agreement
import Attest.Evidence.Capsules
import Mathlib.Algebra.Order.BigOperators.Group.List

/-! From `export_archive` to `verify_archive`.

The writer names the entries after what the receipt says: the ids of its events, and the ids
of the keys. It reads the file of an event at the id, wherever that leads, and applies no
limit. `readable_iff` says which complete archives the verifier reads with every listed event
resolved, all of them from the directory of events. -/
namespace Attest.Archive
open Library Library.Fallible Library.StableSort Storage Verify Evidence
open Trust (Bytes Crates DateTime VerifyingKey utf8 hexDecode toVector fromBytes keyId)
open Hashing (Path FileSystem Location Name entryAt readFile resolve utf8_append)

/-! ### An export, with its file -/

/-- What an export takes from its crates besides the reading of a receipt. -/
structure ExportCrates where
  tar : TarCrates
  /-- `to_public_key_pem`. -/
  publicKeyPem : VerifyingKey → Except String Bytes
  /-- `serde_json::to_vec_pretty`, of the manifest. -/
  manifestBytes : Receipt → Bool → Bytes

section Export
variable (b : Backend) (e : ExportCrates)

def publicKeyPemFromHex (keyHex : String) : Except String (String × Bytes) :=
  match hexDecode keyHex with
  | none => .error "invalid public key hex"
  | some bytes =>
    match toVector 32 bytes with
    | none => .error "invalid public key length"
    | some array => do
      let key ← fromBytes b.crates array
      let pem ← (e.publicKeyPem key).mapError fun _ => "cannot encode public key PEM"
      return (keyId b.crates key, pem)

def exporterOf (receiptPath : String) : Exporter where
  readReceipt bytes := (readReceipt b bytes).mapError fun _ => s!"{receiptPath} is not a valid receipt"
  publicKeyPem := publicKeyPemFromHex b e
  manifestBytes := e.manifestBytes
  writeArchive entries := (writeArchive e.tar entries).map fun _ => ()

/-- The directory of events, two levels up from the receipt. -/
def eventsDir (receiptPath : String) : Path :=
  ((((Path.ofString receiptPath).parent.bind Path.parent).getD (.ofString ".")).join
    (.ofString "causal_ledger")).join (.ofString "events")

def candidate (receiptPath id : String) : Path :=
  (eventsDir receiptPath).join (.ofString (id ++ ".json"))

variable (fs : FileSystem) (receiptPath : String)

/-- The file of an event: `is_file` and `fs::read` follow links. -/
def eventFile (id : String) : Option Bytes :=
  match entryAt fs true (candidate receiptPath id) with
  | .ok (.file bytes) => some bytes
  | _ => none

/-- The entries an export writes. -/
def exportedEntries (receipt : Receipt) (receiptBytes : Bytes) (isPartial : Bool) : List ArchiveEntry :=
  exportEntries (exporterOf b e receiptPath) (eventFile fs receiptPath) receipt receiptBytes isPartial

/-- `export_archive`, with the file it leaves. -/
def exportFile (allowPartial : Bool) : Except String (ExportOutcome × Option Bytes) := do
  let receiptBytes ← (readFile fs (.ofString receiptPath)).mapError fun _ =>
    s!"cannot read receipt {receiptPath}"
  let receipt ← (exporterOf b e receiptPath).readReceipt receiptBytes
  if missingFiles (eventFile fs receiptPath) receipt ≠ [] ∧ allowPartial = false then
    return (.incompleteChain (missingFiles (eventFile fs receiptPath) receipt), none)
  else do
    let isPartial := decide (missingFiles (eventFile fs receiptPath) receipt ≠ [])
    let file ← writeArchive e.tar (exportedEntries b e fs receiptPath receipt receiptBytes isPartial)
    return (.written isPartial, some file)

/-- `verify_archive_bounded`, of the file at a path. -/
def verifyArchiveFile (t : TarCrates) (codec : ArchiveCodec) (files : Files) (limits : ArchiveLimits)
    (path : String) (opts : VerifyOptions) (now : DateTime) (file : Bytes) :
    Except String ArchiveVerdict := do
  let entries ← readArchiveBounded t limits path file
  verifyArchive b files codec path opts now entries

end Export

/-! ### What a reader is owed -/

/-- A check of linkage that fails for the ids without an event. -/
def Unresolved (check : Check) : Prop :=
  check.name = "chain-linkage" ∧ check.status = .fail ∧
    "unresolved causal references: ".toList <+: check.detail.toList

section Statement
variable (b : Backend) (e : ExportCrates) (codec : ArchiveCodec) (fs : FileSystem)
  (receiptPath : String) (receipt : Receipt) (receiptBytes : Bytes)

/-- The id leads to a place in the directory of events, links followed. -/
def InLedger (id : String) : Prop :=
  ∃ ledger names : Location, resolve fs true (eventsDir receiptPath) = .ok ledger ∧
    resolve fs true (candidate receiptPath id) = .ok (ledger ++ names)

/-- The file is read, its events are resolved, and none was read from elsewhere. -/
structure Readable (files : Files) (path : String) (opts : VerifyOptions) (now : DateTime)
    (file : Bytes) : Prop where
  accepted : ∃ verdict,
    verifyArchiveFile b e.tar codec files defaultLimits path opts now file = .ok verdict ∧
      ∀ v ∈ verdict.receipts, ∀ check, v.checks.getLast? = some check → ¬ Unresolved check
  inside : ∀ id ∈ receipt.causalEvents, InLedger fs receiptPath id

/-- The paths of the signers' keys. -/
def signerPaths : List String :=
  (keyEntries (exporterOf b e receiptPath) (signerKeys (exporterOf b e receiptPath) receipt
    (eventEntries (eventFile fs receiptPath) receipt))).map ArchiveEntry.path

/-- What the ids, the events and the keys of a receipt have to be for that. -/
structure Portable : Prop where
  distinct : receipt.causalEvents.Nodup
  signers : (signerPaths b e fs receiptPath receipt).Nodup
  /-- A header holds the path of each event as it is. -/
  direct : ∀ id ∈ receipt.causalEvents, e.tar.header (eventPath id) = .ok ⟨false, eventPath id⟩
  events : ∀ id ∈ receipt.causalEvents, ∀ bytes, eventFile fs receiptPath id = some bytes →
    ∃ event, codec.event bytes = some event
  inside : ∀ id ∈ receipt.causalEvents, InLedger fs receiptPath id
  fits : ∀ packed,
    e.tar.pack ((sortByKey ArchiveEntry.path
      (exportedEntries b e fs receiptPath receipt receiptBytes false)).map recordOf) = .ok packed →
    Fits defaultLimits (exportedEntries b e fs receiptPath receipt receiptBytes false) packed

/-- What is relied on: `tar`, and that the manifest is read back as it was written. -/
structure ExportCrates.Lawful (e : ExportCrates) (codec : ArchiveCodec) : Prop where
  tar : e.tar.Lawful
  manifest : ∀ receipt isPartial,
    codec.manifest (e.manifestBytes receipt isPartial) = .ok ⟨archiveFormat, isPartial⟩

end Statement

/-! ### The file of an export -/

section Outcome
variable {b : Backend} {e : ExportCrates} {fs : FileSystem} {receiptPath : String} {receipt : Receipt}
  {receiptBytes file : Bytes} {allowPartial : Bool}

/-- The outcome is that of the export, the file aside. -/
theorem exportArchive_eq (hfile : readFile fs (.ofString receiptPath) = .ok receiptBytes) :
    exportArchive (exporterOf b e receiptPath) (eventFile fs receiptPath) receiptBytes allowPartial =
      (exportFile b e fs receiptPath allowPartial).map Prod.fst := by
  unfold exportArchive exportFile
  rw [hfile]
  cases hreceipt : (exporterOf b e receiptPath).readReceipt receiptBytes with
  | error err => simp only [bind, Except.bind, mapError_ok, hreceipt, Except.map]
  | ok receipt =>
    simp only [bind, Except.bind, mapError_ok, hreceipt]
    split
    next => rfl
    next =>
      simp only [exporterOf, exportedEntries]
      cases writeArchive e.tar _ with
      | error err => rfl
      | ok file => rfl

/-- A complete archive holds the file of every listed event. -/
theorem exportFile_written (hfile : readFile fs (.ofString receiptPath) = .ok receiptBytes)
    (hread : readReceipt b receiptBytes = .ok receipt)
    (h : exportFile b e fs receiptPath allowPartial = .ok (.written false, some file)) :
    (∀ id ∈ receipt.causalEvents, ∃ bytes, eventFile fs receiptPath id = some bytes) ∧
      writeArchive e.tar (exportedEntries b e fs receiptPath receipt receiptBytes false) = .ok file := by
  obtain ⟨bytes, hbytes, h⟩ := except_bind_eq_ok.mp h
  obtain rfl : receiptBytes = bytes := Except.ok.inj (hfile.symm.trans (mapError_eq_ok.mp hbytes))
  obtain ⟨receipt', hreceipt, h⟩ := except_bind_eq_ok.mp h
  obtain rfl : receipt = receipt' := Except.ok.inj (hread.symm.trans (mapError_eq_ok.mp hreceipt))
  split at h
  next => cases h
  next =>
    obtain ⟨written, hwritten, h⟩ := except_bind_eq_ok.mp h
    obtain ⟨houtcome, hsome⟩ := Prod.mk.inj (Except.ok.inj h)
    obtain rfl : written = file := Option.some.inj hsome
    have hcomplete := ExportOutcome.written.inj houtcome
    rw [hcomplete] at hwritten
    refine ⟨?_, hwritten⟩
    have hmissing : missingFiles (eventFile fs receiptPath) receipt = [] := by simpa using hcomplete
    intro id hid
    have hsome := List.filter_eq_nil_iff.mp hmissing id hid
    exact Option.ne_none_iff_exists'.mp fun hnone => hsome (Option.isNone_iff_eq_none.mpr hnone)

end Outcome

/-! ### The paths of the entries -/

section Paths
variable {b : Backend} {e : ExportCrates} {codec : ArchiveCodec} {fs : FileSystem}
  {receiptPath path : String} {receipt : Receipt} {receiptBytes : Bytes} {ids : List String}
  {names : List Name} {entry : ArchiveEntry}

/-- Names with a slash between them make a plain path, if they are short. -/
theorem plainPath_of_names (h : utf8 path = [Hashing.slash].intercalate (names.map Name.bytes))
    (hne : names ≠ []) (hshort : (utf8 path).length ≤ 100) (hnul : 0 ∉ utf8 path) : PlainPath path := by
  have hpath := ofString_of_names h hne
  refine ⟨hshort, hnul, by rw [hpath], ?_⟩
  rw [hpath]
  intro component hcomponent
  obtain ⟨name, _, rfl⟩ := List.mem_map.mp hcomponent
  exact ⟨nofun, nofun⟩

/-- The bytes of a text in hex are its digits. -/
theorem mem_utf8_hexEncode {bytes : Bytes} {byte : UInt8} (h : byte ∈ utf8 (Trust.hexEncode bytes)) :
    byte ≠ 0 ∧ byte ≠ Hashing.slash := by
  have hdigits : ∀ k < 16, ∀ byte ∈ String.utf8EncodeChar (Nat.digitChar k),
      byte ≠ 0 ∧ byte ≠ Hashing.slash := by decide +kernel
  rw [Trust.hexEncode, Trust.utf8_ofList] at h
  obtain ⟨digit, hdigit, hbyte⟩ := List.mem_flatMap.mp h
  obtain ⟨b, _, hdigit⟩ := List.mem_flatMap.mp hdigit
  have hb := b.toNat_lt
  rcases List.mem_pair.mp hdigit with rfl | rfl
  · exact hdigits _ (by omega) byte hbyte
  · exact hdigits _ (by omega) byte hbyte

/-- The path of a key. -/
def keyPath (id : String) : String := "pubkeys/" ++ id ++ ".pub"

theorem plainPath_keyPath (key : VerifyingKey) : PlainPath (keyPath (keyId b.crates key)) := by
  have hlength : (utf8 (keyId b.crates key)).length = 32 := by
    rw [Trust.length_utf8, keyId, Trust.utf8ByteSize_hexEncode]
    simp
  have hkey : ∀ byte ∈ utf8 (keyId b.crates key), byte ≠ 0 ∧ byte ≠ Hashing.slash :=
    fun byte hbyte => mem_utf8_hexEncode hbyte
  have hend : utf8 ".pub" = [46, 112, 117, 98] := by decide +kernel
  have hstart : utf8 "pubkeys/" = [112, 117, 98, 107, 101, 121, 115, 47] := by decide +kernel
  have hname : Name.WellFormed (utf8 (keyId b.crates key) ++ utf8 ".pub") := by
    refine ⟨?_, ?_, ?_, ?_⟩
    · exact List.append_ne_nil_of_right_ne_nil _ (by rw [hend]; exact List.cons_ne_nil _ _)
    · rw [hend, List.mem_append]
      intro hslash
      rcases hslash with hslash | hslash
      · exact (hkey _ hslash).2 rfl
      · exact absurd hslash (by decide)
    · intro h
      have := congrArg List.length h
      simp [hlength, hend] at this
    · intro h
      have := congrArg List.length h
      simp [hlength, hend] at this
  have hutf8 : utf8 (keyPath (keyId b.crates key)) =
      [112, 117, 98, 107, 101, 121, 115, 47] ++ (utf8 (keyId b.crates key) ++ utf8 ".pub") := by
    rw [keyPath, utf8_append, utf8_append, hstart, List.append_assoc]
  have hfolder : Name.WellFormed [112, 117, 98, 107, 101, 121, 115] := by decide
  apply @plainPath_of_names _ [⟨_, hfolder⟩, ⟨_, hname⟩] _ (List.cons_ne_nil _ _)
  · rw [hutf8]
    simp [hlength, hend]
  · rw [hutf8, hend]
    simp only [List.mem_append]
    intro hnul
    rcases hnul with hnul | hnul | hnul
    · exact absurd hnul (by decide)
    · exact (hkey _ hnul).1 rfl
    · exact absurd hnul (by decide)
  · rw [hutf8, List.map_cons, List.map_singleton, List.intercalate_cons_cons, List.intercalate_singleton]
    rfl

theorem plainPath_fixed : PlainPath "manifest.json" ∧ PlainPath "receipt.yaml" := by
  have hsizes : (utf8 "manifest.json").length ≤ 100 ∧ (utf8 "receipt.yaml").length ≤ 100 ∧
      0 ∉ utf8 "manifest.json" ∧ 0 ∉ utf8 "receipt.yaml" := by decide +kernel
  have hmanifest : Name.WellFormed (utf8 "manifest.json") := by decide +kernel
  have hreceipt : Name.WellFormed (utf8 "receipt.yaml") := by decide +kernel
  constructor
  · exact @plainPath_of_names _ [⟨_, hmanifest⟩] List.intercalate_singleton.symm (List.cons_ne_nil _ _)
      hsizes.1 hsizes.2.2.1
  · exact @plainPath_of_names _ [⟨_, hreceipt⟩] List.intercalate_singleton.symm (List.cons_ne_nil _ _)
      hsizes.2.1 hsizes.2.2.2

theorem mem_eventEntries {files : String → Option Bytes} :
    entry ∈ eventEntries files receipt ↔
      ∃ id ∈ receipt.causalEvents, ∃ bytes, files id = some bytes ∧ ⟨eventPath id, bytes⟩ = entry := by
  simp only [eventEntries, List.mem_filterMap, Option.map_eq_some_iff, eventPath]

theorem paths_eventEntries {files : String → Option Bytes}
    (h : ∀ id ∈ receipt.causalEvents, ∃ bytes, files id = some bytes) :
    (eventEntries files receipt).map ArchiveEntry.path = receipt.causalEvents.map eventPath := by
  rw [eventEntries, List.map_filterMap, ← List.filterMap_eq_map]
  apply List.filterMap_congr
  intro id hid
  obtain ⟨bytes, hbytes⟩ := h id hid
  rw [hbytes]
  rfl

theorem mem_signerPaths (h : path ∈ signerPaths b e fs receiptPath receipt) :
    ∃ key, path = keyPath (keyId b.crates key) := by
  obtain ⟨entry, hentry, rfl⟩ := List.mem_map.mp h
  obtain ⟨keyHex, _, hkey⟩ := List.mem_filterMap.mp hentry
  split at hkey
  next id pem hpem =>
    cases hkey
    simp only [exporterOf, publicKeyPemFromHex] at hpem
    split at hpem
    next => cases hpem
    next =>
      split at hpem
      next => cases hpem
      next =>
        obtain ⟨key, _, hpem⟩ := except_bind_eq_ok.mp hpem
        obtain ⟨_, _, hpem⟩ := except_bind_eq_ok.mp hpem
        cases hpem
        exact ⟨key, rfl⟩
  next => cases hkey

/-- The paths of a complete archive. -/
theorem paths_exportedEntries
    (h : ∀ id ∈ receipt.causalEvents, ∃ bytes, eventFile fs receiptPath id = some bytes) :
    (exportedEntries b e fs receiptPath receipt receiptBytes false).map ArchiveEntry.path =
      receipt.causalEvents.map eventPath ++
        (signerPaths b e fs receiptPath receipt ++ ["manifest.json", "receipt.yaml"]) := by
  rw [exportedEntries, exportEntries, List.map_append, List.map_append, paths_eventEntries h,
    List.append_assoc]
  rfl

/-- Only the ids and the keys can make two paths of an archive the same. -/
theorem nodup_paths_iff
    (h : ∀ id ∈ receipt.causalEvents, ∃ bytes, eventFile fs receiptPath id = some bytes) :
    ((exportedEntries b e fs receiptPath receipt receiptBytes false).map ArchiveEntry.path).Nodup ↔
      receipt.causalEvents.Nodup ∧ (signerPaths b e fs receiptPath receipt).Nodup := by
  have hkey : ∀ path ∈ signerPaths b e fs receiptPath receipt, path.toList.head? = some 'p' := by
    intro path hpath
    obtain ⟨key, rfl⟩ := mem_signerPaths hpath
    simp [keyPath]
  have hevent : ∀ path ∈ receipt.causalEvents.map eventPath, path.toList.head? = some 'e' := by
    intro path hpath
    obtain ⟨id, _, rfl⟩ := List.mem_map.mp hpath
    simp [eventPath]
  have hfixed : ∀ path ∈ ["manifest.json", "receipt.yaml"],
      path.toList.head? = some 'm' ∨ path.toList.head? = some 'r' := by decide
  rw [paths_exportedEntries h, List.nodup_append, List.nodup_append,
    List.nodup_map_iff eventPath_injective]
  constructor
  · intro hnodup
    obtain ⟨hids, ⟨hkeys, _, _⟩, _⟩ := hnodup
    exact ⟨hids, hkeys⟩
  · intro hnodup
    obtain ⟨hids, hkeys⟩ := hnodup
    refine ⟨hids, ⟨hkeys, by decide, ?_⟩, ?_⟩
    · intro path hpath other hother heq
      subst heq
      have hhead := hfixed path hother
      rw [hkey path hpath] at hhead
      exact absurd hhead (by decide)
    · intro path hpath other hother heq
      subst heq
      rcases List.mem_append.mp hother with hother | hother
      · have hhead := hkey path hother
        rw [hevent path hpath] at hhead
        exact absurd hhead (by decide)
      · have hhead := hfixed path hother
        rw [hevent path hpath] at hhead
        exact absurd hhead (by decide)

/-- Whatever is no event has a path that a header holds. -/
theorem header_of_entry (he : e.tar.Lawful)
    (h : ∀ id ∈ receipt.causalEvents, ∃ bytes, eventFile fs receiptPath id = some bytes)
    (hdirect : ∀ id ∈ receipt.causalEvents, e.tar.header (eventPath id) = .ok ⟨false, eventPath id⟩)
    (hentry : entry ∈ exportedEntries b e fs receiptPath receipt receiptBytes false) :
    e.tar.header entry.path = .ok ⟨false, entry.path⟩ := by
  have hpath : entry.path ∈ (exportedEntries b e fs receiptPath receipt receiptBytes false).map
      ArchiveEntry.path := List.mem_map_of_mem hentry
  rw [paths_exportedEntries h, List.mem_append, List.mem_append] at hpath
  rcases hpath with hpath | hpath | hpath
  · obtain ⟨id, hid, hpath⟩ := List.mem_map.mp hpath
    rw [← hpath]
    exact hdirect id hid
  · obtain ⟨key, hpath⟩ := mem_signerPaths hpath
    rw [hpath]
    exact he.plain _ (plainPath_keyPath key)
  · rcases List.mem_pair.mp hpath with hpath | hpath
    · rw [hpath]
      exact he.plain _ plainPath_fixed.1
    · rw [hpath]
      exact he.plain _ plainPath_fixed.2

end Paths

/-! ### Reading it back -/

section Linkage
variable {b : Backend} {codec : ArchiveCodec} {c : Crates} {archive : ReadArchive} {receipt : Receipt}
  {events : String → Option CausalEvent} {files : Files} {path : String} {opts : VerifyOptions}
  {now : DateTime} {manifest receiptBytes : Bytes}

theorem not_unresolved {status : CheckStatus} {detail : String} (h : detail.toList.head? ≠ some 'u') :
    ¬ Unresolved (linkageCheck status detail) := by
  intro ⟨_, _, hdetail⟩
  obtain ⟨rest, hrest⟩ := hdetail
  apply h
  show (linkageCheck status detail).detail.toList.head? = some 'u'
  rw [← hrest]
  rfl

theorem not_unresolved_linkOrdered (ordered : List CausalEvent) :
    ¬ Unresolved (linkOrdered c receipt ordered) := by
  unfold linkOrdered
  split
  next => exact not_unresolved (by simp)
  next =>
    split
    next => exact not_unresolved (by simp)
    next =>
      split
      next =>
        split
        next => exact fun h => nomatch h.2.1
        next => exact not_unresolved (by simp [toString])
      next => exact not_unresolved (by simp)

/-- The check fails in that way where some listed id has no event. -/
theorem unresolved_iff :
    Unresolved (chainLinkage c receipt events false) ↔ missingEvents receipt events ≠ [] := by
  unfold chainLinkage
  split
  next hnone => simp [Unresolved, linkageCheck, missingEvents, hnone]
  next =>
    split
    next hmissing =>
      simp only [Bool.false_eq_true, if_false, ne_eq, hmissing, not_false_eq_true, iff_true]
      exact ⟨rfl, rfl, by simp [linkageCheck]⟩
    next hmissing => exact iff_of_false (not_unresolved_linkOrdered _) hmissing

/-- All is resolved where every listed id has an event. -/
theorem resolved_iff (hmanifest : fileAt archive "manifest.json" = some manifest)
    (hcodec : codec.manifest manifest = .ok ⟨archiveFormat, false⟩)
    (hfile : fileAt archive "receipt.yaml" = some receiptBytes)
    (hread : readReceipt b receiptBytes = .ok receipt) :
    (∃ verdict, verifyArchive b files codec path opts now archive.entries = .ok verdict ∧
      ∀ v ∈ verdict.receipts, ∀ check, v.checks.getLast? = some check → ¬ Unresolved check) ↔
    ∀ id ∈ receipt.causalEvents, ∃ event, eventAt codec archive id = some event := by
  obtain ⟨v, hverify, hlast⟩ := @verifyArchive_of_files b codec archive receipt files path opts now _ _ _
    hmanifest hcodec rfl hfile hread
  rw [← missingEvents_eq_nil, ← not_ne_iff, ← @unresolved_iff b.crates]
  constructor
  · intro ⟨verdict, hverdict, hresolved⟩
    obtain rfl := Except.ok.inj (hverify.symm.trans hverdict)
    exact hresolved v (List.mem_singleton.mpr rfl) _ hlast
  · intro hresolved
    refine ⟨_, hverify, ?_⟩
    intro v' hv' check hcheck
    obtain rfl := List.mem_singleton.mp hv'
    obtain rfl := Option.some.inj (hlast.symm.trans hcheck)
    exact hresolved

end Linkage

section Main
variable {b : Backend} {e : ExportCrates} {codec : ArchiveCodec} {fs : FileSystem} {t : TarCrates}
  {receiptPath path : String} {receipt : Receipt} {receiptBytes file : Bytes} {files : Files}
  {opts : VerifyOptions} {now : DateTime} {allowPartial : Bool} {entries : List ArchiveEntry}
  {records : List Record} {entry : ArchiveEntry}

/-- What the reader gives for records under different paths. -/
def readOf (records : List Record) (hdistinct : (records.map Record.path).Nodup) : ReadArchive :=
  ⟨records.map entryOf, by rw [List.map_map]; exact hdistinct⟩

theorem fileAt_readOf {hdistinct : (records.map Record.path).Nodup}
    (hheld : List.Forall₂ (Held t) entries records) (hentry : entry ∈ entries)
    (hdirect : t.header entry.path = .ok ⟨false, entry.path⟩) :
    fileAt (readOf records hdistinct) entry.path = some entry.bytes := by
  obtain ⟨record, hrecord, hpath⟩ := mem_of_held hheld hentry
  refine fileAt_eq_some_iff.mpr ⟨entryOf record, List.mem_map_of_mem hrecord, ?_, hpath.bytes⟩
  exact (Header.mk.inj (Except.ok.inj (hpath.path.symm.trans hdirect))).2

/-- A path that is read back is one a header holds as it is. -/
theorem direct_of_fileAt (ht : t.Lawful) {hdistinct : (records.map Record.path).Nodup} {bytes : Bytes}
    (hheld : List.Forall₂ (Held t) entries records)
    (hfile : fileAt (readOf records hdistinct) path = some bytes) :
    t.header path = .ok ⟨false, path⟩ := by
  obtain ⟨entry, hentry, rfl, _⟩ := fileAt_eq_some_iff.mp hfile
  obtain ⟨record, hrecord, rfl⟩ := List.mem_map.mp hentry
  obtain ⟨_, _, entry, _, hpath⟩ := regular_of_held hheld record hrecord
  exact ht.again _ _ hpath.path

/-- The two entries that are in every archive. -/
theorem mem_exportedEntries :
    ⟨"manifest.json", e.manifestBytes receipt false⟩ ∈
        exportedEntries b e fs receiptPath receipt receiptBytes false ∧
      ⟨"receipt.yaml", receiptBytes⟩ ∈ exportedEntries b e fs receiptPath receipt receiptBytes false := by
  constructor
  · exact List.mem_append_right _ (List.mem_cons_self ..)
  · exact List.mem_append_right _ (List.mem_cons_of_mem _ (List.mem_cons_self ..))

theorem mem_exportedEntries_of_eventFile {id : String} {bytes : Bytes} (hid : id ∈ receipt.causalEvents)
    (hbytes : eventFile fs receiptPath id = some bytes) :
    ⟨eventPath id, bytes⟩ ∈ exportedEntries b e fs receiptPath receipt receiptBytes false :=
  List.mem_append_left _ (List.mem_append_left _ (mem_eventEntries.mpr ⟨id, hid, bytes, hbytes, rfl⟩))

/-- Reading back, once it is known what is read. -/
theorem accepted_iff (he : e.Lawful codec) (hread : readReceipt b receiptBytes = .ok receipt)
    {hdistinct : (records.map Record.path).Nodup}
    (hheld : List.Forall₂ (Held e.tar) (sortByKey ArchiveEntry.path
      (exportedEntries b e fs receiptPath receipt receiptBytes false)) records) :
    (∃ verdict, verifyArchive b files codec path opts now (records.map entryOf) = .ok verdict ∧
      ∀ v ∈ verdict.receipts, ∀ check, v.checks.getLast? = some check → ¬ Unresolved check) ↔
    ∀ id ∈ receipt.causalEvents, ∃ bytes event,
      fileAt (readOf records hdistinct) (eventPath id) = some bytes ∧ codec.event bytes = some event := by
  have hsorted := List.mergeSort_perm
    (exportedEntries b e fs receiptPath receipt receiptBytes false) (keyLe ArchiveEntry.path)
  obtain ⟨hmanifest, hreceipt⟩ :=
    @mem_exportedEntries b e fs receiptPath receipt receiptBytes
  have hfiles := fun entry hentry hplain =>
    @fileAt_readOf e.tar _ records entry hdistinct hheld (hsorted.mem_iff.mpr hentry) hplain
  refine (resolved_iff (hfiles _ hmanifest (he.tar.plain _ plainPath_fixed.1)) (he.manifest _ _)
    (hfiles _ hreceipt (he.tar.plain _ plainPath_fixed.2)) hread).trans ?_
  apply forall₂_congr
  intro id _
  constructor
  · intro ⟨event, hevent⟩
    obtain ⟨bytes, hbytes⟩ := eventAt_eq_some_iff.mp hevent
    exact ⟨bytes, event, hbytes⟩
  · intro ⟨bytes, event, hbytes⟩
    exact ⟨event, eventAt_eq_some_iff.mpr ⟨bytes, hbytes⟩⟩

/-- **Which archives the verifier reads**: of the complete ones, those whose ids are distinct and
name, by a path a header holds as it is, an event in the directory of events, whose signers'
keys have distinct ids, and that fit the limits. -/
theorem readable_iff (he : e.Lawful codec)
    (hfile : readFile fs (.ofString receiptPath) = .ok receiptBytes)
    (hread : readReceipt b receiptBytes = .ok receipt)
    (h : exportFile b e fs receiptPath allowPartial = .ok (.written false, some file)) :
    Readable b e codec fs receiptPath receipt files path opts now file ↔
      Portable b e codec fs receiptPath receipt receiptBytes := by
  obtain ⟨hcomplete, hwritten⟩ := exportFile_written hfile hread h
  have hsorted := List.mergeSort_perm
    (exportedEntries b e fs receiptPath receipt receiptBytes false) (keyLe ArchiveEntry.path)
  have hentries : ∀ (hdirect : ∀ id ∈ receipt.causalEvents,
      e.tar.header (eventPath id) = .ok ⟨false, eventPath id⟩),
      ∀ entry ∈ sortByKey ArchiveEntry.path (exportedEntries b e fs receiptPath receipt receiptBytes false),
        e.tar.header entry.path = .ok ⟨false, entry.path⟩ :=
    fun hdirect entry hentry => header_of_entry he.tar hcomplete hdirect (hsorted.mem_iff.mp hentry)
  constructor
  · intro ⟨⟨verdict, hverify, hresolved⟩, hinside⟩
    obtain ⟨read, hback, hverify⟩ := except_bind_eq_ok.mp hverify
    obtain ⟨hfits, records, hheld, hdistinct, rfl⟩ := (read_written_iff he.tar hwritten).mp hback
    have hevents := (@accepted_iff b e codec fs receiptPath path receipt receiptBytes files opts now records
      he hread hdistinct hheld).mp ⟨verdict, hverify, hresolved⟩
    have hdirect : ∀ id ∈ receipt.causalEvents,
        e.tar.header (eventPath id) = .ok ⟨false, eventPath id⟩ := by
      intro id hid
      obtain ⟨bytes, event, hbytes, _⟩ := hevents id hid
      exact direct_of_fileAt he.tar hheld hbytes
    have hrecords := records_of_direct hheld (hentries hdirect)
    have hpaths : ((exportedEntries b e fs receiptPath receipt receiptBytes false).map
        ArchiveEntry.path).Nodup := by
      rw [hrecords, List.map_map] at hdistinct
      exact (hsorted.map ArchiveEntry.path).nodup_iff.mp hdistinct
    obtain ⟨hids, hkeys⟩ := (nodup_paths_iff hcomplete).mp hpaths
    refine ⟨hids, hkeys, hdirect, ?_, hinside, ?_⟩
    · intro id hid bytes hbytes
      obtain ⟨bytes', event, hbytes', hevent⟩ := hevents id hid
      have hmem := hsorted.mem_iff.mpr (mem_exportedEntries_of_eventFile hid hbytes)
      have hsame : fileAt (readOf records hdistinct) (eventPath id) = some bytes :=
        fileAt_readOf hheld hmem (hdirect id hid)
      obtain rfl := Option.some.inj (hsame.symm.trans hbytes')
      exact ⟨event, hevent⟩
    · intro packed hpacked
      rw [← hrecords, ← writeArchive_of_held hheld, hwritten] at hpacked
      obtain rfl := Except.ok.inj hpacked
      exact hfits
  · intro hportable
    have hheld := held_recordOf (hentries hportable.direct)
    have hpaths := (@nodup_paths_iff b e fs receiptPath receipt receiptBytes hcomplete).mpr
      ⟨hportable.distinct, hportable.signers⟩
    have hdistinct : (((sortByKey ArchiveEntry.path
        (exportedEntries b e fs receiptPath receipt receiptBytes false)).map recordOf).map
          Record.path).Nodup := by
      rw [List.map_map]
      exact (hsorted.map ArchiveEntry.path).nodup_iff.mpr hpaths
    have hfits := hportable.fits file ((writeArchive_of_held hheld).symm.trans hwritten)
    have hback := (@read_written_iff _ _ _ _ path file he.tar hwritten).mpr
      ⟨hfits, _, hheld, hdistinct, rfl⟩
    have hevents := (@accepted_iff b e codec fs receiptPath path receipt receiptBytes files opts now _
      he hread hdistinct hheld).mpr (by
        intro id hid
        obtain ⟨bytes, hbytes⟩ := hcomplete id hid
        obtain ⟨event, hevent⟩ := hportable.events id hid bytes hbytes
        have hmem := hsorted.mem_iff.mpr (mem_exportedEntries_of_eventFile hid hbytes)
        exact ⟨bytes, event, fileAt_readOf hheld hmem (hportable.direct id hid), hevent⟩)
    obtain ⟨verdict, hverify, hresolved⟩ := hevents
    exact ⟨⟨verdict, except_bind_eq_ok.mpr ⟨_, hback, hverify⟩, hresolved⟩, hportable.inside⟩

end Main

end Attest.Archive
