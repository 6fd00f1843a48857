import Attest.Library.Interleaving
import Attest.Library.StableSort
import Attest.Executor.Artifacts
import Mathlib.Data.Countable.Basic
import Mathlib.Logic.Equiv.List

/-! The cache as it lies on disk, after `storage/mod.rs`.

An entry is a file of its own, named by its key, and one more file is an index of all of
them, which is read, changed and written back whole. Any number of processes work in the
directory at once, none of them under a lock, and a file can be seen while its content is
still being written. A file that cannot be parsed stops the run that comes upon it.
`serves_along_iff` says of any such history when the cache can be used in every state of
it: exactly when no file was left or seen at a length that does not parse. -/
namespace Attest.Executor
open Library Library.Process
open Trust (Bytes DateTime utf8)

/-! ### What the files hold -/

/-- An entry as it is stored. -/
structure CacheRecord extends CacheEntry where
  inputPaths : List String
  outputPaths : List String
  command : String
  environmentHash : String
  cachedAt : DateTime
  dependencies : List String
  metadata : SortedMap String String

structure CacheIndexEntry where
  contentHash : String
  stepName : String
  cachedAt : DateTime
  fileSize : Nat
  accessCount : Nat
  lastAccessed : DateTime

structure CacheIndex where
  entries : SortedMap String CacheIndexEntry
  lastUpdated : DateTime

/-- `serde_yaml`, on the content of a file. -/
structure CacheCodec where
  entryText : CacheRecord → Bytes
  readEntry : Bytes → Except String CacheRecord
  indexText : CacheIndex → Bytes
  readIndex : Bytes → Except String CacheIndex

/-- What was written whole reads back. -/
structure CacheCodec.Lawful (codec : CacheCodec) : Prop where
  entry : ∀ record, codec.readEntry (codec.entryText record) = .ok record
  index : ∀ index, codec.readIndex (codec.indexText index) = .ok index

/-! ### Calls -/

/-- The files of the directory, by name. -/
abbrev CacheDir := String → Option Bytes

def indexFile : String := "index.yaml"

def fileOf (hash : String) : String := hash ++ ".yaml"

/-- A call on one file. Whether it is there and what is in it is one call. -/
inductive CacheCall
  | read (name : String)
  | size (name : String)
  | write (name : String) (content : Bytes)
  | remove (name : String)

abbrev CacheCall.Reply : CacheCall → Type
  | .read _ => Option Bytes
  | .size _ => Nat
  | .write _ _ => Unit
  | .remove _ => Unit

abbrev CacheProcess := Process CacheCall CacheCall.Reply

def readFile (name : String) : CacheProcess (Option Bytes) := ask (CacheCall.read name)

def sizeOfFile (name : String) : CacheProcess Nat := ask (CacheCall.size name)

def writeFile (name : String) (content : Bytes) : CacheProcess Unit := ask (CacheCall.write name content)

def removeFile (name : String) : CacheProcess Unit := ask (CacheCall.remove name)

namespace CacheDir

def perform (dir : CacheDir) : (call : CacheCall) → call.Reply × CacheDir
  | .read name => (dir name, dir)
  | .size name => ((dir name).elim 0 List.length, dir)
  | .write name content => ((), Function.update dir name (some content))
  | .remove name => ((), Function.update dir name none)

/-- `fs::write` truncates the file and fills it: what is there when some bytes are. -/
def partly (dir : CacheDir) (call : CacheCall) (amount : Nat) : CacheDir :=
  match call with
  | .write name content => Function.update dir name (some (content.take amount))
  | _ => dir

variable (codec : CacheCodec)

def getCachedEntry (key : String) : CacheProcess (Except String (Option CacheRecord)) := do
  match ← readFile (fileOf key) with
  | none => return .ok none
  | some content =>
    match codec.readEntry content with
    | .error e => return .error e
    | .ok record =>
      if record.contentHash = key then return .ok (some record)
      else
        removeFile (fileOf key)
        return .ok none

/-- The readings of the clock for one entry of the index. -/
structure Stamps where
  cachedAt : DateTime
  lastAccessed : DateTime
  lastUpdated : DateTime

/-- The index as a writer finds it. -/
def readIndexFile (now : DateTime) (content : Option Bytes) : Except String CacheIndex :=
  match content with
  | none => .ok ⟨.empty, now⟩
  | some content => codec.readIndex content

def indexed (index : CacheIndex) (hash name : String) (size : Nat) (stamps : Stamps) : CacheIndex where
  entries := index.entries.insert hash
    { contentHash := hash
      stepName := name
      cachedAt := stamps.cachedAt
      fileSize := size
      accessCount := 1
      lastAccessed := stamps.lastAccessed }
  lastUpdated := stamps.lastUpdated

def updateCacheIndex (hash name : String) (stamps : Stamps) : CacheProcess (Except String Unit) := do
  let content ← readFile indexFile
  match readIndexFile codec stamps.lastUpdated content with
  | .error e => return .error e
  | .ok index =>
    let size ← sizeOfFile (fileOf hash)
    writeFile indexFile (codec.indexText (indexed index hash name size stamps))
    return .ok ()

def cacheEntry (record : CacheRecord) (stamps : Stamps) : CacheProcess (Except String Unit) := do
  writeFile (fileOf record.contentHash) (codec.entryText record)
  updateCacheIndex codec record.contentHash record.stepName stamps

def initCacheIndex (now : DateTime) : CacheProcess (Except String Unit) := do
  match ← readFile indexFile with
  | some _ => return .ok ()
  | none =>
    writeFile indexFile (codec.indexText ⟨.empty, now⟩)
    return .ok ()

structure CacheStats where
  totalEntries : Nat
  totalSizeBytes : Nat
  totalCacheHits : Nat
  oldestEntry : Option DateTime
  newestEntry : Option DateTime

def statsOf (index : CacheIndex) : CacheStats where
  totalEntries := index.entries.entries.length
  totalSizeBytes := (index.entries.entries.map fun entry => entry.2.fileSize).sum
  totalCacheHits := (index.entries.entries.map fun entry => entry.2.accessCount).sum
  oldestEntry := (index.entries.entries.map fun entry => entry.2.cachedAt).min?
  newestEntry := (index.entries.entries.map fun entry => entry.2.cachedAt).max?

def getCacheStats : CacheProcess (Except String CacheStats) := do
  match ← readFile indexFile with
  | none => return .ok ⟨0, 0, 0, none, none⟩
  | some content => return (codec.readIndex content).map statsOf

/-! ### Eviction -/

/-- The order in which a map gives its entries: any at all. -/
structure Listing where
  list : CacheIndex → List (String × CacheIndexEntry)
  perm : ∀ index, (list index).Perm index.entries.entries

/-- The entries to remove, from the one that was read least recently on. -/
def entriesToRemove (cutoff : DateTime) (maxSize : Nat) :
    List (String × CacheIndexEntry) → Nat → List (String × CacheIndexEntry)
  | [], _ => []
  | entry :: rest, remaining =>
    if entry.2.cachedAt < cutoff ∨ maxSize < remaining then
      entry :: entriesToRemove cutoff maxSize rest (remaining - entry.2.fileSize)
    else entriesToRemove cutoff maxSize rest remaining

def removeFiles : List String → CacheProcess Unit
  | [] => return ()
  | hash :: rest => do
    removeFile (fileOf hash)
    removeFiles rest

/-- `cleanup_cache`, for the entries older than a moment and for a size. -/
def cleanupCache (listing : Listing) (maxSize : Nat) (cutoff now : DateTime) :
    CacheProcess (Except String Unit) := do
  match ← readFile indexFile with
  | none => return .ok ()
  | some content =>
    match codec.readIndex content with
    | .error e => return .error e
    | .ok index =>
      let byAccess := StableSort.sortByKey (fun entry => entry.2.lastAccessed) (listing.list index)
      let total := (index.entries.entries.map fun entry => entry.2.fileSize).sum
      let removed := (entriesToRemove cutoff maxSize byAccess total).map Prod.fst
      removeFiles removed
      writeFile indexFile (codec.indexText ⟨index.entries.erase removed, now⟩)
      return .ok ()

/-! ### A cache that can be used -/

/-- What the program does with the cache. A key is a digest, which is not the name of the
index. -/
inductive Job
  | lookup (key : String) (h : key ≠ "index")
  | cache (record : CacheRecord) (stamps : Stamps) (h : record.contentHash ≠ "index")
  | cleanup (listing : Listing) (maxSize : Nat) (cutoff now : DateTime)
  | init (now : DateTime)

def Job.program : Job → CacheProcess (Except String Unit)
  | .lookup key _ => do return (← getCachedEntry codec key).map fun _ => ()
  | .cache record stamps _ => cacheEntry codec record stamps
  | .cleanup listing maxSize cutoff now => cleanupCache codec listing maxSize cutoff now
  | .init now => initCacheIndex codec now

/-- A step finds a usable entry or a miss, and a result can be kept. -/
structure Serves (dir : CacheDir) : Prop where
  lookup : ∀ key, key ≠ "index" → ∃ found, ((getCachedEntry codec key).run perform dir).1 = .ok found ∧
    ∀ record ∈ found, record.contentHash = key
  fill : ∀ record stamps, record.contentHash ≠ "index" →
    ((cacheEntry codec record stamps).run perform dir).1 = .ok ()

/-- Every file can be parsed. -/
structure Usable (dir : CacheDir) : Prop where
  entries : ∀ hash content, hash ≠ "index" → dir (fileOf hash) = some content →
    ∃ record, codec.readEntry content = .ok record
  index : ∀ content, dir indexFile = some content → ∃ index, codec.readIndex content = .ok index

/-- A content that a file of this name can be parsed with. -/
def Parses (name : String) (content : Bytes) : Prop :=
  (∃ hash, hash ≠ "index" ∧ name = fileOf hash ∧ ∃ record, codec.readEntry content = .ok record) ∨
    name = indexFile ∧ ∃ index, codec.readIndex content = .ok index

/-- What a call leaves when it is done can be parsed. -/
def Whole : CacheCall → Prop
  | .write name content => Parses codec name content
  | _ => True

/-- What a call that has come so far leaves can be parsed. -/
def FineAt : CacheCall → Nat → Prop
  | .write name content, amount => Parses codec name (content.take amount)
  | _, _ => True

/-- The cache as the steps of a run see it. -/
def parsed (dir : CacheDir) (key : String) : Option CacheEntry :=
  if key = "index" then none
  else (dir (fileOf key)).bind fun content =>
    (codec.readEntry content).toOption.map CacheRecord.toCacheEntry

section Names

theorem contentHash_ne_index {c : Trust.Crates} {shape name inputHash : String}
    {env : SortedMap String String} : contentHash c shape name inputHash env ≠ "index" := by
  intro h
  have hsize := congrArg String.utf8ByteSize h
  rw [contentHash, Trust.utf8ByteSize_hexEncode, Vector.length_toList] at hsize
  exact absurd hsize (by decide)

theorem fileOf_injective : Function.Injective fileOf := by
  intro a b h
  apply String.ext
  have hlist := congrArg String.toList h
  simpa [fileOf] using hlist

theorem fileOf_ne_indexFile {hash : String} (h : hash ≠ "index") : fileOf hash ≠ indexFile := by
  intro heq
  apply h
  apply fileOf_injective
  rw [heq]
  rfl

end Names

section Files
variable {codec : CacheCodec} {dir : CacheDir} {name key : String} {content : Bytes}

theorem usable_remove (h : Usable codec dir) : Usable codec (Function.update dir name none) where
  entries := by
    intro hash content hne hcontent
    by_cases hname : fileOf hash = name
    · rw [hname, Function.update_self] at hcontent
      cases hcontent
    · rw [Function.update_of_ne hname] at hcontent
      exact h.entries hash content hne hcontent
  index := by
    intro content hcontent
    by_cases hname : indexFile = name
    · rw [hname, Function.update_self] at hcontent
      cases hcontent
    · rw [Function.update_of_ne hname] at hcontent
      exact h.index content hcontent

theorem usable_write (h : Usable codec dir) (hparses : Parses codec name content) :
    Usable codec (Function.update dir name (some content)) where
  entries := by
    intro hash found hne hfound
    by_cases hname : fileOf hash = name
    · rw [hname, Function.update_self] at hfound
      cases hfound
      rcases hparses with ⟨_, _, _, hread⟩ | ⟨hindex, _⟩
      · exact hread
      · exact absurd (hname.trans hindex) (fileOf_ne_indexFile hne)
    · rw [Function.update_of_ne hname] at hfound
      exact h.entries hash found hne hfound
  index := by
    intro found hfound
    by_cases hname : indexFile = name
    · rw [hname, Function.update_self] at hfound
      cases hfound
      rcases hparses with ⟨_, hne, hentry, _⟩ | ⟨_, hread⟩
      · exact absurd (hname.trans hentry).symm (fileOf_ne_indexFile hne)
      · exact hread
    · rw [Function.update_of_ne hname] at hfound
      exact h.index found hfound

/-- What stands in a file that the program knows can be parsed, if the directory is usable. -/
theorem parses_of_usable {whole : Bytes}
    (h : Usable codec (Function.update dir name (some content))) (hname : Parses codec name whole) :
    Parses codec name content := by
  rcases hname with ⟨hash, hne, rfl, _⟩ | ⟨rfl, _⟩
  · exact .inl ⟨hash, hne, rfl, h.entries hash content hne (Function.update_self ..)⟩
  · exact .inr ⟨rfl, h.index content (Function.update_self ..)⟩

theorem usable_perform (call : CacheCall) (hcall : Whole codec call) (h : Usable codec dir) :
    Usable codec (perform dir call).2 := by
  cases call with
  | read name => exact h
  | size name => exact h
  | write name content => exact usable_write h hcall
  | remove name => exact usable_remove h

theorem usable_partly_iff (call : CacheCall) (amount : Nat) (hcall : Whole codec call)
    (h : Usable codec dir) : Usable codec (partly dir call amount) ↔ FineAt codec call amount := by
  cases call with
  | read name => exact iff_of_true h trivial
  | size name => exact iff_of_true h trivial
  | write name content =>
    exact ⟨fun husable => parses_of_usable husable hcall, fun hfine => usable_write h hfine⟩
  | remove name => exact iff_of_true h trivial

end Files

/-! ### What the program writes whole can be parsed -/

section Programs
variable {codec : CacheCodec}

theorem calls_readFile (name : String) : (readFile name).Calls (Whole codec) := calls_ask trivial

theorem calls_removeFile (name : String) : (removeFile name).Calls (Whole codec) := calls_ask trivial

theorem calls_removeFiles (hashes : List String) : (removeFiles hashes).Calls (Whole codec) := by
  induction hashes with
  | nil => trivial
  | cons hash rest ih => exact calls_bind (calls_removeFile _) fun _ => ih

theorem calls_writeIndex (hcodec : codec.Lawful) (index : CacheIndex) :
    (writeFile indexFile (codec.indexText index)).Calls (Whole codec) :=
  calls_ask (.inr ⟨rfl, index, hcodec.index index⟩)

theorem calls_getCachedEntry (key : String) : (getCachedEntry codec key).Calls (Whole codec) := by
  apply calls_bind (calls_readFile _)
  intro content
  cases content with
  | none => trivial
  | some content =>
    dsimp only
    split
    next => trivial
    next record _ =>
      split
      next => trivial
      next => exact calls_bind (calls_removeFile _) fun _ => trivial

theorem calls_updateCacheIndex (hcodec : codec.Lawful) (hash name : String) (stamps : Stamps) :
    (updateCacheIndex codec hash name stamps).Calls (Whole codec) := by
  apply calls_bind (calls_readFile _)
  intro content
  split
  next => trivial
  next index _ =>
    apply calls_bind (calls_ask trivial)
    intro size
    exact calls_bind (calls_writeIndex hcodec _) fun _ => trivial

theorem calls_cacheEntry (hcodec : codec.Lawful) (record : CacheRecord) (stamps : Stamps)
    (h : record.contentHash ≠ "index") : (cacheEntry codec record stamps).Calls (Whole codec) := by
  apply calls_bind
  · exact calls_ask (.inl ⟨_, h, rfl, record, hcodec.entry record⟩)
  · intro _
    exact calls_updateCacheIndex hcodec _ _ _

theorem calls_cleanupCache (hcodec : codec.Lawful) (listing : Listing) (maxSize : Nat)
    (cutoff now : DateTime) : (cleanupCache codec listing maxSize cutoff now).Calls (Whole codec) := by
  apply calls_bind (calls_readFile _)
  intro content
  cases content with
  | none => trivial
  | some content =>
    dsimp only
    split
    next => trivial
    next index _ =>
      apply calls_bind (calls_removeFiles _)
      intro _
      exact calls_bind (calls_writeIndex hcodec _) fun _ => trivial

theorem calls_initCacheIndex (hcodec : codec.Lawful) (now : DateTime) :
    (initCacheIndex codec now).Calls (Whole codec) := by
  apply calls_bind (calls_readFile _)
  intro content
  cases content with
  | none => exact calls_bind (calls_writeIndex hcodec _) fun _ => trivial
  | some content => trivial

theorem calls_program (hcodec : codec.Lawful) (job : Job) :
    (job.program codec).Calls (Whole codec) := by
  cases job with
  | lookup key h => exact calls_bind (calls_getCachedEntry key) fun _ => trivial
  | cache record stamps h => exact calls_cacheEntry hcodec record stamps h
  | cleanup listing maxSize cutoff now => exact calls_cleanupCache hcodec listing maxSize cutoff now
  | init now => exact calls_initCacheIndex hcodec now

end Programs

/-! ### What a step gets -/

section Refinement
variable {codec : CacheCodec} {dir : CacheDir} {key : String}

theorem parsed_of_file {content : Bytes} {record : CacheRecord} (hkey : key ≠ "index")
    (hfile : dir (fileOf key) = some content) (hread : codec.readEntry content = .ok record) :
    parsed codec dir key = some record.toCacheEntry := by
  rw [parsed, if_neg hkey, hfile]
  show (codec.readEntry content).toOption.map _ = _
  rw [hread]
  rfl

theorem parsed_of_none (hfile : dir (fileOf key) = none) : parsed codec dir key = none := by
  unfold parsed
  split
  next => rfl
  next => rw [hfile]; rfl

theorem parsed_update_entry {hash : String} {content : Option Bytes} (hkey : key ≠ hash) :
    parsed codec (Function.update dir (fileOf hash) content) key = parsed codec dir key := by
  unfold parsed
  rw [Function.update_of_ne fun h => hkey (fileOf_injective h)]

theorem parsed_update_index {content : Option Bytes} :
    parsed codec (Function.update dir indexFile content) = parsed codec dir := by
  funext key
  unfold parsed
  by_cases hkey : key = "index"
  · rw [if_pos hkey, if_pos hkey]
  · rw [if_neg hkey, if_neg hkey, Function.update_of_ne (fileOf_ne_indexFile hkey)]

theorem parsed_remove {hash : String} :
    parsed codec (Function.update dir (fileOf hash) none) =
      Function.update (parsed codec dir) hash none := by
  funext key
  by_cases hkey : key = hash
  · rw [hkey, Function.update_self, parsed_of_none (Function.update_self ..)]
  · rw [parsed_update_entry hkey, Function.update_of_ne hkey]

/-- Where the files can be parsed, the lookup in the directory is the lookup of a run. -/
theorem getCachedEntry_refines (h : Usable codec dir) (hkey : key ≠ "index") :
    ∃ found, ((getCachedEntry codec key).run perform dir).1 = .ok found ∧
      (∀ record ∈ found, record.contentHash = key) ∧
      ∀ files, Executor.getCachedEntry ⟨files, parsed codec dir⟩ key =
        (found.map CacheRecord.toCacheEntry,
          ⟨files, parsed codec ((getCachedEntry codec key).run perform dir).2⟩) := by
  cases hfile : dir (fileOf key) with
  | none =>
    have hrun : (getCachedEntry codec key).run perform dir = (.ok none, dir) := by
      show Process.run perform (match dir (fileOf key) with | none => _ | some content => _) dir = _
      rw [hfile]
      rfl
    refine ⟨none, by rw [hrun], by simp, ?_⟩
    intro files
    rw [hrun]
    simp only [Executor.getCachedEntry, parsed_of_none hfile, Option.map_none]
  | some content =>
    obtain ⟨record, hread⟩ := h.entries key content hkey hfile
    have hparsed := parsed_of_file hkey hfile hread
    have hrun : (getCachedEntry codec key).run perform dir =
        if record.contentHash = key then (.ok (some record), dir)
        else (.ok none, Function.update dir (fileOf key) none) := by
      show Process.run perform (match dir (fileOf key) with | none => _ | some content => _) dir = _
      rw [hfile]
      dsimp only
      rw [hread]
      dsimp only
      split <;> rfl
    rw [hrun]
    by_cases hhash : record.contentHash = key
    · refine ⟨some record, by rw [if_pos hhash], ?_, ?_⟩
      · intro found hfound
        cases hfound
        exact hhash
      · intro files
        simp only [Executor.getCachedEntry, hparsed, if_pos hhash, Option.map_some]
    · refine ⟨none, by rw [if_neg hhash], by simp, ?_⟩
      intro files
      simp only [Executor.getCachedEntry, hparsed, if_neg hhash, Option.map_none, parsed_remove]

theorem run_updateCacheIndex (hash name : String) (stamps : Stamps) :
    (updateCacheIndex codec hash name stamps).run perform dir =
      match readIndexFile codec stamps.lastUpdated (dir indexFile) with
      | .error e => (.error e, dir)
      | .ok index => (.ok (), Function.update dir indexFile (some (codec.indexText
          (indexed index hash name ((dir (fileOf hash)).elim 0 List.length) stamps)))) := by
  show Process.run perform (match readIndexFile codec stamps.lastUpdated (dir indexFile) with
    | .error e => _
    | .ok index => _) dir = _
  split <;> rfl

theorem run_cacheEntry (record : CacheRecord) (stamps : Stamps) :
    (cacheEntry codec record stamps).run perform dir =
      (updateCacheIndex codec record.contentHash record.stepName stamps).run perform
        (Function.update dir (fileOf record.contentHash) (some (codec.entryText record))) := rfl

theorem readIndexFile_of_usable (h : Usable codec dir) (now : DateTime) :
    ∃ index, readIndexFile codec now (dir indexFile) = .ok index := by
  unfold readIndexFile
  split
  next => exact ⟨_, rfl⟩
  next content hcontent => exact h.index content hcontent

/-- Where the index can be parsed, keeping an entry in the directory is keeping it in the
cache of a run. -/
theorem cacheEntry_refines (hcodec : codec.Lawful) (h : Usable codec dir) {record : CacheRecord}
    (hkey : record.contentHash ≠ "index") (stamps : Stamps) :
    ((cacheEntry codec record stamps).run perform dir).1 = .ok () ∧
      parsed codec ((cacheEntry codec record stamps).run perform dir).2 =
        Function.update (parsed codec dir) record.contentHash (some record.toCacheEntry) := by
  have hwritten : Usable codec
      (Function.update dir (fileOf record.contentHash) (some (codec.entryText record))) :=
    usable_write h (.inl ⟨_, hkey, rfl, record, hcodec.entry record⟩)
  obtain ⟨index, hindex⟩ := readIndexFile_of_usable hwritten stamps.lastUpdated
  rw [run_cacheEntry, run_updateCacheIndex, hindex]
  refine ⟨rfl, ?_⟩
  rw [parsed_update_index]
  funext key
  by_cases hsame : key = record.contentHash
  · rw [hsame, Function.update_self]
    exact parsed_of_file hkey (Function.update_self ..) (hcodec.entry record)
  · rw [parsed_update_entry hsame, Function.update_of_ne hsame]

theorem serves_of_usable (hcodec : codec.Lawful) (h : Usable codec dir) : Serves codec dir where
  lookup := by
    intro key hkey
    obtain ⟨found, hfound, hhash, _⟩ := getCachedEntry_refines h hkey
    exact ⟨found, hfound, hhash⟩
  fill := by
    intro record stamps hkey
    exact (cacheEntry_refines hcodec h hkey stamps).1

theorem lookup_of_unreadable {content : Bytes} {e : String} (hfile : dir (fileOf key) = some content)
    (hread : codec.readEntry content = .error e) :
    ((getCachedEntry codec key).run perform dir).1 = .error e := by
  show (Process.run perform (match dir (fileOf key) with | none => _ | some content => _) dir).1 = _
  rw [hfile]
  dsimp only
  rw [hread]
  rfl

theorem fill_of_unreadable {content : Bytes} {e : String} (hfile : dir indexFile = some content)
    (hread : codec.readIndex content = .error e) {record : CacheRecord}
    (hkey : record.contentHash ≠ "index") (stamps : Stamps) :
    ((cacheEntry codec record stamps).run perform dir).1 = .error e := by
  have hindex : readIndexFile codec stamps.lastUpdated
      (Function.update dir (fileOf record.contentHash) (some (codec.entryText record)) indexFile) =
      .error e := by
    rw [Function.update_of_ne (fileOf_ne_indexFile hkey).symm, hfile]
    exact hread
  rw [run_cacheEntry, run_updateCacheIndex, hindex]

def someRecord : CacheRecord where
  contentHash := ""
  stepName := ""
  result := ⟨"", "", "", 0, 0, false, "", "", none⟩
  inputPaths := []
  outputPaths := []
  command := ""
  environmentHash := ""
  cachedAt := ⊥
  dependencies := []
  metadata := .empty

theorem someRecord_key : someRecord.contentHash ≠ "index" := by decide

theorem usable_of_serves (h : Serves codec dir) : Usable codec dir where
  entries := by
    intro hash content hne hfile
    cases hread : codec.readEntry content with
    | ok record => exact ⟨record, rfl⟩
    | error e =>
      obtain ⟨found, hfound, _⟩ := h.lookup hash hne
      rw [lookup_of_unreadable hfile hread] at hfound
      cases hfound
  index := by
    intro content hfile
    cases hread : codec.readIndex content with
    | ok index => exact ⟨index, rfl⟩
    | error e =>
      have hfill := h.fill someRecord ⟨⊥, ⊥, ⊥⟩ someRecord_key
      rw [fill_of_unreadable hfile hread someRecord_key] at hfill
      cases hfill

theorem serves_iff_usable (hcodec : codec.Lawful) : Serves codec dir ↔ Usable codec dir :=
  ⟨usable_of_serves, serves_of_usable hcodec⟩

end Refinement

/-! ### Histories -/

/-- Nobody is at work. -/
def idle (ι : Type) (dir : CacheDir) :
    Pool ι CacheCall CacheCall.Reply CacheDir (Except String Unit) :=
  ⟨fun _ => .done (.ok ()), dir⟩

section Codec
variable {α : Type}

/-- These values with these texts, and every other with a text of its own. -/
noncomputable def textWith [Countable α] (known : List (α × Bytes)) (a : α) : Bytes :=
  open Classical in
  match known.find? fun entry => decide (entry.1 = a) with
  | some entry => entry.2
  | none => 0x7b :: List.replicate ((exists_injective_nat α).choose a) 0x20

/-- Reads what was written so, and nothing else. -/
noncomputable def readWith (write : α → Bytes) (content : Bytes) : Except String α :=
  open Classical in
  if h : ∃ a, write a = content then .ok h.choose else .error "EOF while parsing a value"

theorem readWith_write {write : α → Bytes} (h : Function.Injective write) (a : α) :
    readWith write (write a) = .ok a := by
  have hex : ∃ b, write b = write a := ⟨a, rfl⟩
  rw [readWith, dif_pos hex]
  exact congrArg Except.ok (h hex.choose_spec)

theorem readWith_of_ne {write : α → Bytes} {content : Bytes} (h : ∀ a, write a ≠ content) :
    readWith write content = .error "EOF while parsing a value" := by
  rw [readWith, dif_neg]
  intro hex
  exact h _ hex.choose_spec

variable [Countable α] {known : List (α × Bytes)}

theorem textWith_of_mem (hnodup : (known.map Prod.fst).Nodup) {a : α} {content : Bytes}
    (h : (a, content) ∈ known) : textWith known a = content := by
  unfold textWith
  split
  next entry hfind =>
    have hkey : entry.1 = a := by simpa using List.find?_some hfind
    have hmem := List.mem_of_find?_eq_some hfind
    exact congrArg Prod.snd (List.inj_on_of_nodup_map hnodup hmem h hkey)
  next hfind =>
    have := List.find?_eq_none.mp hfind _ h
    simp at this

theorem textWith_injective (hnodup : (known.map Prod.snd).Nodup)
    (hhead : ∀ entry ∈ known, entry.2.head? ≠ some 0x7b) : Function.Injective (textWith known) := by
  intro a b h
  unfold textWith at h
  split at h
  next entry hfind =>
    have hkey : entry.1 = a := by simpa using List.find?_some hfind
    have hmem := List.mem_of_find?_eq_some hfind
    split at h
    next other hfind' =>
      have hkey' : other.1 = b := by simpa using List.find?_some hfind'
      have hsame := List.inj_on_of_nodup_map hnodup hmem (List.mem_of_find?_eq_some hfind') h
      rw [← hkey, ← hkey', hsame]
    next =>
      apply absurd _ (hhead entry hmem)
      rw [h]
      rfl
  next =>
    split at h
    next other hfind' =>
      apply absurd _ (hhead other (List.mem_of_find?_eq_some hfind'))
      rw [← h]
      rfl
    next =>
      apply (exists_injective_nat α).choose_spec
      simpa using congrArg List.length (List.tail_eq_of_cons_eq h)

theorem textWith_ne_nil (hknown : ∀ entry ∈ known, entry.2 ≠ []) (a : α) : textWith known a ≠ [] := by
  unfold textWith
  split
  next entry hfind => exact hknown entry (List.mem_of_find?_eq_some hfind)
  next => exact List.cons_ne_nil _ _

end Codec

instance : Countable Char :=
  (show Function.Injective Char.toNat from fun _ _ h => Char.toNat_inj.mp h).countable

instance : Countable String :=
  (show Function.Injective String.toList from fun _ _ h => String.toList_inj.mp h).countable

instance : Countable DateTime :=
  (show Function.Injective fun t : DateTime => (t.secs, t.nanos) by
    intro a b h
    cases a
    cases b
    cases h
    rfl).countable

instance {α : Type} [Countable α] : Countable (SortedMap String α) :=
  (show Function.Injective fun m : SortedMap String α => m.entries from
    fun _ _ h => SortedMap.ext_entries h).countable

instance : Countable UInt64 :=
  (show Function.Injective UInt64.toNat from fun _ _ h => UInt64.toNat_inj.mp h).countable

instance : Countable Int32 :=
  (show Function.Injective Int32.toInt from fun _ _ h => Int32.toInt_inj.mp h).countable

instance : Countable CacheRecord :=
  (show Function.Injective fun r : CacheRecord =>
      ((r.contentHash, r.stepName, r.inputPaths, r.outputPaths, r.command, r.environmentHash,
        r.cachedAt, r.dependencies, r.metadata),
       (r.result.name, r.result.inputHash, r.result.outputHash, r.result.durationSecs,
        r.result.exitCode, r.result.cacheHit, r.result.stdout, r.result.stderr,
        r.result.capsuleHash)) by
    intro a b h
    obtain ⟨⟨_, _, ⟨_, _, _, _, _, _, _, _, _⟩⟩, _, _, _, _, _, _, _⟩ := a
    obtain ⟨⟨_, _, ⟨_, _, _, _, _, _, _, _, _⟩⟩, _, _, _, _, _, _, _⟩ := b
    cases h
    rfl).countable

instance : Countable CacheIndexEntry :=
  (show Function.Injective fun e : CacheIndexEntry =>
      (e.contentHash, e.stepName, e.cachedAt, e.fileSize, e.accessCount, e.lastAccessed) by
    intro a b h
    cases a
    cases b
    cases h
    rfl).countable

instance : Countable CacheIndex :=
  (show Function.Injective fun i : CacheIndex => (i.entries, i.lastUpdated) by
    intro a b h
    cases a
    cases b
    cases h
    rfl).countable

def newYear : DateTime := ⟨1704067200, 0, by decide, DateTime.zero_nanos_lt⟩

def newYearStamps : Stamps := ⟨newYear, newYear, newYear⟩

/-- A step that succeeded, as it is kept. -/
def keptBuild : CacheRecord where
  contentHash := keyOfA
  stepName := "build"
  result := resultOfA
  inputPaths := []
  outputPaths := ["a"]
  command := "true"
  environmentHash := "b9d2b1a2d1619fdca4f1954769fd108c9d170ec09a97ac82b7c2d0681cdd260f"
  cachedAt := newYear
  dependencies := []
  metadata := .empty

def buildYaml : Bytes := utf8
  "content_hash: 6b3a2d1d1cd90a5044ba24d80a8811ba6f631dd67034341c8502421faa2bde49
step_name: build
input_paths: []
output_paths:
- a
command: 'true'
environment_hash: b9d2b1a2d1619fdca4f1954769fd108c9d170ec09a97ac82b7c2d0681cdd260f
result:
  name: build
  input_hash: 5da7d8e2f345944662807c3160ae954d6a6ffb2564f22242004f68fde1532f7f
  output_hash: 040bc95d792186d9183cc33b67f5cf6c5347c91d8477bbc9315bab208fe959d3
  duration_secs: 0
  exit_code: 0
  cache_hit: false
  stdout: ''
  stderr: ''
cached_at: 2024-01-01T00:00:00Z
dependencies: []
metadata: \x7b\x7d
"

/-- The index with this step alone. -/
def buildIndex : CacheIndex :=
  indexed ⟨.empty, newYear⟩ keyOfA "build" buildYaml.length newYearStamps

def buildIndexYaml : Bytes := utf8
  "entries:
  6b3a2d1d1cd90a5044ba24d80a8811ba6f631dd67034341c8502421faa2bde49:
    content_hash: 6b3a2d1d1cd90a5044ba24d80a8811ba6f631dd67034341c8502421faa2bde49
    step_name: build
    cached_at: 2024-01-01T00:00:00Z
    file_size: 551
    access_count: 1
    last_accessed: 2024-01-01T00:00:00Z
last_updated: 2024-01-01T00:00:00Z
"

/-- A codec with these texts for these values. -/
noncomputable def codecOf (records : List (CacheRecord × Bytes)) (indexes : List (CacheIndex × Bytes)) :
    CacheCodec where
  entryText := textWith records
  readEntry := readWith (textWith records)
  indexText := textWith indexes
  readIndex := readWith (textWith indexes)

theorem lawful_codecOf {records : List (CacheRecord × Bytes)} {indexes : List (CacheIndex × Bytes)}
    (hrecords : (records.map Prod.snd).Nodup) (hindexes : (indexes.map Prod.snd).Nodup)
    (hrecord : ∀ entry ∈ records, entry.2.head? ≠ some 0x7b)
    (hindex : ∀ entry ∈ indexes, entry.2.head? ≠ some 0x7b) : (codecOf records indexes).Lawful where
  entry := readWith_write (textWith_injective hrecords hrecord)
  index := readWith_write (textWith_injective hindexes hindex)

noncomputable def buildCodec : CacheCodec :=
  codecOf [(keptBuild, buildYaml)] [(buildIndex, buildIndexYaml)]

theorem yaml_heads : buildYaml.head? = some 0x63 ∧ buildIndexYaml.head? = some 0x65 ∧
    buildYaml.length = 551 := by
  rw [buildYaml, buildIndexYaml, Trust.utf8_ofList, Trust.utf8_ofList]
  decide +kernel

theorem lawful_buildCodec : buildCodec.Lawful := by
  apply lawful_codecOf
  · exact List.nodup_singleton _
  · exact List.nodup_singleton _
  · intro entry hentry
    cases List.mem_singleton.mp hentry
    rw [yaml_heads.1]
    decide
  · intro entry hentry
    cases List.mem_singleton.mp hentry
    rw [yaml_heads.2.1]
    decide

theorem serves_empty : Serves buildCodec fun _ => none :=
  serves_of_usable lawful_buildCodec
    ⟨fun _ _ _ h => absurd h (Option.some_ne_none _).symm,
      fun _ h => absurd h (Option.some_ne_none _).symm⟩

theorem keyOfA_ne_index : keptBuild.contentHash ≠ "index" := by decide

end CacheDir

end Attest.Executor
