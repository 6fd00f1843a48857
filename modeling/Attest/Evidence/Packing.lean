import Attest.Evidence.Verification
import Attest.Executor.Causal

/-! Packing release evidence, as `evidence.rs` and `evidence/proofs.rs` do.

The sender collects files under the names the recipient will look for: the capsules by their
hashes, the events of the ledger without what nothing authenticates, the record of the log, the
artifacts, the receipt, and a manifest that names the format. The recipient works out the same
names from the signed receipt. This says what is in the files once they are packed. -/
namespace Attest.Evidence
open Library Library.Fallible Storage Verify Archive Hashing
open Executor (cleared genuine_cleared chainHash_cleared ReadsBack)
open Trust (Bytes Crates DateTime utf8)

/-- Half of `ArchiveLimits::default().decompressed`. -/
def payloadLimit : Nat := 512 * 1024 * 1024 / 2

/-- `ArchiveLimits::default().entries`. -/
def entriesLimit : Nat := 10000

/-- What packing calls and this model leaves open, with the archive a file holds. -/
structure Packer (IdentityPolicy Archive : Type) where
  evidence : EvidenceBackend IdentityPolicy
  /-- `serde_json::to_vec::<CausalEvent>`. -/
  toVec : CausalEvent → Bytes
  /-- `serde_json::to_vec::<Manifest>`, of the format. -/
  manifestBytes : String → Bytes
  writeArchive : List ArchiveEntry → Except EvidenceError Archive
  readArchive : Archive → Except EvidenceError (List ArchiveEntry)

/-- What `pack_with_publication` is given. -/
structure Parcel where
  receiptPath : Path
  workspace : Path
  identityBundle : Option Path
  capsules : List Path
  publication : Option Path
  comparison : Option Path

/-- `BTreeMap<String, Vec<u8>>`. -/
abbrev FileMap := SortedMap String Bytes

def payload (files : FileMap) : Nat := (files.entries.map fun entry => entry.2.length).sum

section Pack
variable {IdentityPolicy Archive : Type} (p : Packer IdentityPolicy Archive) (fs : FileSystem)

/-- `verify::read_bounded`. -/
def readBounded (path : Path) (limit : Nat) : Except EvidenceError Bytes :=
  match readFile fs path with
  | .error source => .error (.io "" source)
  | .ok bytes =>
    if limit < bytes.length then .error (.tooLarge path bytes.length limit) else .ok bytes

/-! ### Collecting proofs -/

/-- What `collect` asks of the bytes of a capsule: the hash they are filed under. -/
def capsuleHashOf (bytes : Bytes) : Except EvidenceError String := do
  let manifest ← (capsule p.evidence.capsules bytes).mapError .message
  manifest.validate.mapError .message
  let hash ← (manifest.computeHash p.evidence.verify.crates p.evidence.capsules).mapError .message
  refuseIf (manifest.capsuleHash ≠ some hash)
    (.message "capsule's stored hash differs from its content")
  return hash

def collectCapsule (expected : List String) (files : FileMap) (path : Path) :
    Except EvidenceError FileMap := do
  let bytes ← readBounded fs path entryLimit
  let hash ← capsuleHashOf p bytes
  refuseIf (hash ∉ expected) (.message "capsule is not referenced by this receipt")
  refuseIf (files.lookup (capsulePath hash) ≠ none) (.message "duplicate capsule proof")
  refuseIf (payloadLimit < payload (files.insert (capsulePath hash) bytes))
    (.message "proof payload exceeds 256 MiB")
  return files.insert (capsulePath hash) bytes

/-- The file of an event, as the reader of artifacts takes it. -/
def ledgerFile (id : String) : ArtifactInfo where
  step := ""
  path := ".attest/causal_ledger/events/" ++ id ++ ".json"
  kind := "file"
  digest := ""
  algorithm := "blake3"

/-- The event of an id in the ledger of a workspace; a file that is not there is no error. -/
def ledgerEvent (workspace : Path) (id : String) : Except EvidenceError (Option CausalEvent) :=
  match artifactBytes fs workspace (ledgerFile id) with
  | .ok bytes => ((event p.evidence.events bytes).mapError .message).map some
  | .error (.io _ .notFound) => .ok none
  | .error e => .error e

/-- The files with the event of an id, without its metadata. -/
def putEvent (files : FileMap) (id : String) : Option CausalEvent → FileMap
  | none => files
  | some event => files.insert (eventPath id) (p.toVec (cleared event))

def collectEvent (workspace : Path) (files : FileMap) (id : String) :
    Except EvidenceError FileMap := do
  (digest id).mapError .message
  let event ← ledgerEvent p fs workspace id
  refuseIf (payloadLimit < payload (putEvent p files id event))
    (.message "proof payload exceeds 256 MiB")
  return putEvent p files id event

def collect (receipt : Receipt) (workspace : Path) (capsules : List Path) :
    Except EvidenceError FileMap := do
  let expected ← (capsuleHashes receipt).mapError .message
  let files ← capsules.foldlM (collectCapsule p fs expected) .empty
  let files ← receipt.causalEvents.foldlM (collectEvent p fs workspace) files
  let _ ← (paths receipt).mapError .message
  return files

/-! ### Packing -/

/-- The receipt that is packed: of a schema that is known, and signed. -/
def packReceipt (bytes : Bytes) : Except EvidenceError Receipt := do
  let receipt ← (readReceipt p.evidence.verify bytes).mapError fun e => .message ("invalid receipt: " ++ e)
  refuseIf (receiptSchemaVersion.toNat < (receipt.schemaVersion.getD 1).toNat)
    (.message "unsupported receipt schema")
  match receipt.signerPublicKey, receipt.signature with
  | some key, some signature => do
    let text ← (receiptSigningBytes p.evidence.verify.receiptJson receipt).mapError .message
    let holds ← (verifyWithPublicKey p.evidence.verify.crates key (utf8 text) signature).mapError .message
    refuseIf (holds = false) (.message "invalid receipt signature")
    inventory p.evidence.verify.crates receipt
    return receipt
  | _, _ => .error (.message "evidence needs a signed receipt")

/-- The record of the log, opened to the receipt's root. -/
def packRecord (receipt : Receipt) (path : Path) : Except EvidenceError Bytes := do
  let bytes ← readBounded fs path Publication.Record.maxRecordBytes
  let record ← (Publication.Record.decodeRecord p.evidence.records bytes).mapError .message
  match receipt.causalChainHash with
  | none => .error (.message "receipt has no causal root")
  | some root => do
    let _ ← (record.entryBytes p.evidence.suite root).mapError .message
    return bytes

def packComparison (path : Path) : Except EvidenceError Bytes := do
  let bytes ← readBounded fs path Publication.Record.maxComparisonBytes
  let parsed ← (Publication.Record.decodeComparison p.evidence.records bytes).mapError .message
  refuseIf (parsed.format ≠ Publication.Record.comparisonFormat)
    (.message "unsupported checkpoint comparison format")
  return bytes

/-- The files with one more, where there is one. -/
def putFile (files : FileMap) (path : String) : Option Bytes → FileMap
  | none => files
  | some bytes => files.insert path bytes

/-- A file that may be given, read. -/
def readGiven (read : Path → Except EvidenceError Bytes) : Option Path →
    Except EvidenceError (Option Bytes)
  | none => .ok none
  | some path => (read path).map some

/-- One artifact into the files, with the size of what they hold. -/
def packArtifact (workspace : Path) (files : FileMap × Nat) (artifact : ArtifactInfo) :
    Except EvidenceError (FileMap × Nat) := do
  let bytes ← artifactBytes fs workspace artifact
  checkDigest p.evidence.verify.crates artifact bytes
  match files.1.lookup (artifactPath artifact) with
  | some previous => do
    refuseIf (previous ≠ bytes) (.message ("steps disagree on artifact " ++ artifact.path))
    return files
  | none => do
    refuseIf (payloadLimit < files.2 + bytes.length) (.message "evidence payload exceeds 256 MiB")
    return (files.1.insert (artifactPath artifact) bytes, files.2 + bytes.length)

/-- The format that says whether there is a record of the log. -/
def formatOf (publication : Option Path) : String :=
  if publication.isSome then evidencePublicationFormat else evidenceFormat

/-- The files of a parcel. -/
def packFiles (parcel : Parcel) : Except EvidenceError FileMap := do
  refuseIf (parcel.comparison ≠ none ∧ parcel.publication = none)
    (.message "checkpoint comparison needs publication evidence")
  let bytes ← readBounded fs parcel.receiptPath maxReceiptBytes
  let receipt ← packReceipt p bytes
  let proofs ← collect p fs receipt parcel.workspace parcel.capsules
  let record ← readGiven (packRecord p fs receipt) parcel.publication
  let comparison ← readGiven (packComparison p fs) parcel.comparison
  let files := putFile (putFile proofs "publication.json" record) "log-consistency.json" comparison
  let listed ← artifacts receipt
  let (files, _) ← listed.foldlM (packArtifact p fs parcel.workspace)
    (files, bytes.length + payload files)
  let files := (files.insert "receipt.yaml" bytes).insert "manifest.json"
    (p.manifestBytes (formatOf parcel.publication))
  let identity ← readGiven (fun path => readBounded fs path maxIdentityBytes) parcel.identityBundle
  let files := putFile files "identity.sigstore.json" identity
  refuseIf (entriesLimit < files.entries.length) (.message "too many evidence entries")
  return files

def entriesOf (files : FileMap) : List ArchiveEntry :=
  files.entries.map fun entry => ⟨entry.1, entry.2⟩

/-- `pack_with_publication`: what is staged is read once before it is kept. -/
def packWithPublication (parcel : Parcel) : Except EvidenceError Archive := do
  let files ← packFiles p fs parcel
  let archive ← p.writeArchive (entriesOf files)
  let _ ← p.readArchive archive
  return archive

/-- `verify_with_policy_and_log`, from the archive on. -/
def verifyArchive (r : Recipient IdentityPolicy) (archive : Archive) (trust : Files)
    (workspace : String) (now : DateTime) (label : String) : Except String ReceiptVerdict := do
  let entries ← (p.readArchive archive).mapError p.evidence.render
  verifyWithPolicyAndLog p.evidence fs r entries trust workspace now label

end Pack

/-! ### Names -/

/-- What stands before the first slash of a path: the folder, or the name of a file without one. -/
def folderOf (path : String) : List Char := path.toList.takeWhile fun c => c != '/'

@[simp] theorem folderOf_capsulePath (hash : String) : folderOf (capsulePath hash) = "capsules".toList := by
  simp [folderOf, capsulePath]

@[simp] theorem folderOf_eventPath (id : String) : folderOf (eventPath id) = "events".toList := by
  simp [folderOf, eventPath]

@[simp] theorem folderOf_artifactPath (artifact : ArtifactInfo) :
    folderOf (artifactPath artifact) = "artifacts".toList := by
  simp [folderOf, artifactPath]

theorem ne_of_folderOf {path path' : String} (h : folderOf path ≠ folderOf path') : path ≠ path' :=
  fun heq => h (congrArg folderOf heq)

theorem entryBytes_entriesOf (files : FileMap) (path : String) :
    entryBytes (entriesOf files) path = files.lookup path := by
  unfold entryBytes entriesOf SortedMap.lookup
  rw [List.find?_map, Option.map_map]
  rfl

theorem lookup_putFile {files : FileMap} {path other : String} {given : Option Bytes} :
    (putFile files path given).lookup other =
      if other = path then given <|> files.lookup other else files.lookup other := by
  cases given with
  | none => simp [putFile]
  | some bytes => simp [putFile, SortedMap.lookup_insert]

/-! ### What is collected -/

section Collect
variable {IdentityPolicy Archive : Type} {p : Packer IdentityPolicy Archive} {fs : FileSystem}
  {files files' : FileMap} {workspace : Path} {receipt : Receipt} {expected ids : List String}
  {capsules : List Path} {listed : List ArtifactInfo}

theorem readBounded_eq_ok {path : Path} {limit : Nat} {bytes : Bytes}
    (h : readBounded fs path limit = .ok bytes) :
    readFile fs path = .ok bytes ∧ bytes.length ≤ limit := by
  unfold readBounded at h
  split at h
  next => cases h
  next found hread =>
    split at h
    next => cases h
    next hsize =>
      cases h
      exact ⟨hread, Nat.le_of_not_lt hsize⟩

/-- The hash that a capsule is filed under is the one the recipient holds it to. -/
theorem examineCapsule_of_hash {bytes : Bytes} {hash : String} (h : capsuleHashOf p bytes = .ok hash) :
    examineCapsule p.evidence.verify.crates p.evidence.capsules hash bytes = .ok () := by
  obtain ⟨manifest, hmanifest, h⟩ := except_bind_eq_ok.mp h
  obtain ⟨_, hvalid, h⟩ := except_bind_eq_ok.mp h
  obtain ⟨computed, hcomputed, h⟩ := except_bind_eq_ok.mp h
  obtain ⟨_, hstored, h⟩ := except_bind_eq_ok.mp h
  cases h
  refine except_bind_eq_ok.mpr ⟨manifest, mapError_eq_ok.mp hmanifest, ?_⟩
  refine except_bind_eq_ok.mpr ⟨(), mapError_eq_ok.mp hvalid, ?_⟩
  refine except_bind_eq_ok.mpr ⟨hash, mapError_eq_ok.mp hcomputed, ?_⟩
  exact refuseIf_eq_ok.mpr (not_not.mpr ⟨rfl, not_not.mp (refuseIf_eq_ok.mp hstored)⟩)

/-- The files with the capsules: nothing that was there changes, what is new is a capsule under
its hash, and every capsule that was given is there. -/
structure WithCapsules (p : Packer IdentityPolicy Archive) (fs : FileSystem) (expected : List String)
    (capsules : List Path) (files files' : FileMap) : Prop where
  kept : ∀ path bytes, files.lookup path = some bytes → files'.lookup path = some bytes
  added : ∀ path bytes, files'.lookup path = some bytes → files.lookup path = some bytes ∨
    ∃ hash ∈ expected, path = capsulePath hash ∧ capsuleHashOf p bytes = .ok hash
  given : ∀ source ∈ capsules, ∃ bytes hash, readBounded fs source entryLimit = .ok bytes ∧
    capsuleHashOf p bytes = .ok hash ∧ files'.lookup (capsulePath hash) = some bytes

theorem collectCapsule_eq_ok {source : Path} (h : collectCapsule p fs expected files source = .ok files') :
    ∃ bytes hash, readBounded fs source entryLimit = .ok bytes ∧ capsuleHashOf p bytes = .ok hash ∧
      hash ∈ expected ∧ files.lookup (capsulePath hash) = none ∧
      files' = files.insert (capsulePath hash) bytes := by
  obtain ⟨bytes, hbytes, h⟩ := except_bind_eq_ok.mp h
  obtain ⟨hash, hhash, h⟩ := except_bind_eq_ok.mp h
  obtain ⟨_, hexpected, h⟩ := except_bind_eq_ok.mp h
  obtain ⟨_, hnew, h⟩ := except_bind_eq_ok.mp h
  obtain ⟨_, _, h⟩ := except_bind_eq_ok.mp h
  exact ⟨bytes, hash, hbytes, hhash, not_not.mp (refuseIf_eq_ok.mp hexpected),
    not_not.mp (refuseIf_eq_ok.mp hnew), (Except.ok.inj h).symm⟩

theorem withCapsules_of_foldlM
    (h : capsules.foldlM (collectCapsule p fs expected) files = .ok files') :
    WithCapsules p fs expected capsules files files' := by
  induction capsules generalizing files with
  | nil =>
    cases h
    refine ⟨fun _ _ hfile => hfile, fun _ _ hfile => .inl hfile, ?_⟩
    intro source hsource
    cases hsource
  | cons source rest ih =>
    rw [List.foldlM_cons] at h
    obtain ⟨after, hafter, h⟩ := except_bind_eq_ok.mp h
    obtain ⟨bytes, hash, hbytes, hhash, hexpected, hnew, rfl⟩ := collectCapsule_eq_ok hafter
    have hrest := ih h
    constructor
    · intro path found hfound
      apply hrest.kept
      rw [SortedMap.lookup_insert, if_neg, hfound]
      intro heq
      rw [heq, hnew] at hfound
      cases hfound
    · intro path found hfound
      rcases hrest.added path found hfound with hfound | hfound
      · rw [SortedMap.lookup_insert] at hfound
        split at hfound
        next hpath =>
          cases hfound
          exact .inr ⟨hash, hexpected, hpath, hhash⟩
        next => exact .inl hfound
      · exact .inr hfound
    · intro other hother
      rcases List.mem_cons.mp hother with rfl | hother
      · refine ⟨bytes, hash, hbytes, hhash, hrest.kept _ _ ?_⟩
        rw [SortedMap.lookup_insert, if_pos rfl]
      · exact hrest.given other hother

/-- The record that is made of the event of an id, where the ledger has one. -/
def ledgerRecord (p : Packer IdentityPolicy Archive) (fs : FileSystem) (workspace : Path) (id : String) :
    Option Bytes :=
  match ledgerEvent p fs workspace id with
  | .ok (some event) => some (p.toVec (cleared event))
  | _ => none

theorem ledgerRecord_of_event {id : String} {event : Option CausalEvent}
    (h : ledgerEvent p fs workspace id = .ok event) :
    ledgerRecord p fs workspace id = event.map fun event => p.toVec (cleared event) := by
  delta ledgerRecord
  rw [h]
  cases event with
  | none => rfl
  | some event => rfl

theorem event_of_ledgerRecord {id : String} {bytes : Bytes}
    (h : ledgerRecord p fs workspace id = some bytes) :
    ∃ event, ledgerEvent p fs workspace id = .ok (some event) ∧ p.toVec (cleared event) = bytes := by
  cases hevent : ledgerEvent p fs workspace id with
  | error e =>
    delta ledgerRecord at h
    rw [hevent] at h
    cases h
  | ok event =>
    rw [ledgerRecord_of_event hevent] at h
    obtain ⟨event, rfl, hbytes⟩ := Option.map_eq_some_iff.mp h
    exact ⟨event, rfl, hbytes⟩

theorem collectEvent_eq_ok {id : String} (h : collectEvent p fs workspace files id = .ok files') :
    (∃ event, ledgerEvent p fs workspace id = .ok event) ∧
      files' = putFile files (eventPath id) (ledgerRecord p fs workspace id) := by
  obtain ⟨_, _, h⟩ := except_bind_eq_ok.mp h
  obtain ⟨event, hevent, h⟩ := except_bind_eq_ok.mp h
  obtain ⟨_, _, h⟩ := except_bind_eq_ok.mp h
  refine ⟨⟨event, hevent⟩, ?_⟩
  rw [← Except.ok.inj h, ledgerRecord_of_event hevent]
  cases event with
  | none => rfl
  | some event => rfl

/-- The files with the events: each listed one under its id, and nothing else. -/
structure WithEvents (p : Packer IdentityPolicy Archive) (fs : FileSystem) (workspace : Path)
    (ids : List String) (files files' : FileMap) : Prop where
  read : ∀ id ∈ ids, ∃ event, ledgerEvent p fs workspace id = .ok event
  listed : ∀ id ∈ ids, files'.lookup (eventPath id) =
    (ledgerRecord p fs workspace id <|> files.lookup (eventPath id))
  others : ∀ path, (∀ id ∈ ids, path ≠ eventPath id) → files'.lookup path = files.lookup path

theorem withEvents_of_foldlM
    (h : ids.foldlM (collectEvent p fs workspace) files = .ok files') :
    WithEvents p fs workspace ids files files' := by
  induction ids generalizing files with
  | nil =>
    cases h
    refine ⟨?_, ?_, fun _ _ => rfl⟩
    · intro id hid
      cases hid
    · intro id hid
      cases hid
  | cons id rest ih =>
    rw [List.foldlM_cons] at h
    obtain ⟨after, hafter, h⟩ := except_bind_eq_ok.mp h
    obtain ⟨hevent, rfl⟩ := collectEvent_eq_ok hafter
    have hrest := ih h
    constructor
    · exact List.forall_mem_cons.mpr ⟨hevent, hrest.read⟩
    · intro other hother
      by_cases hmem : other ∈ rest
      · -- Listed again: the same record comes once more.
        rw [hrest.listed other hmem, lookup_putFile]
        split
        next heq =>
          rw [eventPath_injective heq]
          cases ledgerRecord p fs workspace id with
          | none => rfl
          | some record => rfl
        next => rfl
      · obtain rfl : other = id := (List.mem_cons.mp hother).resolve_right hmem
        rw [hrest.others, lookup_putFile, if_pos rfl]
        intro id' hid' heq
        exact hmem (eventPath_injective heq ▸ hid')
    · intro path hpath
      rw [hrest.others path fun other hother => hpath other (List.mem_cons_of_mem _ hother),
        lookup_putFile, if_neg (hpath id List.mem_cons_self)]

theorem capsulePath_injective : Function.Injective capsulePath := by
  intro hash hash' h
  have hlist := congrArg String.toList h
  simp only [capsulePath, String.toList_append] at hlist
  exact String.toList_inj.mp (List.append_cancel_left (List.append_cancel_right hlist))

/-- The proofs of a receipt that were collected. -/
structure Collected (p : Packer IdentityPolicy Archive) (fs : FileSystem) (receipt : Receipt)
    (workspace : Path) (capsules : List Path) (files : FileMap) : Prop where
  proofs : ∃ proofs, paths receipt = .ok proofs
  hash : ∀ hash bytes, files.lookup (capsulePath hash) = some bytes → capsuleHashOf p bytes = .ok hash
  given : ∀ source ∈ capsules, ∃ bytes hash, readBounded fs source entryLimit = .ok bytes ∧
    capsuleHashOf p bytes = .ok hash ∧ files.lookup (capsulePath hash) = some bytes
  read : ∀ id ∈ receipt.causalEvents, ∃ event, ledgerEvent p fs workspace id = .ok event
  event : ∀ id ∈ receipt.causalEvents, files.lookup (eventPath id) = ledgerRecord p fs workspace id
  accounted : ∀ path bytes, files.lookup path = some bytes →
    (∃ step ∈ receipt.steps, ∃ hash, step.capsuleHash = some hash ∧ path = capsulePath hash) ∨
      ∃ id ∈ receipt.causalEvents, path = eventPath id

theorem collect_eq_ok (h : collect p fs receipt workspace capsules = .ok files) :
    Collected p fs receipt workspace capsules files := by
  obtain ⟨expected, hexpected, h⟩ := except_bind_eq_ok.mp h
  obtain ⟨found, hfound, h⟩ := except_bind_eq_ok.mp h
  obtain ⟨after, hafter, h⟩ := except_bind_eq_ok.mp h
  obtain ⟨proofs, hproofs, h⟩ := except_bind_eq_ok.mp h
  cases h
  have hcapsules := withCapsules_of_foldlM hfound
  have hevents := withEvents_of_foldlM hafter
  have hnew : ∀ path bytes, found.lookup path = some bytes →
      ∃ hash ∈ expected, path = capsulePath hash ∧ capsuleHashOf p bytes = .ok hash := by
    intro path bytes hpath
    rcases hcapsules.added path bytes hpath with hnone | hcapsule
    · rw [SortedMap.lookup_empty] at hnone
      cases hnone
    · exact hcapsule
  have hcapsule : ∀ hash, files.lookup (capsulePath hash) = found.lookup (capsulePath hash) := by
    intro hash
    exact hevents.others _ fun id _ => capsulePath_ne_eventPath hash id
  constructor
  · exact ⟨proofs, mapError_eq_ok.mp hproofs⟩
  · intro hash bytes hbytes
    rw [hcapsule] at hbytes
    obtain ⟨hash', _, hpath, hhash⟩ := hnew _ _ hbytes
    rw [capsulePath_injective hpath]
    exact hhash
  · intro source hsource
    obtain ⟨bytes, hash, hbytes, hhash, hfile⟩ := hcapsules.given source hsource
    exact ⟨bytes, hash, hbytes, hhash, (hcapsule hash).trans hfile⟩
  · exact hevents.read
  · intro id hid
    have hnone : found.lookup (eventPath id) = none := by
      rw [Option.eq_none_iff_forall_ne_some]
      intro bytes hbytes
      obtain ⟨hash, _, hpath, _⟩ := hnew _ _ hbytes
      exact capsulePath_ne_eventPath hash id hpath.symm
    rw [hevents.listed id hid, hnone]
    cases ledgerRecord p fs workspace id with
    | none => rfl
    | some record => rfl
  · intro path bytes hbytes
    by_cases hlisted : ∃ id ∈ receipt.causalEvents, path = eventPath id
    · exact .inr hlisted
    · left
      rw [hevents.others path] at hbytes
      · obtain ⟨hash, hhash, hpath, _⟩ := hnew path bytes hbytes
        obtain ⟨step, hstep, hsome⟩ :=
          ((capsuleHashes_eq_ok (mapError_eq_ok.mp hexpected)).1 hash).mp hhash
        exact ⟨step, hstep, hash, hsome, hpath⟩
      · intro id hid hpath
        exact hlisted ⟨id, hid, hpath⟩

/-! ### What is packed -/

/-- The files with the artifacts: nothing that was there changes, each artifact is there with its
digest, and nothing else is. -/
structure WithArtifacts (p : Packer IdentityPolicy Archive) (fs : FileSystem) (workspace : Path)
    (listed : List ArtifactInfo) (files files' : FileMap) : Prop where
  kept : ∀ path bytes, files.lookup path = some bytes → files'.lookup path = some bytes
  there : ∀ artifact ∈ listed, ∃ bytes, artifactBytes fs workspace artifact = .ok bytes ∧
    checkDigest p.evidence.verify.crates artifact bytes = .ok () ∧
    files'.lookup (artifactPath artifact) = some bytes
  others : ∀ path, (∀ artifact ∈ listed, path ≠ artifactPath artifact) →
    files'.lookup path = files.lookup path

theorem packArtifact_eq_ok {artifact : ArtifactInfo} {size size' : Nat}
    (h : packArtifact p fs workspace (files, size) artifact = .ok (files', size')) :
    ∃ bytes, artifactBytes fs workspace artifact = .ok bytes ∧
      checkDigest p.evidence.verify.crates artifact bytes = .ok () ∧
      (files.lookup (artifactPath artifact) = some bytes ∧ files' = files ∨
        files.lookup (artifactPath artifact) = none ∧
          files' = files.insert (artifactPath artifact) bytes) := by
  obtain ⟨bytes, hbytes, h⟩ := except_bind_eq_ok.mp h
  obtain ⟨_, hdigest, h⟩ := except_bind_eq_ok.mp h
  refine ⟨bytes, hbytes, hdigest, ?_⟩
  split at h
  next previous hprevious =>
    obtain ⟨_, hsame, hkept⟩ := except_bind_eq_ok.mp h
    have hsame : previous = bytes := not_not.mp (refuseIf_eq_ok.mp hsame)
    exact .inl ⟨hsame ▸ hprevious, (Prod.mk.inj (Except.ok.inj hkept)).1.symm⟩
  next hnone =>
    obtain ⟨_, _, h⟩ := except_bind_eq_ok.mp h
    exact .inr ⟨hnone, (Prod.mk.inj (Except.ok.inj h)).1.symm⟩

theorem withArtifacts_of_foldlM {size size' : Nat}
    (h : listed.foldlM (packArtifact p fs workspace) (files, size) = .ok (files', size')) :
    WithArtifacts p fs workspace listed files files' := by
  induction listed generalizing files size with
  | nil =>
    cases h
    refine ⟨fun _ _ hfile => hfile, ?_, fun _ _ => rfl⟩
    intro artifact hartifact
    cases hartifact
  | cons artifact rest ih =>
    rw [List.foldlM_cons] at h
    obtain ⟨⟨after, grown⟩, hafter, h⟩ := except_bind_eq_ok.mp h
    obtain ⟨bytes, hbytes, hdigest, hcases⟩ := packArtifact_eq_ok hafter
    have hrest := ih h
    have hthere : after.lookup (artifactPath artifact) = some bytes := by
      rcases hcases with ⟨hsame, rfl⟩ | ⟨_, rfl⟩
      · exact hsame
      · rw [SortedMap.lookup_insert, if_pos rfl]
    have hother : ∀ path, path ≠ artifactPath artifact → after.lookup path = files.lookup path := by
      intro path hpath
      rcases hcases with ⟨_, rfl⟩ | ⟨_, rfl⟩
      · rfl
      · rw [SortedMap.lookup_insert, if_neg hpath]
    constructor
    · intro path found hfound
      apply hrest.kept
      by_cases hpath : path = artifactPath artifact
      · rw [hpath] at hfound ⊢
        rcases hcases with ⟨_, rfl⟩ | ⟨hnone, _⟩
        · exact hfound
        · rw [hnone] at hfound
          cases hfound
      · rw [hother path hpath, hfound]
    · exact List.forall_mem_cons.mpr
        ⟨⟨bytes, hbytes, hdigest, hrest.kept _ _ hthere⟩, hrest.there⟩
    · intro path hpath
      rw [hrest.others path fun other hmem => hpath other (List.mem_cons_of_mem _ hmem),
        hother path (hpath artifact List.mem_cons_self)]

/-- What a parcel holds, read. -/
structure Contents where
  receiptBytes : Bytes
  receipt : Receipt
  record : Option Bytes
  comparison : Option Bytes
  identity : Option Bytes
  proofs : FileMap

/-- What is read of a parcel before it is packed. -/
structure ReadsParcel (p : Packer IdentityPolicy Archive) (fs : FileSystem) (parcel : Parcel)
    (contents : Contents) : Prop where
  receiptBytes : readBounded fs parcel.receiptPath maxReceiptBytes = .ok contents.receiptBytes
  receipt : packReceipt p contents.receiptBytes = .ok contents.receipt
  record : readGiven (packRecord p fs contents.receipt) parcel.publication = .ok contents.record
  comparison : readGiven (packComparison p fs) parcel.comparison = .ok contents.comparison
  identity : readGiven (fun path => readBounded fs path maxIdentityBytes) parcel.identityBundle =
    .ok contents.identity
  proofs : Collected p fs contents.receipt parcel.workspace parcel.capsules contents.proofs
  compared : parcel.comparison ≠ none → parcel.publication ≠ none

/-- The files of a parcel: what was read, under its names. -/
structure Filed (p : Packer IdentityPolicy Archive) (fs : FileSystem) (parcel : Parcel)
    (contents : Contents) (listed : List ArtifactInfo) (files : FileMap) : Prop where
  receipt : files.lookup "receipt.yaml" = some contents.receiptBytes
  manifest : files.lookup "manifest.json" = some (p.manifestBytes (formatOf parcel.publication))
  record : files.lookup "publication.json" = contents.record
  comparison : files.lookup "log-consistency.json" = contents.comparison
  identity : files.lookup "identity.sigstore.json" = contents.identity
  capsule : ∀ hash, files.lookup (capsulePath hash) = contents.proofs.lookup (capsulePath hash)
  event : ∀ id, files.lookup (eventPath id) = contents.proofs.lookup (eventPath id)
  artifact : ∀ artifact ∈ listed, ∃ bytes, artifactBytes fs parcel.workspace artifact = .ok bytes ∧
    checkDigest p.evidence.verify.crates artifact bytes = .ok () ∧
    files.lookup (artifactPath artifact) = some bytes
  accounted : ∀ path bytes, files.lookup path = some bytes → path ∈ metadataNames ∨
    (∃ bytes, contents.proofs.lookup path = some bytes) ∨
    ∃ artifact ∈ listed, path = artifactPath artifact

/-- No metadata is in a folder. -/
theorem folderOf_metadata : ∀ name ∈ metadataNames, folderOf name ≠ "capsules".toList ∧
    folderOf name ≠ "events".toList ∧ folderOf name ≠ "artifacts".toList := by
  decide +kernel

theorem metadataNames_nodup : metadataNames.Nodup := by
  decide +kernel

/-- The files once the artifacts are in, with the receipt, the manifest and the identity. -/
def sealed (files : FileMap) (receiptBytes manifest : Bytes) (identity : Option Bytes) : FileMap :=
  putFile ((files.insert "receipt.yaml" receiptBytes).insert "manifest.json" manifest)
    "identity.sigstore.json" identity

theorem lookup_sealed {receiptBytes manifest : Bytes} {identity : Option Bytes} {path : String}
    (h : path ∉ ["receipt.yaml", "manifest.json", "identity.sigstore.json"]) :
    (sealed files receiptBytes manifest identity).lookup path = files.lookup path := by
  simp only [List.mem_cons, List.not_mem_nil, or_false, not_or] at h
  rw [sealed, lookup_putFile, if_neg h.2.2, SortedMap.lookup_insert, if_neg h.2.1,
    SortedMap.lookup_insert, if_neg h.1]

theorem filed_of_stages {parcel : Parcel} {contents : Contents} {manifest : Bytes}
    (hproofs : Collected p fs contents.receipt workspace capsules contents.proofs)
    (hworkspace : parcel.workspace = workspace)
    (hmanifest : manifest = p.manifestBytes (formatOf parcel.publication))
    (h : WithArtifacts p fs workspace listed (putFile (putFile contents.proofs "publication.json"
      contents.record) "log-consistency.json" contents.comparison) files) :
    Filed p fs parcel contents listed
      (sealed files contents.receiptBytes manifest contents.identity) := by
  subst hworkspace hmanifest
  -- Metadata is neither among the proofs nor among the artifacts.
  have hname : ∀ name ∈ metadataNames, contents.proofs.lookup name = none ∧
      ∀ artifact ∈ listed, name ≠ artifactPath artifact := by
    intro name hname
    obtain ⟨hcapsule, hevent, hartifact⟩ := folderOf_metadata name hname
    constructor
    · rw [Option.eq_none_iff_forall_ne_some]
      intro bytes hbytes
      rcases hproofs.accounted name bytes hbytes with ⟨_, _, hash, _, rfl⟩ | ⟨id, _, rfl⟩
      · exact hcapsule (folderOf_capsulePath hash)
      · exact hevent (folderOf_eventPath id)
    · intro artifact _ heq
      rw [heq] at hartifact
      exact hartifact (folderOf_artifactPath artifact)
  have hstage : ∀ path, (∀ artifact ∈ listed, path ≠ artifactPath artifact) →
      files.lookup path = if path = "log-consistency.json" then
        contents.comparison <|> contents.proofs.lookup path
      else if path = "publication.json" then contents.record <|> contents.proofs.lookup path
      else contents.proofs.lookup path := by
    intro path hpath
    rw [h.others path hpath, lookup_putFile, lookup_putFile]
    split
    next heq =>
      rw [if_neg]
      rw [heq]
      decide
    next => rfl
  have hmetadata : ∀ name ∈ metadataNames, files.lookup name =
      if name = "log-consistency.json" then contents.comparison
      else if name = "publication.json" then contents.record else none := by
    intro name hmem
    obtain ⟨hnone, hartifact⟩ := hname name hmem
    rw [hstage name hartifact, hnone]
    simp
  have hproof : ∀ path, folderOf path = "capsules".toList ∨ folderOf path = "events".toList →
      (sealed files contents.receiptBytes (p.manifestBytes (formatOf parcel.publication))
        contents.identity).lookup path = contents.proofs.lookup path := by
    intro path hfolder
    have hfolder' : folderOf path ≠ "artifacts".toList := by
      rcases hfolder with h | h
      · rw [h]
        decide
      · rw [h]
        decide
    have hmeta : path ∉ metadataNames := by
      intro hmem
      obtain ⟨hcapsule, hevent, _⟩ := folderOf_metadata path hmem
      exact hfolder.elim hcapsule hevent
    have hnames : path ≠ "manifest.json" ∧ path ≠ "receipt.yaml" ∧ path ≠ "publication.json" ∧
        path ≠ "log-consistency.json" ∧ path ≠ "identity.sigstore.json" := by
      simpa [metadataNames] using hmeta
    rw [lookup_sealed (by simp [hnames]), hstage path, if_neg hnames.2.2.2.1, if_neg hnames.2.2.1]
    intro artifact _ heq
    rw [heq] at hfolder'
    exact hfolder' (folderOf_artifactPath artifact)
  constructor
  · rw [sealed, lookup_putFile, if_neg (by decide), SortedMap.lookup_insert, if_neg (by decide),
      SortedMap.lookup_insert, if_pos rfl]
  · rw [sealed, lookup_putFile, if_neg (by decide), SortedMap.lookup_insert, if_pos rfl]
  · rw [lookup_sealed (by decide), hmetadata _ (by decide), if_neg (by decide), if_pos rfl]
  · rw [lookup_sealed (by decide), hmetadata _ (by decide), if_pos rfl]
  · rw [sealed, lookup_putFile, if_pos rfl, SortedMap.lookup_insert, if_neg (by decide),
      SortedMap.lookup_insert, if_neg (by decide), hmetadata _ (by decide), if_neg (by decide),
      if_neg (by decide)]
    simp
  · intro hash
    exact hproof _ (.inl (folderOf_capsulePath hash))
  · intro id
    exact hproof _ (.inr (folderOf_eventPath id))
  · intro artifact hartifact
    obtain ⟨bytes, hbytes, hdigest, hlookup⟩ := h.there artifact hartifact
    refine ⟨bytes, hbytes, hdigest, ?_⟩
    rw [lookup_sealed, hlookup]
    intro hmem
    have hmeta : artifactPath artifact ∈ metadataNames := by
      revert hmem
      simp only [metadataNames, List.mem_cons, List.not_mem_nil, or_false]
      tauto
    exact (folderOf_metadata _ hmeta).2.2 (folderOf_artifactPath artifact)
  · intro path bytes hbytes
    by_cases hmeta : path ∈ metadataNames
    · exact .inl hmeta
    · by_cases hartifact : ∃ artifact ∈ listed, path = artifactPath artifact
      · exact .inr (.inr hartifact)
      · have hnames : path ≠ "manifest.json" ∧ path ≠ "receipt.yaml" ∧ path ≠ "publication.json" ∧
            path ≠ "log-consistency.json" ∧ path ≠ "identity.sigstore.json" := by
          simpa [metadataNames] using hmeta
        rw [lookup_sealed (by simp [hnames]), hstage path, if_neg hnames.2.2.2.1,
          if_neg hnames.2.2.1] at hbytes
        · exact .inr (.inl ⟨bytes, hbytes⟩)
        · intro artifact hmem heq
          exact hartifact ⟨artifact, hmem, heq⟩

/-- What a parcel is packed to. -/
theorem packFiles_eq_ok {parcel : Parcel} (h : packFiles p fs parcel = .ok files) :
    ∃ contents listed, ReadsParcel p fs parcel contents ∧
      artifacts contents.receipt = .ok listed ∧ Filed p fs parcel contents listed files := by
  obtain ⟨_, hcompared, h⟩ := except_bind_eq_ok.mp h
  obtain ⟨bytes, hbytes, h⟩ := except_bind_eq_ok.mp h
  obtain ⟨receipt, hreceipt, h⟩ := except_bind_eq_ok.mp h
  obtain ⟨proofs, hproofs, h⟩ := except_bind_eq_ok.mp h
  obtain ⟨record, hrecord, h⟩ := except_bind_eq_ok.mp h
  obtain ⟨comparison, hcomparison, h⟩ := except_bind_eq_ok.mp h
  obtain ⟨listed, hlisted, h⟩ := except_bind_eq_ok.mp h
  obtain ⟨⟨packed, size⟩, hpacked, h⟩ := except_bind_eq_ok.mp h
  obtain ⟨identity, hidentity, h⟩ := except_bind_eq_ok.mp h
  obtain ⟨_, _, h⟩ := except_bind_eq_ok.mp h
  have hcollected := collect_eq_ok hproofs
  refine ⟨⟨bytes, receipt, record, comparison, identity, proofs⟩, listed, ?_, hlisted, ?_⟩
  · refine ⟨hbytes, hreceipt, hrecord, hcomparison, hidentity, hcollected, ?_⟩
    intro hgiven hnone
    exact refuseIf_eq_ok.mp hcompared ⟨hgiven, hnone⟩
  · rw [← Except.ok.inj h]
    exact @filed_of_stages _ _ p fs packed parcel.workspace parcel.capsules listed parcel
      ⟨bytes, receipt, record, comparison, identity, proofs⟩ _ hcollected rfl rfl
      (withArtifacts_of_foldlM hpacked)

end Collect

end Attest.Evidence
