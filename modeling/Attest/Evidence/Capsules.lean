import Attest.Evidence.Proofs
import Attest.Library.SortedMap
import Attest.Library.Text

/-! The capsule proofs of release evidence, as `capsule.rs` and `evidence/proofs.rs` have them.

A step that ran in a capsule records the hash of the capsule's manifest. The manifest travels
beside the receipt under this hash, and is held to it. What `serde` reads and writes is a
parameter. -/
namespace Attest.Evidence
open Library Library.Fallible Storage Verify
open Trust (Bytes Crates isLowerHexDigit utf8 hexEncode)

/-! ### Manifests -/

def capsuleFormat : String := "attest-capsule/v1"

def capsuleNetworkNone : String := "none"

structure CapsuleManifest where
  format : String
  name : String
  image : String
  entrypoint : Option (List String)
  env : List (String × String)
  /-- The path the workspace is mounted at. -/
  workspace : String
  network : String
  capsuleHash : Option String
deriving DecidableEq

/-- `str::split_once` at a text. -/
def splitOnceAt (sep : List Char) : List Char → Option (List Char × List Char)
  | [] => none
  | c :: rest =>
    if sep.isPrefixOf (c :: rest) then some ([], (c :: rest).drop sep.length)
    else (splitOnceAt sep rest).map fun split => (c :: split.1, split.2)

def tagReference (image : String) : String :=
  "image '" ++ image ++ "' is not digest-pinned; use <repo>@sha256:<64 hex> (tag references are rejected)"

def validateImageRef (image : String) : Except String Unit :=
  match splitOnceAt "@sha256:".toList image.toList with
  | none => .error (tagReference image)
  | some (repo, digest) =>
    refuseIf (repo = [] ∨ digest.length ≠ 64 ∨ ¬ ∀ c ∈ digest, isLowerHexDigit c = true)
      (tagReference image)

def CapsuleManifest.validate (manifest : CapsuleManifest) : Except String Unit := do
  refuseIf (manifest.format ≠ capsuleFormat)
    s!"capsule manifest invalid: unsupported format '{manifest.format}' (expected {capsuleFormat})"
  validateImageRef manifest.image
  refuseIf (manifest.network ≠ capsuleNetworkNone)
    s!"capsule manifest invalid: unsupported network '{manifest.network}' (v1 supports only '{capsuleNetworkNone}')"
  refuseIf (manifest.workspace.toList.head? ≠ some '/')
    s!"capsule manifest invalid: workspace mount '{manifest.workspace}' must be an absolute container path"

/-! ### Proofs -/

/-- A value that may be a manifest: its keys and those under `mounts` when they are objects, and
`from_value` of it. -/
structure CapsuleValue where
  keys : Option (List String)
  mountKeys : Option (List String)
  manifest : Except String CapsuleManifest

structure CapsuleCodec where
  /-- `serde_yaml::from_slice::<Value>`. -/
  value : Bytes → Except String CapsuleValue
  /-- `serde_yaml::to_string::<CapsuleManifest>`. -/
  toYaml : CapsuleManifest → Except String String

def capsuleKeys : List String :=
  ["format", "name", "image", "entrypoint", "env", "mounts", "network", "capsule_hash"]

def capsulePath (hash : String) : String := "capsules/" ++ hash ++ ".yaml"

section Capsules
variable (c : Crates) (codec : CapsuleCodec)

/-- `compute_hash`: the hash is not part of what is hashed. -/
def CapsuleManifest.computeHash (manifest : CapsuleManifest) : Except String String := do
  let canonical ← codec.toYaml { manifest with capsuleHash := none }
  return hexEncode (c.blake3 (utf8 canonical)).toList

/-- `fields`, of the keys alone. -/
def fieldsIn (keys : Option (List String)) (allowed : List String) : Except String Unit :=
  match keys with
  | none => .error "proof must be an object"
  | some keys =>
    refuseIf (¬ ∀ key ∈ keys, key ∈ allowed) "proof contains an unauthenticated unknown field"

def capsule (bytes : Bytes) : Except String CapsuleManifest := do
  let value ← codec.value bytes
  fieldsIn value.keys capsuleKeys
  fieldsIn value.mountKeys ["workspace"]
  value.manifest.mapError fun err => s!"invalid capsule manifest: {err}"

/-- The capsule hashes of the steps, in order and each once. -/
def capsuleHashes (receipt : Receipt) : Except String (List String) := do
  let hashes := receipt.steps.filterMap StepResult.capsuleHash
  hashes.forM digest
  return (SortedMap.empty.insertAll (hashes.map fun hash => (hash, ()))).keys

/-- One more event the receipt refers to. -/
def addReference (paths : List String) (id : String) : Except String (List String) := do
  digest id
  refuseIf (eventPath id ∈ paths) "duplicate causal reference"
  return paths ++ [eventPath id]

/-- `paths`: the files that the receipt refers to. -/
def paths (receipt : Receipt) : Except String (List String) := do
  let hashes ← capsuleHashes receipt
  receipt.causalEvents.foldlM addReference (hashes.map capsulePath)

/-- What one manifest in the files is held to. -/
def examineCapsule (hash : String) (bytes : Bytes) : Except String Unit := do
  let manifest ← capsule codec bytes
  manifest.validate
  let computed ← manifest.computeHash c codec
  refuseIf (¬ (computed = hash ∧ manifest.capsuleHash = some hash))
    "capsule manifest does not match signed capsule hash"

/-- The loop over the hashes: those without a file. -/
def missingCapsules (files : String → Option Bytes) : List String → Except String (List String)
  | [] => .ok []
  | hash :: rest =>
    match files (capsulePath hash) with
    | none => do
      let missing ← missingCapsules files rest
      return hash :: missing
    | some bytes => do
      examineCapsule c codec hash bytes
      missingCapsules files rest

/-- The capsule part of `assess`. -/
def assessCapsules (receipt : Receipt) (files : String → Option Bytes) :
    Except String (Option String) := do
  let hashes ← capsuleHashes receipt
  let missing ← missingCapsules c codec files hashes
  return if missing = [] then none
    else some ("incomplete capsule evidence; missing manifests: " ++ ", ".intercalate missing)

/-- The first check of `assess`. -/
def capsuleCheck (receipt : Receipt) (files : String → Option Bytes) : Check :=
  result "capsule" (assessCapsules c codec receipt files)

end Capsules

/-! ### What the references are -/

section References
variable {receipt : Receipt} {proofs : List String}

theorem digest_eq_ok {value : String} {u : Unit} : digest value = .ok u ↔ isDigest value = true := by
  rw [digest, refuseIf_eq_ok, Bool.not_eq_false]

theorem eventPath_injective : Function.Injective eventPath := by
  intro a b h
  have hchars : "events/".toList ++ a.toList ++ ".json".toList =
      "events/".toList ++ b.toList ++ ".json".toList := by
    simpa [eventPath] using congrArg String.toList h
  exact String.toList_inj.mp (List.append_cancel_left (List.append_cancel_right hchars))

theorem capsulePath_ne_eventPath (hash id : String) : capsulePath hash ≠ eventPath id := by
  intro h
  have hhead := congrArg (fun path => path.toList.head?) h
  simp [capsulePath, eventPath] at hhead

/-- The capsule hashes of a receipt are those of its steps, and each is one. -/
theorem capsuleHashes_eq_ok {hashes : List String} (h : capsuleHashes receipt = .ok hashes) :
    (∀ hash, hash ∈ hashes ↔ ∃ step ∈ receipt.steps, step.capsuleHash = some hash) ∧
      ∀ hash ∈ hashes, isDigest hash = true := by
  obtain ⟨_, hdigests, h⟩ := except_bind_eq_ok.mp h
  cases h
  have hmem : ∀ hash, hash ∈ (SortedMap.empty.insertAll
      ((receipt.steps.filterMap StepResult.capsuleHash).map fun hash => (hash, ()))).keys ↔
        ∃ step ∈ receipt.steps, step.capsuleHash = some hash := by
    intro hash
    rw [SortedMap.mem_keys_insertAll, List.map_map]
    simp [SortedMap.keys, SortedMap.empty]
  refine ⟨hmem, ?_⟩
  intro hash hhash
  obtain ⟨step, hstep, hsome⟩ := (hmem hash).mp hhash
  exact digest_eq_ok.mp (forM_eq_ok.mp hdigests hash (List.mem_filterMap.mpr ⟨step, hstep, hsome⟩))

theorem foldlM_addReference {ids references references' : List String}
    (h : ids.foldlM addReference references = .ok references') :
    references' = references ++ ids.map eventPath ∧ (∀ id ∈ ids, isDigest id = true) ∧
      ids.Nodup ∧ ∀ id ∈ ids, eventPath id ∉ references := by
  induction ids generalizing references with
  | nil =>
    cases h
    exact ⟨by simp, by simp, List.nodup_nil, by simp⟩
  | cons id rest ih =>
    rw [List.foldlM_cons] at h
    obtain ⟨after, hafter, h⟩ := except_bind_eq_ok.mp h
    obtain ⟨_, hdigest, hafter⟩ := except_bind_eq_ok.mp hafter
    obtain ⟨_, hnew, hafter⟩ := except_bind_eq_ok.mp hafter
    cases hafter
    obtain ⟨hreferences, hdigests, hnodup, hfresh⟩ := ih h
    refine ⟨?_, ?_, ?_, ?_⟩
    · rw [hreferences, List.append_assoc, List.map_cons, List.singleton_append]
    · exact List.forall_mem_cons.mpr ⟨digest_eq_ok.mp hdigest, hdigests⟩
    · refine List.nodup_cons.mpr ⟨?_, hnodup⟩
      intro hmem
      exact hfresh id hmem (List.mem_append_right _ (List.mem_singleton.mpr rfl))
    · refine List.forall_mem_cons.mpr ⟨refuseIf_eq_ok.mp hnew, ?_⟩
      intro other hother hmem
      exact hfresh other hother (List.mem_append_left _ hmem)

/-- The paths of a receipt are those of the capsules of its steps and of its events. -/
theorem paths_eq_ok (h : paths receipt = .ok proofs) :
    (∀ path, path ∈ proofs ↔
      (∃ step ∈ receipt.steps, ∃ hash, step.capsuleHash = some hash ∧ path = capsulePath hash) ∨
        ∃ id ∈ receipt.causalEvents, path = eventPath id) ∧
      receipt.causalEvents.Nodup ∧ ∀ id ∈ receipt.causalEvents, isDigest id = true := by
  obtain ⟨hashes, hhashes, h⟩ := except_bind_eq_ok.mp h
  obtain ⟨rfl, hdigests, hnodup, _⟩ := foldlM_addReference h
  refine ⟨?_, hnodup, hdigests⟩
  intro path
  rw [List.mem_append, List.mem_map, List.mem_map]
  constructor
  · intro hpath
    rcases hpath with ⟨hash, hhash, rfl⟩ | ⟨id, hid, rfl⟩
    · obtain ⟨step, hstep, hsome⟩ := ((capsuleHashes_eq_ok hhashes).1 hash).mp hhash
      exact .inl ⟨step, hstep, hash, hsome, rfl⟩
    · exact .inr ⟨id, hid, rfl⟩
  · intro hpath
    rcases hpath with ⟨step, hstep, hash, hsome, rfl⟩ | ⟨id, hid, rfl⟩
    · exact .inl ⟨hash, ((capsuleHashes_eq_ok hhashes).1 hash).mpr ⟨step, hstep, hsome⟩, rfl⟩
    · exact .inr ⟨id, hid, rfl⟩

end References

end Attest.Evidence
