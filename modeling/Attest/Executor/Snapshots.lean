import Attest.Hashing.Copies
import Attest.Library.StableSort
import Mathlib.Data.List.Lex
import Mathlib.Order.Lattice

/-! Snapshots of the declared inputs of a step, after `executor/mod.rs`.

A step in a capsule reads its inputs from a copy that is taken when they are hashed, and the copy is
hashed again. Whatever happens while it is taken, a copy that is used has the hash that is expected
of it (`hashInputs_of_take`). Where nothing happens, `take_ok` says when the copy is taken: when no
link leaves the workspace on its way, and none is passed below an input that is copied. -/
namespace Attest.Executor.Snapshot
open Library Library.Fallible Library.StableSort Hashing
open Trust (Bytes Crates utf8 hexEncode)

/-! ### The model -/

inductive SnapshotError where
  /-- A capsule input must be a relative path without `..`. -/
  | notRelative (input : Path)
  /-- A capsule input names the workspace root. -/
  | workspaceRoot (input : Path)
  /-- Capsule snapshots require a temporary directory outside the workspace. -/
  | insideWorkspace
  /-- Capsule snapshots require relative symbolic links. -/
  | absoluteLink (path : Path)
  | io (error : IoError)
  | hashing (error : HashingError)
  /-- The declared inputs changed between hashing and snapshot. -/
  | changed (step hashed snapshot : String)

def validateInputPath (path : Path) : Except SnapshotError Unit := do
  refuseIf (path.absolute = true ∨ .parentDir ∈ path.components) (.notRelative path)
  refuseIf (normalNames path.components = []) (.workspaceRoot path)

def validateInputPaths (paths : List Path) : Except SnapshotError Unit :=
  paths.forM validateInputPath

/-- A declared input without its `.`. -/
def relativeInput (input : Path) : Except SnapshotError (List Name) := do
  refuseIf (input.absolute = true ∨ .parentDir ∈ input.components) (.notRelative input)
  return normalNames input.components

/-- Paths are compared name by name, and names byte by byte. -/
def pathKey (names : List Name) : List (List Nat) := names.map fun name => name.bytes.map UInt8.toNat

/-- `Vec::sort` and `Vec::dedup` of paths. -/
def sortPaths (paths : List (List Name)) : List (List Name) :=
  (sortByKey pathKey paths).destutter (· ≠ ·)

/-- The paths that are below none of those before them. -/
def minimalPaths (paths : List (List Name)) : List (List Name) :=
  paths.foldl (fun minimal path =>
    if minimal.any (·.isPrefixOf path) then minimal else minimal ++ [path]) []

/-- A file, a directory or a link as it is: links are not followed. -/
def copyTree : Path → Tree → Except SnapshotError Tree
  | path, .link target =>
    if (Path.ofBytes target).absolute then .error (.absoluteLink path) else .ok (.link target)
  | path, .dir names child => do
    (sortNames names).forM fun name =>
      (copyTree (path.append [.normal name]) (child name)).map fun _ => ()
    return .dir names fun name =>
      (copyTree (path.append [.normal name]) (child name)).toOption.getD (child name)
  | _, .file bytes => .ok (.file bytes)

/-- What is copied for these names, where nothing changes. -/
def copyInput (fs : FileSystem) (workspace : Path) (names : List Name) :
    Except SnapshotError Tree := do
  let path := workspace.append (names.map .normal)
  let tree ← (symlinkMetadata fs path).mapError .io
  copyTree path tree

/-- A directory of its own: where it is, and the file system with what it holds. -/
structure TemporaryDirectory where
  location : Location
  holding : Tree → FileSystem
  holds : ∀ tree, (holding tree).root.descend location = some tree

def TemporaryDirectory.root (temporary : TemporaryDirectory) : Path :=
  .ofNames true temporary.location

structure InputSnapshot where
  paths : List (List Name)
  /-- What the directory holds. -/
  content : Tree

/-- The copies of these paths, from what copying each of them produced. -/
def copyPaths (copied : List Name → Except SnapshotError Tree) (paths : List (List Name)) :
    Except SnapshotError (List (Location × Tree)) :=
  paths.mapM fun path => (copied path).map fun tree => (path, tree)

/-- `InputSnapshot::take`, from what copying each path produced. -/
def take (c : Crates) (fs : FileSystem) (temporary : TemporaryDirectory)
    (copied : List Name → Except SnapshotError Tree) (workspace : Path) (stepName run : String)
    (inputs : List Path) (expected : String) : Except SnapshotError InputSnapshot := do
  validateInputPaths inputs
  let canonical ← (resolve fs true workspace).mapError .io
  refuseIf (canonical <+: temporary.location) .insideWorkspace
  let relative ← inputs.mapM relativeInput
  let paths := minimalPaths (sortPaths relative)
  let copies ← copyPaths copied paths
  let content := Tree.emptyDir.planted copies
  let hashed ← (hashInputs c (temporary.holding content) temporary.root stepName run inputs).mapError
    .hashing
  refuseIf (hashed ≠ expected) (.changed stepName expected hashed)
  return ⟨paths, content⟩

/-! ### The paths of a snapshot -/

section Paths
variable {paths : List (List Name)} {path : List Name} {inputs : List Path}

theorem validateInputPaths_eq_ok : validateInputPaths inputs = .ok () ↔
    ∀ d ∈ inputs, Plain d ∧ normalNames d.components ≠ [] := by
  have hone (d : Path) : validateInputPath d = .ok () ↔ Plain d ∧ normalNames d.components ≠ [] := by
    rw [validateInputPath, except_bind_eq_ok]
    constructor
    · intro h
      obtain ⟨_, hrelative, hnamed⟩ := h
      have hrefused := refuseIf_eq_ok.mp hrelative
      rw [not_or, Bool.not_eq_true] at hrefused
      exact ⟨⟨hrefused.1, hrefused.2⟩, refuseIf_eq_ok.mp hnamed⟩
    · intro h
      refine ⟨(), refuseIf_eq_ok.mpr ?_, refuseIf_eq_ok.mpr h.2⟩
      rw [not_or, Bool.not_eq_true]
      exact ⟨h.1.relative, h.1.down⟩
  rw [validateInputPaths, forM_eq_ok]
  exact forall₂_congr fun d _ => hone d

theorem mapM_relativeInput (h : ∀ d ∈ inputs, Plain d) :
    inputs.mapM relativeInput = .ok (inputs.map fun d => normalNames d.components) := by
  induction inputs with
  | nil => rfl
  | cons d rest ih =>
    rw [List.forall_mem_cons] at h
    have hfirst : relativeInput d = .ok (normalNames d.components) := by
      refine except_bind_eq_ok.mpr ⟨(), refuseIf_eq_ok.mpr ?_, rfl⟩
      rw [not_or, Bool.not_eq_true]
      exact ⟨h.1.relative, h.1.down⟩
    rw [List.mapM_cons, hfirst, except_ok_bind, ih h.2]
    rfl

theorem pathKey_injective : Function.Injective pathKey := by
  refine List.map_injective_iff.mpr ?_
  intro a b h
  exact Name.ext_bytes (List.map_injective_iff.mpr (fun _ _ h => UInt8.toNat_inj.mp h) h)

/-- A path comes after those it is below. -/
theorem pathKey_le_pathKey {a b : List Name} (h : a <+: b) : pathKey a ≤ pathKey b := by
  induction a generalizing b with
  | nil =>
    cases b with
    | nil => exact le_rfl
    | cons name rest => exact le_of_lt List.Lex.nil
  | cons name rest ih =>
    obtain ⟨further, rfl⟩ := h
    exact List.cons_le_cons _ (ih (List.prefix_append rest further))

theorem mem_sortPaths : path ∈ sortPaths paths ↔ path ∈ paths := by
  rw [sortPaths, destutter_sortByKey pathKey_injective, List.mem_dedup, mem_sortByKey]

theorem pairwise_sortPaths (paths : List (List Name)) :
    (sortPaths paths).Pairwise fun a b => pathKey a ≤ pathKey b :=
  (pairwise_sortByKey pathKey paths).sublist (List.destutter_sublist _ _)

/-- Of sorted paths those are kept that lie apart, and each path lies at or below one of them. -/
theorem minimalPaths_sorted (h : paths.Pairwise fun a b => pathKey a ≤ pathKey b) :
    (minimalPaths paths).Pairwise Tree.Apart ∧ (∀ path ∈ minimalPaths paths, path ∈ paths) ∧
      ∀ path ∈ paths, ∃ kept ∈ minimalPaths paths, kept <+: path := by
  unfold minimalPaths
  induction paths using List.reverseRecOn with
  | nil => exact ⟨.nil, nofun, nofun⟩
  | append_singleton before path ih =>
    obtain ⟨hbefore, -, hlast⟩ := List.pairwise_append.mp h
    obtain ⟨hapart, hmem, hcover⟩ := ih hbefore
    rw [List.foldl_append, List.foldl_cons, List.foldl_nil]
    split
    · rename_i hbelow
      obtain ⟨kept, hkept, hprefix⟩ := List.any_eq_true.mp hbelow
      refine ⟨hapart, fun path hpath => List.mem_append_left _ (hmem path hpath), ?_⟩
      intro other hother
      rcases List.mem_append.mp hother with hother | hother
      · exact hcover other hother
      · cases List.mem_singleton.mp hother
        exact ⟨kept, hkept, List.isPrefixOf_iff_prefix.mp hprefix⟩
    · rename_i hbelow
      have hnot : ∀ kept ∈ _, ¬ kept <+: path := fun kept hkept hprefix =>
        hbelow (List.any_eq_true.mpr ⟨kept, hkept, List.isPrefixOf_iff_prefix.mpr hprefix⟩)
      refine ⟨List.pairwise_append.mpr ⟨hapart, List.pairwise_singleton _ _, ?_⟩, ?_, ?_⟩
      · intro kept hkept last hlastMem
        cases List.mem_singleton.mp hlastMem
        refine ⟨hnot kept hkept, ?_⟩
        intro hprefix
        -- A path that comes before one it is below is that path.
        have hle := hlast kept (hmem kept hkept) path (List.mem_singleton_self path)
        have hsame := pathKey_injective (hle.antisymm (pathKey_le_pathKey hprefix))
        exact hnot kept hkept (hsame ▸ List.prefix_rfl)
      · intro other hother
        rcases List.mem_append.mp hother with hother | hother
        · exact List.mem_append_left _ (hmem other hother)
        · exact List.mem_append_right _ hother
      · intro other hother
        rcases List.mem_append.mp hother with hother | hother
        · obtain ⟨kept, hkept, hprefix⟩ := hcover other hother
          exact ⟨kept, List.mem_append_left _ hkept, hprefix⟩
        · exact ⟨other, List.mem_append_right _ hother, List.prefix_rfl⟩

/-- What is copied for these inputs. -/
def snapshotPaths (inputs : List Path) : List (List Name) :=
  minimalPaths (sortPaths (inputs.map fun input => normalNames input.components))

theorem snapshotPaths_apart (inputs : List Path) : (snapshotPaths inputs).Pairwise Tree.Apart :=
  (minimalPaths_sorted (pairwise_sortPaths _)).1

theorem mem_of_mem_snapshotPaths (h : path ∈ snapshotPaths inputs) :
    ∃ d ∈ inputs, normalNames d.components = path := by
  have hmem := (minimalPaths_sorted (pairwise_sortPaths _)).2.1 path h
  exact List.mem_map.mp (mem_sortPaths.mp hmem)

theorem snapshotPaths_cover {d : Path} (h : d ∈ inputs) :
    ∃ path ∈ snapshotPaths inputs, path <+: normalNames d.components :=
  (minimalPaths_sorted (pairwise_sortPaths _)).2.2 _ (mem_sortPaths.mpr (List.mem_map_of_mem h))

theorem snapshotPaths_of_sorted
    (h : (inputs.map fun d => normalNames d.components).Pairwise fun a b => pathKey a ≤ pathKey b) :
    snapshotPaths inputs =
      minimalPaths ((inputs.map fun d => normalNames d.components).destutter (· ≠ ·)) := by
  rw [snapshotPaths, sortPaths, sortByKey, List.mergeSort_of_pairwise]
  exact h.imp fun hle => decide_eq_true hle

theorem eq_of_prefix_snapshotPaths {path' : List Name} (hpath : path ∈ snapshotPaths inputs)
    (hpath' : path' ∈ snapshotPaths inputs) (h : path' <+: path) : path' = path := by
  have : Std.Symm Tree.Apart := ⟨fun _ _ hapart => ⟨hapart.2, hapart.1⟩⟩
  by_contra hne
  exact ((snapshotPaths_apart inputs).forall hpath' hpath hne).1 h

end Paths

/-! ### Copies -/

section Copies
variable {fs : FileSystem} {workspace path : Path} {tree copy : Tree} {inputs : List Path}
  {temporary : TemporaryDirectory}

theorem copyTree_eq (h : copyTree path tree = .ok copy) : copy = tree := by
  induction tree generalizing path copy with
  | file bytes =>
    cases h
    rfl
  | link target =>
    rw [copyTree] at h
    split at h
    · cases h
    · cases h
      rfl
  | dir names child ih =>
    rw [copyTree] at h
    obtain ⟨_, -, h⟩ := except_bind_eq_ok.mp h
    cases h
    congr 1
    funext name
    cases hcopy : copyTree (path.append [.normal name]) (child name) with
    | error e => rfl
    | ok copy => exact ih name hcopy

def RelativeLinks (tree : Tree) : Prop :=
  ∀ names target, tree.descend names = some (.link target) →
    (Path.ofBytes target).absolute = false

theorem relativeLinks_dir {names : List Name} {child : Name → Tree} :
    RelativeLinks (.dir names child) ↔ ∀ name ∈ names, RelativeLinks (child name) := by
  constructor
  · intro h name hmem rest target hlink
    exact h (name :: rest) target (Tree.descend_cons.mpr ⟨names, child, rfl, hmem, hlink⟩)
  · intro h loc target hlink
    cases loc with
    | nil => cases hlink
    | cons name rest =>
      obtain ⟨_, _, ⟨⟩, hmem, hlink⟩ := Tree.descend_cons.mp hlink
      exact h name hmem rest target hlink

/-- A tree is copied where each of its links is relative. -/
theorem copyTree_ok (h : RelativeLinks tree) : copyTree path tree = .ok tree := by
  have hok : ∃ copy, copyTree path tree = .ok copy := by
    induction tree generalizing path with
    | file bytes => exact ⟨_, rfl⟩
    | link target => exact ⟨_, if_neg (by simp [h [] target rfl])⟩
    | dir names child ih =>
      refine ⟨_, except_bind_eq_ok.mpr ⟨(), forM_eq_ok.mpr ?_, rfl⟩⟩
      intro name hname
      have hmem : name ∈ names := (List.perm_insertionSort _ names).mem_iff.mp hname
      obtain ⟨copy, hcopy⟩ := ih name (relativeLinks_dir.mp h name hmem)
      rw [hcopy]
      rfl
  obtain ⟨copy, hcopy⟩ := hok
  rw [hcopy, copyTree_eq hcopy]

theorem mem_of_copyPaths {copied : List Name → Except SnapshotError Tree} {paths : List (List Name)}
    {copies : List (Location × Tree)} (h : copyPaths copied paths = .ok copies) {names : List Name}
    (hmem : names ∈ paths) (hcopy : copied names = .ok tree) : (names, tree) ∈ copies := by
  obtain ⟨-, rfl⟩ := mapM_eq_ok.mp h
  refine List.mem_filterMap.mpr ⟨names, hmem, ?_⟩
  rw [hcopy]
  rfl

theorem copied_of_copyPaths {copied : List Name → Except SnapshotError Tree}
    {paths : List (List Name)} {copies : List (Location × Tree)}
    (h : copyPaths copied paths = .ok copies) {names : List Name} (hmem : names ∈ paths) :
    ∃ tree, copied names = .ok tree := by
  obtain ⟨copy, hcopy⟩ := (mapM_eq_ok.mp h).1 names hmem
  cases htree : copied names with
  | ok tree => exact ⟨tree, rfl⟩
  | error e =>
    rw [htree] at hcopy
    cases hcopy

/-- Copies are put where their paths are. -/
theorem fst_of_copyPaths {copied : List Name → Except SnapshotError Tree} {paths : List (List Name)}
    {copies : List (Location × Tree)} (h : copyPaths copied paths = .ok copies) :
    copies.map Prod.fst = paths := by
  induction paths generalizing copies with
  | nil =>
    cases h
    rfl
  | cons names rest ih =>
    rw [copyPaths, List.mapM_cons] at h
    obtain ⟨first, hfirst, h⟩ := except_bind_eq_ok.mp h
    obtain ⟨more, hmore, h⟩ := except_bind_eq_ok.mp h
    cases h
    cases hcopy : copied names with
    | error e =>
      rw [hcopy] at hfirst
      cases hfirst
    | ok tree =>
      rw [hcopy] at hfirst
      cases hfirst
      exact congrArg (names :: ·) (ih hmore)

theorem descend_copies {copied : List Name → Except SnapshotError Tree}
    {copies : List (Location × Tree)} (h : copyPaths copied (snapshotPaths inputs) = .ok copies)
    {names : List Name} (hmem : names ∈ snapshotPaths inputs) (hcopy : copied names = .ok tree) :
    (Tree.emptyDir.planted copies).descend names = some tree := by
  have hapart : copies.Pairwise fun a b => Tree.Apart a.1 b.1 := by
    rw [← List.pairwise_map, fst_of_copyPaths h]
    exact snapshotPaths_apart inputs
  exact @Tree.descend_planted Tree.emptyDir copies hapart _ (mem_of_copyPaths h hmem hcopy)

/-! ### Inputs in the copies -/

/-- A declared input stands, through directories only, in the tree that is copied for it. -/
def StandsIn (fs : FileSystem) (workspace : Path) (inputs : List Path) (d : Path) : Prop :=
  ∃ names ∈ snapshotPaths inputs, ∃ rest tree, normalNames d.components = names ++ rest ∧
    symlinkMetadata fs (workspace.append (names.map .normal)) = .ok tree ∧
    ∀ entry, declaredAt fs workspace d = .ok entry → tree.descend rest = some entry

/-- A declared input below one that is copied leads in the copies to what it leads to in the
workspace. -/
def LeadsAlike (fs : FileSystem) (temporary : TemporaryDirectory) (workspace : Path)
    (inputs : List Path) (d : Path) : Prop :=
  normalNames d.components ∉ snapshotPaths inputs ∧ ∀ copies entry,
    copyPaths (copyInput fs workspace) (snapshotPaths inputs) = .ok copies →
    declaredAt fs workspace d = .ok entry →
      symlinkMetadata (temporary.holding (Tree.emptyDir.planted copies)) (temporary.root.join d) =
        .ok entry

/-- A path that ends in `.` leads to a directory. -/
theorem endsInDir_of_symlinkMetadata {components : List Component} {entry : Tree}
    (h : symlinkMetadata fs (path.append components) = .ok entry) : EndsInDir components entry := by
  intro hlast
  obtain ⟨front, rfl⟩ := List.getLast?_eq_some_iff.mp hlast
  obtain ⟨loc, hresolve, hentry⟩ := entryAt_eq_ok.mp h
  rw [← Path.append_append] at hresolve
  obtain ⟨links, hleads⟩ := resolve_curDir.mp hresolve
  obtain ⟨names, child, hdir⟩ := hleads.1
  cases hdir.symm.trans hentry
  rfl

theorem joinWorkspace {d : Path} (h : Plain d) : (lexicalNormalize workspace).join d =
    (lexicalNormalize workspace).append d.components :=
  join_plain h

/-- An input that stands in what is copied is found in the copies. -/
theorem symlinkMetadata_of_standsIn {d : Path} {entry : Tree} {copies : List (Location × Tree)}
    (hplain : Plain d) (h : StandsIn fs workspace inputs d)
    (hcopies : copyPaths (copyInput fs workspace) (snapshotPaths inputs) = .ok copies)
    (hentry : declaredAt fs workspace d = .ok entry) :
    symlinkMetadata (temporary.holding (Tree.emptyDir.planted copies)) (temporary.root.join d) =
      .ok entry := by
  obtain ⟨names, hnames, rest, tree, hsplit, htree, hstands⟩ := h
  obtain ⟨copy, hcopy⟩ := copied_of_copyPaths hcopies hnames
  have hsame : copy = tree := by
    have hread := hcopy
    rw [copyInput, htree] at hread
    exact copyTree_eq hread
  subst hsame
  have hdescend := descend_copies hcopies hnames hcopy
  rw [TemporaryDirectory.root, join_plain hplain]
  refine symlinkMetadata_down rfl ?_ ?_ ?_
  · show Component.parentDir ∉ _ ++ _
    rw [List.mem_append, not_or]
    exact ⟨parentDir_notMem_names _, hplain.down⟩
  · show (temporary.holding _).root.descend (normalNames (_ ++ _)) = _
    have hroot : normalNames (Path.ofNames true temporary.location).components = temporary.location :=
      normalNames_map _
    rw [normalNames_append, hroot, Tree.descend_append, temporary.holds, hsplit]
    show (Tree.planted _ _).descend (names ++ rest) = _
    rw [Tree.descend_append, hdescend]
    exact hstands entry hentry
  · have hends : EndsInDir d.components entry := by
      rw [declaredAt, joinWorkspace hplain] at hentry
      exact endsInDir_of_symlinkMetadata hentry
    intro hlast
    refine hends ?_
    have hlast : (_ ++ d.components).getLast? = _ := hlast
    rw [List.getLast?_append] at hlast
    cases hown : d.components.getLast? with
    | some component =>
      rw [hown] at hlast
      exact hlast
    | none =>
      rw [hown] at hlast
      have hmem := List.mem_of_getLast? hlast
      obtain ⟨name, -, hname⟩ := List.mem_map.mp hmem
      cases hname

/-- Every input of a hash is there. -/
theorem declaredAt_of_hashInputs {c : Crates} {step run hash : String}
    (h : hashInputs c fs workspace step run inputs = .ok hash) {d : Path} (hd : d ∈ inputs) :
    ∃ entry, declaredAt fs workspace d = .ok entry := by
  obtain ⟨manifest, hmanifest, -⟩ := except_bind_eq_ok.mp h
  obtain ⟨entries, hentries, -⟩ := except_bind_eq_ok.mp hmanifest
  obtain ⟨before, after, hadded⟩ := foldlM_ok_mem hentries hd
  cases hentry : declaredAt fs workspace d with
  | ok entry => exact ⟨entry, rfl⟩
  | error e =>
    have hmissing : symlinkMetadata fs ((lexicalNormalize workspace).join d) = .error e := hentry
    unfold addDeclared at hadded
    rw [hmissing] at hadded
    cases hadded

end Copies

/-! ### Snapshots -/

section Snapshots
variable {c : Crates} {fs : FileSystem} {temporary : TemporaryDirectory} {workspace : Path}
  {copied : List Name → Except SnapshotError Tree} {step run expected : String} {inputs : List Path}
  {snapshot : InputSnapshot}

/-- The workspace is there, and the temporary directory is not in it. -/
def Outside (fs : FileSystem) (temporary : TemporaryDirectory) (workspace : Path) : Prop :=
  ∃ canonical, resolve fs true workspace = .ok canonical ∧ ¬ canonical <+: temporary.location

theorem take_eq_ok : take c fs temporary copied workspace step run inputs expected = .ok snapshot ↔
    validateInputPaths inputs = .ok () ∧ Outside fs temporary workspace ∧
      ∃ copies, copyPaths copied (snapshotPaths inputs) = .ok copies ∧
        snapshot = ⟨snapshotPaths inputs, Tree.emptyDir.planted copies⟩ ∧
        hashInputs c (temporary.holding snapshot.content) temporary.root step run inputs =
          .ok expected := by
  unfold take
  constructor
  · intro h
    obtain ⟨_, hvalid, h⟩ := except_bind_eq_ok.mp h
    obtain ⟨canonical, hcanonical, h⟩ := except_bind_eq_ok.mp h
    obtain ⟨_, houtside, h⟩ := except_bind_eq_ok.mp h
    rw [mapM_relativeInput fun d hd => (validateInputPaths_eq_ok.mp hvalid d hd).1,
      except_ok_bind] at h
    obtain ⟨copies, hcopies, h⟩ := except_bind_eq_ok.mp h
    obtain ⟨hashed, hhashed, h⟩ := except_bind_eq_ok.mp h
    obtain ⟨_, hexpected, h⟩ := except_bind_eq_ok.mp h
    cases h
    have hsame := not_not.mp (refuseIf_eq_ok.mp hexpected)
    exact ⟨hvalid, ⟨canonical, mapError_eq_ok.mp hcanonical, refuseIf_eq_ok.mp houtside⟩, copies,
      hcopies, rfl, hsame ▸ mapError_eq_ok.mp hhashed⟩
  · intro h
    obtain ⟨hvalid, ⟨canonical, hcanonical, houtside⟩, copies, hcopies, rfl, hhashed⟩ := h
    refine except_bind_eq_ok.mpr ⟨(), hvalid, ?_⟩
    refine except_bind_eq_ok.mpr ⟨canonical, mapError_eq_ok.mpr hcanonical, ?_⟩
    refine except_bind_eq_ok.mpr ⟨(), refuseIf_eq_ok.mpr houtside, ?_⟩
    rw [mapM_relativeInput fun d hd => (validateInputPaths_eq_ok.mp hvalid d hd).1, except_ok_bind]
    refine except_bind_eq_ok.mpr ⟨copies, hcopies, ?_⟩
    refine except_bind_eq_ok.mpr ⟨expected, mapError_eq_ok.mpr hhashed, ?_⟩
    exact except_bind_eq_ok.mpr ⟨(), refuseIf_eq_ok.mpr (not_not.mpr rfl), rfl⟩

theorem hashInputs_of_entries {entries : EntryMap}
    (h : collectEntries c fs workspace step inputs .input = .ok entries) :
    hashInputs c fs workspace step run inputs =
      .ok (hexEncode (c.blake3 (utf8 (inputText (c.blake3 (utf8 run)) entries))).toList) := by
  unfold hashInputs inputManifest
  rw [h]
  rfl

/-- Nothing in what is declared, and in the way to it, keeps it from being copied. -/
structure Copyable (fs : FileSystem) (temporary : TemporaryDirectory) (workspace : Path)
    (inputs : List Path) : Prop where
  links : ∀ d ∈ inputs, LinksStay fs workspace d
  stands : ∀ d ∈ inputs, StandsIn fs workspace inputs d ∨ LeadsAlike fs temporary workspace inputs d

/-- What is copied was hashed, so its links are relative. -/
theorem copyInput_ok (h : Copyable fs temporary workspace inputs)
    (hthere : ∀ d ∈ inputs, ∃ entry, declaredAt fs workspace d = .ok entry) {names : List Name}
    (hnames : names ∈ snapshotPaths inputs) : ∃ tree, copyInput fs workspace names = .ok tree := by
  obtain ⟨d, hd, rfl⟩ := mem_of_mem_snapshotPaths hnames
  rcases h.stands d hd with hstands | halike
  · obtain ⟨names, hkept, rest, tree, hsplit, htree, hentry⟩ := hstands
    have hsame : names = normalNames d.components :=
      eq_of_prefix_snapshotPaths hnames hkept (hsplit ▸ List.prefix_append names rest)
    have hrest : rest = [] := by
      rw [← hsame] at hsplit
      exact List.append_right_eq_self.mp hsplit.symm
    obtain ⟨entry, hdeclared⟩ := hthere d hd
    have hfound := hentry entry hdeclared
    rw [hrest] at hfound
    cases hfound
    have hrelative : RelativeLinks tree := fun inner target hlink =>
      (h.links d hd tree inner target hdeclared hlink).1
    refine ⟨tree, ?_⟩
    rw [copyInput, ← hsame, htree]
    exact copyTree_ok hrelative
  · exact absurd hnames halike.1

/-- **Inputs are copied as they were hashed, and a copy that is used has the expected hash.** -/
theorem take_faithful (c : Crates) (fs : FileSystem) (temporary : TemporaryDirectory)
    (workspace : Path) (step run : String) (inputs : List Path) (expected : String) :
    (validateInputPaths inputs = .ok () →
      hashInputs c fs workspace step run inputs = .ok expected → Outside fs temporary workspace →
      Copyable fs temporary workspace inputs →
      ∃ snapshot, take c fs temporary (copyInput fs workspace) workspace step run inputs expected =
        .ok snapshot) ∧
    ∀ copied snapshot,
      take c fs temporary copied workspace step run inputs expected = .ok snapshot →
        snapshot.paths.Pairwise Tree.Apart ∧
        (∀ d ∈ inputs, ∃ path ∈ snapshot.paths, path <+: normalNames d.components) ∧
        (∀ path ∈ snapshot.paths, ∃ d ∈ inputs, normalNames d.components = path) ∧
        hashInputs c (temporary.holding snapshot.content) temporary.root step run inputs =
          .ok expected := by
  refine ⟨?_, ?_⟩
  · intro hvalid hhash houtside hcopyable
    have hplain := validateInputPaths_eq_ok.mp hvalid
    have hall := fun names hnames => @copyInput_ok fs temporary workspace inputs hcopyable
      (fun d hd => declaredAt_of_hashInputs hhash hd) names hnames
    obtain ⟨copies, hcopies⟩ : ∃ copies,
        copyPaths (copyInput fs workspace) (snapshotPaths inputs) = .ok copies := by
      refine ⟨_, mapM_eq_ok.mpr ⟨?_, rfl⟩⟩
      intro names hnames
      obtain ⟨tree, htree⟩ := hall names hnames
      rw [htree]
      exact ⟨(names, tree), rfl⟩
    have hsame : SameDeclared fs (temporary.holding (Tree.emptyDir.planted copies)) workspace
        temporary.location inputs := by
      refine ⟨fun d hd => (hplain d hd).1, fun d hd => (hplain d hd).2, ?_, hcopyable.links⟩
      intro d hd entry hentry
      rcases hcopyable.stands d hd with hstands | halike
      · exact symlinkMetadata_of_standsIn (hplain d hd).1 hstands hcopies hentry
      · exact halike.2 copies entry hcopies hentry
    exact ⟨_, take_eq_ok.mpr ⟨hvalid, houtside, copies, hcopies, rfl, hashInputs_copied hsame hhash⟩⟩
  · intro copied snapshot htake
    obtain ⟨-, -, copies, hcopies, rfl, hhashed⟩ := take_eq_ok.mp htake
    exact ⟨snapshotPaths_apart inputs, fun d hd => snapshotPaths_cover hd,
      fun path hpath => mem_of_mem_snapshotPaths hpath, hhashed⟩

end Snapshots

/-! A file that is copied, and inputs that are hashed but not copied. -/

def nameT : Name := ⟨[116], by decide⟩
def nameL : Name := ⟨[108], by decide⟩
theorem wellFormed_d : Name.WellFormed [100] := by decide

def nameD : Name := ⟨[100], wellFormed_d⟩

def elsewhere : TemporaryDirectory where
  location := [nameT]
  holding tree := ⟨Tree.emptyDir.put [nameT] tree, []⟩
  holds tree := Tree.descend_put_self Tree.emptyDir [nameT] tree

theorem take_faithful_sample : ∃ snapshot, take cratesOfX (filesOfX [nameA]) elsewhere
    (copyInput (filesOfX [nameA]) (.ofString "/w")) (.ofString "/w") "build" "true" [.ofString "a"]
      "88e1a6f068740d2b0729805078add176d6eb675aad6ebb7846661105337b269d" = .ok snapshot := by
  have hread : declaredAt (filesOfX [nameA]) (.ofString "/w") (.ofString "a") =
      .ok (.file (utf8 "x")) := rfl
  refine (take_faithful cratesOfX (filesOfX [nameA]) elsewhere (.ofString "/w") "build" "true"
    [.ofString "a"] _).1 rfl hashInputs_filesOfX.1 ⟨[nameW], rfl, by decide⟩ ⟨?_, ?_⟩
  · intro d hd entry names target hentry hlink
    cases List.mem_singleton.mp hd
    cases hread.symm.trans hentry
    cases names with
    | nil => cases hlink
    | cons name rest => cases hlink
  · intro d hd
    cases List.mem_singleton.mp hd
    refine Or.inl ⟨[nameA], ?_, [], .file (utf8 "x"), rfl, rfl, ?_⟩
    · rw [snapshotPaths_of_sorted (List.pairwise_singleton _ _)]
      exact List.mem_singleton_self _
    · intro entry hentry
      cases hread.symm.trans hentry
      rfl

/-- A workspace `/w` with a directory `a`, another `d`, and a link. -/
def linked (target : Bytes) : FileSystem where
  root := .dir [nameW] fun _ => .dir [nameA, nameD, nameL] fun name =>
    if name = nameL then .link target else .dir [nameA] fun _ => .file (utf8 "x")
  cwd := []

/-- Inputs in relative links that have a hash, and that cannot be copied. -/
def HashedNotTaken (c : Crates) (fs : FileSystem) (inputs : List Path) : Prop :=
  validateInputPaths inputs = .ok () ∧ Outside fs elsewhere (.ofString "/w") ∧
    RelativeLinks fs.root ∧
    ∃ hash, hashInputs c fs (.ofString "/w") "build" "true" inputs = .ok hash ∧
      ∀ snapshot, take c fs elsewhere (copyInput fs (.ofString "/w")) (.ofString "/w") "build"
        "true" inputs hash ≠ .ok snapshot

theorem relativeLinks_linked {target : Bytes} (h : (Path.ofBytes target).absolute = false) :
    RelativeLinks (linked target).root := by
  have hfile : RelativeLinks (.file (utf8 "x")) := by
    intro names found hlink
    cases names <;> cases hlink
  refine relativeLinks_dir.mpr fun _ _ => relativeLinks_dir.mpr fun name _ => ?_
  split
  · intro names found hlink
    cases names with
    | nil =>
      cases hlink
      exact h
    | cons other rest => cases hlink
  · exact relativeLinks_dir.mpr fun _ _ => hfile

theorem linked_not_taken :
    HashedNotTaken cratesOfX (linked (utf8 "../w/a")) [.ofString "a", .ofString "l"] ∧
      HashedNotTaken cratesOfX (linked (utf8 "d/../a"))
        [.ofString "a", .ofString "l", .ofString "l/a"] := by
  refine ⟨⟨rfl, ⟨_, rfl, by decide⟩, relativeLinks_linked rfl, ?_⟩,
    ⟨rfl, ⟨_, rfl, by decide⟩, relativeLinks_linked rfl, ?_⟩⟩
  · refine ⟨_, hashInputs_of_entries rfl, ?_⟩
    intro snapshot htake
    obtain ⟨-, -, copies, hcopies, rfl, hhash⟩ := take_eq_ok.mp htake
    rw [snapshotPaths_of_sorted (by decide)] at hcopies
    cases hcopies
    cases hhash
  · refine ⟨_, hashInputs_of_entries rfl, ?_⟩
    intro snapshot htake
    obtain ⟨-, -, copies, hcopies, rfl, hhash⟩ := take_eq_ok.mp htake
    rw [snapshotPaths_of_sorted (by decide)] at hcopies
    cases hcopies
    cases hhash

end Attest.Executor.Snapshot
