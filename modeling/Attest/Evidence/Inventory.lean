import Attest.Hashing.Manifest
import Attest.Library.Fallible
import Attest.Verify.Checks

/-! The artifacts a receipt lists, as `evidence.rs` checks them.

The list of artifacts is held against the output hash of every step: the manifest of a step
is put together again from its artifacts and hashed. So leaving an artifact out is noticed
as well as changing one. `inventory_eq_ok` says what a list that passes is. -/
namespace Attest.Evidence
open Library Library.Fallible Storage Hashing
open Trust (Bytes Crates utf8 hexEncode)
open Verify (isDigest)

/-- Why evidence is refused. An I/O error keeps its source: a file that is not there is told
from one that cannot be read. -/
inductive EvidenceError where
  | message (text : String)
  | unsafePath (path : String)
  | ancestor (path : Path)
  | tooLarge (path : Path) (size limit : Nat)
  | io (context : String) (source : IoError)

/-! ### Paths and bytes -/

/-- A path below its root by its text alone. -/
def SafePath (path : String) : Prop :=
  path ≠ "" ∧ (∀ c ∈ path.toList, c ∉ ['\\', ':', '\n', '\r', '\x00']) ∧
    (∀ part ∈ path.toList.splitOn '/', part ≠ [] ∧ part ≠ ['.'] ∧ part ≠ ['.', '.']) ∧
    (Path.ofString path).absolute = false ∧
    ∀ part ∈ (Path.ofString path).parts, part ≠ .parentDir

instance (path : String) : Decidable (SafePath path) :=
  inferInstanceAs (Decidable (_ ∧ _ ∧ _ ∧ _ ∧ _))

def safePath (path : String) : Except EvidenceError Unit :=
  refuseIf (¬ SafePath path) (.unsafePath path)

/-- `ArchiveLimits::default().entry`. -/
def entryLimit : Nat := 64 * 1024 * 1024

/-- The bytes of what is at the path of an artifact, if it is of its kind. -/
def leafBytes (artifact : ArtifactInfo) (current : Path) : Tree → Except EvidenceError Bytes
  | .file bytes =>
    if artifact.kind = "file" then
      if entryLimit < bytes.length then .error (.tooLarge current bytes.length entryLimit)
      else .ok bytes
    else .error (.message ("artifact kind changed or is unsupported: " ++ artifact.path))
  | .link target =>
    if artifact.kind = "symlink" then
      match String.fromUTF8? ⟨target.toArray⟩ with
      | none => .error (.message "artifact link target is not UTF-8")
      | some _ => .ok target
    else .error (.message ("artifact kind changed or is unsupported: " ++ artifact.path))
  | .dir _ _ => .error (.message ("artifact kind changed or is unsupported: " ++ artifact.path))

/-- Down the parts of a path, through directories only. -/
def artifactAt (fs : FileSystem) (artifact : ArtifactInfo) :
    Path → List Component → Except EvidenceError Bytes
  | _, [] => .error (.message "empty artifact path")
  | base, part :: rest =>
    let current : Path := ⟨base.absolute, base.components ++ [part]⟩
    match symlinkMetadata fs current with
    | .error e => .error (.io ("cannot read artifact " ++ artifact.path) e)
    | .ok entry =>
      if rest = [] then leafBytes artifact current entry
      else if entry.isDir then artifactAt fs artifact current rest
      else .error (.ancestor current)

def artifactBytes (fs : FileSystem) (root : Path) (artifact : ArtifactInfo) :
    Except EvidenceError Bytes := do
  safePath artifact.path
  artifactAt fs artifact root (Path.ofString artifact.path).parts

def checkDigest (c : Crates) (artifact : ArtifactInfo) (bytes : Bytes) : Except EvidenceError Unit :=
  refuseIf (hexEncode (c.blake3 bytes).toList ≠ artifact.digest)
    (.message ("artifact digest mismatch: " ++ artifact.path))

/-! ### The inventory -/

def artifacts (receipt : Receipt) : Except EvidenceError (List ArtifactInfo) :=
  match receipt.provenance with
  | none => .error (.message "receipt has no artifact provenance")
  | some provenance =>
    if provenance.artifacts = [] then .error (.message "receipt declares no artifact files")
    else .ok provenance.artifacts

/-- The artifacts of each step by their paths. -/
abbrev Manifests := String → SortedMap String ArtifactInfo

def addArtifact (steps : List String) (manifests : Manifests) (artifact : ArtifactInfo) :
    Except EvidenceError Manifests := do
  safePath artifact.path
  refuseIf (artifact.step ∉ steps) (.message "artifact names an unknown step")
  refuseIf (artifact.algorithm ≠ "blake3") (.message "unsupported artifact digest algorithm")
  refuseIf (artifact.kind ≠ "file" ∧ artifact.kind ≠ "symlink")
    (.message "unsupported artifact kind")
  refuseIf (isDigest artifact.digest = false) (.message "invalid artifact digest")
  refuseIf ((manifests artifact.step).lookup artifact.path ≠ none)
    (.message "duplicate artifact in step")
  return Function.update manifests artifact.step
    ((manifests artifact.step).insert artifact.path artifact)

def artifactLine (artifact : ArtifactInfo) : String :=
  (if artifact.kind = "file" then "f" else "l") ++ ":" ++ artifact.digest

/-- The manifest a step's artifacts make. -/
def manifestOf (entries : SortedMap String ArtifactInfo) : String :=
  entries.entries.foldl (fun manifest entry => pushEntry manifest (artifactLine entry.2) entry.1)
    (manifestHeader ++ "\n")

def checkStep (c : Crates) (manifests : Manifests) (step : StepResult) :
    Except EvidenceError Unit :=
  refuseIf (hexEncode (c.blake3 (utf8 (manifestOf (manifests step.name)))).toList ≠ step.outputHash)
    (.message ("artifact inventory does not match output hash for " ++ step.name))

def inventory (c : Crates) (receipt : Receipt) : Except EvidenceError Unit := do
  refuseIf (¬ (receipt.steps.map StepResult.name).Nodup) (.message "duplicate step names")
  let listed ← artifacts receipt
  let manifests ← listed.foldlM (addArtifact (receipt.steps.map StepResult.name)) fun _ => .empty
  receipt.steps.forM (checkStep c manifests)

/-! ### What a list that passes is -/

/-- The artifacts of a step by their paths, from the whole list. -/
def rebuilt (listed : List ArtifactInfo) (step : String) : SortedMap String ArtifactInfo :=
  SortedMap.empty.insertAll
    ((listed.filter fun artifact => artifact.step == step).map fun artifact => (artifact.path, artifact))

/-- The artifacts give every step's output hash again. -/
def Inventoried (c : Crates) (steps : List StepResult) (listed : List ArtifactInfo) : Prop :=
  ∀ step ∈ steps,
    hexEncode (c.blake3 (utf8 (manifestOf (rebuilt listed step.name)))).toList = step.outputHash

/-- What an artifact has to be to be listed. -/
structure Listable (steps : List String) (artifact : ArtifactInfo) : Prop where
  path : SafePath artifact.path
  step : artifact.step ∈ steps
  algorithm : artifact.algorithm = "blake3"
  kind : artifact.kind = "file" ∨ artifact.kind = "symlink"
  digest : isDigest artifact.digest = true

section Inventory
variable {c : Crates} {receipt : Receipt} {steps : List String} {listed : List ArtifactInfo}
  {manifests manifests' : Manifests} {artifact : ArtifactInfo}

theorem addArtifact_eq_ok (h : addArtifact steps manifests artifact = .ok manifests') :
    Listable steps artifact ∧ manifests' = Function.update manifests artifact.step
      ((manifests artifact.step).insert artifact.path artifact) := by
  simp only [addArtifact, safePath, except_bind_eq_ok, refuseIf_eq_ok, exists_const, not_not, pure,
    Except.pure, Except.ok.injEq, not_and, Bool.not_eq_false] at h
  obtain ⟨hpath, hstep, halgorithm, hkind, hdigest, _, rfl⟩ := h
  refine ⟨⟨hpath, hstep, halgorithm, ?_, hdigest⟩, rfl⟩
  by_cases hfile : artifact.kind = "file"
  · exact .inl hfile
  · exact .inr (hkind hfile)

theorem foldlM_addArtifact (h : listed.foldlM (addArtifact steps) manifests = .ok manifests') :
    (∀ artifact ∈ listed, Listable steps artifact) ∧
      ∀ step, manifests' step = (manifests step).insertAll
        ((listed.filter fun artifact => artifact.step == step).map fun artifact =>
          (artifact.path, artifact)) := by
  induction listed generalizing manifests with
  | nil =>
    cases h
    exact ⟨by simp, fun _ => rfl⟩
  | cons artifact rest ih =>
    rw [List.foldlM_cons] at h
    obtain ⟨next, hnext, h⟩ := except_bind_eq_ok.mp h
    obtain ⟨hlistable, rfl⟩ := addArtifact_eq_ok hnext
    obtain ⟨hrest, hmanifests⟩ := ih h
    refine ⟨?_, ?_⟩
    · intro other hother
      rcases List.mem_cons.mp hother with rfl | hother
      · exact hlistable
      · exact hrest other hother
    · intro step
      rw [hmanifests step, List.filter_cons]
      by_cases hstep : artifact.step = step
      · subst hstep
        rw [Function.update_self, beq_self_eq_true, if_pos rfl]
        rfl
      · rw [Function.update_of_ne (Ne.symm hstep), beq_eq_false_iff_ne.mpr hstep]
        rfl

theorem artifacts_eq_ok : artifacts receipt = .ok listed ↔
    ∃ provenance, receipt.provenance = some provenance ∧ provenance.artifacts = listed ∧ listed ≠ [] := by
  unfold artifacts
  cases receipt.provenance with
  | none => simp
  | some provenance =>
    by_cases hnil : provenance.artifacts = []
    · simp only [hnil, if_true, Option.some.injEq, exists_eq_left', reduceCtorEq, false_iff]
      intro h
      exact h.2 h.1.symm
    · simp only [hnil, if_false, Option.some.injEq, exists_eq_left', Except.ok.injEq]
      constructor
      · intro h
        exact ⟨h, h ▸ hnil⟩
      · intro h
        exact h.1

/-- What an inventory that passes says. -/
theorem inventory_eq_ok (h : inventory c receipt = .ok ()) :
    ∃ listed, artifacts receipt = .ok listed ∧ (receipt.steps.map StepResult.name).Nodup ∧
      (∀ artifact ∈ listed, Listable (receipt.steps.map StepResult.name) artifact) ∧
      Inventoried c receipt.steps listed := by
  simp only [inventory, except_bind_eq_ok, refuseIf_eq_ok, exists_const, not_not] at h
  obtain ⟨hnodup, listed, hlisted, manifests, hmanifests, hsteps⟩ := h
  obtain ⟨hlistable, hrebuilt⟩ := foldlM_addArtifact hmanifests
  refine ⟨listed, hlisted, hnodup, hlistable, ?_⟩
  intro step hstep
  have hcheck := forM_eq_ok.mp hsteps step hstep
  rw [checkStep, refuseIf_eq_ok, not_not, hrebuilt] at hcheck
  exact hcheck

end Inventory

end Attest.Evidence
