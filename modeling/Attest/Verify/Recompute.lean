import Attest.Evidence.Capsules
import Attest.Executor.Wrap
import Attest.Identity.Der

/-! Recomputing a receipt in a workspace, as `recompute_check` does it.

A receipt of a wrapped command carries its command and its declarations; one of a pipeline is held
against the `attest.yaml` that stands in the workspace, step by step and in both directions. What
`serde_yaml` reads and writes is a parameter. `recompute_pass_iff` says what a pass rests on. -/
namespace Attest.Verify.Recompute
open Library Library.Fallible Storage Hashing Executor
open Trust (Bytes Crates utf8)
open Evidence (CapsuleManifest CapsuleCodec)
open Executor.Wrap (encodeCommand digestText)
open Identity (context)

structure Recomputer where
  crates : Crates
  /-- `serde_yaml::from_str::<Pipeline>`. -/
  readPipeline : String → Except String Pipeline
  /-- `serde_yaml::to_string` of a pipeline. -/
  pipelineYaml : Pipeline → Except String String
  /-- `serde_yaml::from_str::<CapsuleManifest>`. -/
  readManifest : String → Except String CapsuleManifest
  capsules : CapsuleCodec
  /-- `Path::display`. -/
  display : Path → String
  showIo : IoError → String
  /-- `{}` of an error of hashing. -/
  showHashing : HashingError → String
  /-- `{:#}`, with what caused it. -/
  showChain : HashingError → String

section Check
variable (r : Recomputer) (files : FileSystem) (workspace : Path) (receipt : Receipt)

/-! ### A wrapped command -/

/-- The only one there is. -/
def sole {α : Type} (message : String) : List α → Except String α
  | [a] => .ok a
  | _ => .error message

/-- A command that can be handed to the system. -/
def Executable (command : List String) : Prop :=
  (∃ program ∈ command.head?, program ≠ "") ∧ ∀ argument ∈ command, '\x00' ∉ argument.toList

instance (command : List String) : Decidable (Executable command) :=
  inferInstanceAs (Decidable (_ ∧ _))

def wrapped (command : List String) : Except String Unit := do
  refuseIf (¬ Executable command) "wrapped command identity is missing or invalid"
  let step ← sole "wrapped receipt must describe one step" receipt.steps
  let provenance ← context "missing wrapped declarations" receipt.provenance
  let declaration ← sole "wrapped receipt must declare exactly one step's inputs and outputs"
    provenance.steps
  refuseIf (declaration.name ≠ step.name ∨ declaration.needs ≠ [])
    "wrapped declarations do not describe the recorded step"
  refuseIf (step.capsuleHash ≠ none) "wrapped execution cannot claim a capsule"
  let canonical := encodeCommand command
  refuseIf (Executor.Wrap.pipelineHash r.crates canonical ≠ receipt.pipelineHash)
    "wrapped command identity does not match pipeline hash"
  refuseIf (digestText r.crates canonical ≠ declaration.commandHash)
    "wrapped command identity does not match command hash"
  let inputHash ← (hashInputs r.crates files workspace step.name canonical
    (declaration.inputs.map .ofString)).mapError r.showChain
  refuseIf (inputHash ≠ step.inputHash) "wrapped input hash mismatch"
  let outputHash ← (hashOutputs r.crates files workspace step.name
    (declaration.outputs.map .ofString)).mapError r.showChain
  refuseIf (outputHash ≠ step.outputHash) "wrapped output hash mismatch"

def wrappedRecomputeCheck (command : List String) : Check :=
  match wrapped r files workspace receipt command with
  | .ok () => ⟨"recompute", .pass, "wrapped command identity, declared inputs and outputs match; " ++
      "no native pipeline or sandbox is implied"⟩
  | .error error => ⟨"recompute", .fail, error⟩

/-! ### A pipeline -/

/-- `std::fs::read_to_string`. -/
def readToString (path : Path) : Except String String := do
  let bytes ← (readFile files path).mapError r.showIo
  context "stream did not contain valid UTF-8" (String.fromUTF8? ⟨bytes.toArray⟩)

def pipelinePath : Path := workspace.join (.ofString "attest.yaml")

/-- `capsule::manifest_path`. -/
def manifestPath (name : String) : Path :=
  (((workspace.join (.ofString ".attest")).join (.ofString "capsules")).join (.ofString name)).join
    (.ofString "capsule.yaml")

/-- `capsule::load`. -/
def loadCapsule (name : String) : Except String CapsuleManifest := do
  let path := manifestPath workspace name
  let content ← (readToString r files path).mapError fun _ =>
    s!"capsule '{name}' not found (expected {r.display path})"
  let manifest ← (r.readManifest content).mapError ("capsule manifest invalid: " ++ ·)
  manifest.validate
  let recomputed ← manifest.computeHash r.crates r.capsules
  let stored ← context
    "capsule manifest invalid: manifest has no capsule_hash field; re-run `attest capsule init`"
    manifest.capsuleHash
  refuseIf (stored ≠ recomputed)
    (s!"capsule '{name}': stored capsule_hash does not match the manifest " ++
      s!"(stored {stored}, recomputed {recomputed})")
  return manifest

def pipelineProblems (pipeline : Pipeline) : List String :=
  match r.pipelineYaml pipeline with
  | .ok serialized =>
    let recomputed := digestText r.crates serialized
    if recomputed ≠ receipt.pipelineHash then
      [s!"pipeline hash mismatch (receipt {receipt.pipelineHash}, workspace {recomputed})"]
    else []
  | .error err => [s!"cannot re-serialize the workspace pipeline: {err}"]

/-- A step of the pipeline that the receipt does not have. -/
def absentProblems (name : String) : List String :=
  if name ∈ receipt.steps.map StepResult.name then []
  else [s!"step '{name}' is declared in the workspace pipeline but absent from the receipt"]

def capsuleProblems (step : Step) (result : StepResult) : List String :=
  match step.capsule, result.capsuleHash with
  | some name, some recorded =>
    match loadCapsule r files workspace name with
    | .ok manifest =>
      let recomputed := manifest.capsuleHash.getD ""
      if recomputed ≠ recorded then
        [s!"step '{result.name}': capsule hash mismatch (receipt {recorded}, workspace {recomputed})"]
      else []
    | .error err => [s!"step '{result.name}': capsule '{name}': {err}"]
  | some name, none =>
    [s!"step '{result.name}' declares capsule '{name}' but the receipt records no capsule_hash"]
  | none, some _ =>
    [s!"step '{result.name}' records a capsule_hash but the workspace pipeline declares no capsule"]
  | none, none => []

/-- A hash of the workspace, against the one of the receipt. -/
def hashProblems (kind name recorded : String) (found : Except HashingError String) : List String :=
  match found with
  | .ok recomputed =>
    if recomputed ≠ recorded then
      [s!"step '{name}': {kind} hash mismatch (receipt {recorded}, workspace {recomputed})"]
    else []
  | .error err => [s!"step '{name}': {r.showHashing err}"]

def stepProblems (pipeline : Pipeline) (result : StepResult) : List String :=
  match pipeline.steps.lookup result.name with
  | none => [s!"step '{result.name}' is not declared in the workspace pipeline"]
  | some step =>
    capsuleProblems r files workspace step result ++
    hashProblems r "input" result.name result.inputHash
      (hashInputs r.crates files workspace result.name step.run (step.inputs.map .ofString)) ++
    hashProblems r "output" result.name result.outputHash
      (hashOutputs r.crates files workspace result.name (step.outputs.map .ofString))

def nativeProblems (pipeline : Pipeline) : List String :=
  pipelineProblems r receipt pipeline ++ pipeline.steps.keys.flatMap (absentProblems receipt) ++
    receipt.steps.flatMap (stepProblems r files workspace pipeline)

def nativeRecomputeCheck : Check :=
  let path := pipelinePath workspace
  match readToString r files path with
  | .error err => ⟨"recompute", .fail, s!"cannot read {r.display path}: {err}"⟩
  | .ok content =>
    match r.readPipeline content with
    | .error err => ⟨"recompute", .fail, s!"cannot parse {r.display path}: {err}"⟩
    | .ok pipeline =>
      let problems := nativeProblems r files workspace receipt pipeline
      if problems = [] then
        ⟨"recompute", .pass, "pipeline, step inputs and step outputs match the workspace"⟩
      else ⟨"recompute", .fail, "; ".intercalate problems⟩

/-- `Path::exists`. -/
def standsAt (path : Path) : Bool := (entryAt files true path).isOk

def recomputeCheck : Check :=
  match receipt.provenance.bind ExecutionProvenance.execution with
  | some (.wrapped command) => wrappedRecomputeCheck r files workspace receipt command
  | some .native => nativeRecomputeCheck r files workspace receipt
  | none =>
    if standsAt files (pipelinePath workspace) then
      let result := nativeRecomputeCheck r files workspace receipt
      { result with
        detail := s!"legacy receipt, checked against native pipeline: {result.detail}" }
    else ⟨"recompute", .skipped, "legacy receipt has no execution descriptor; wrapped " ++
      "recomputation requires recorded command and declarations, or a matching native attest.yaml"⟩

end Check

/-! ### What a pass rests on -/

section Recomputes
variable {r : Recomputer} {files : FileSystem} {workspace : Path} {receipt : Receipt}

/-- The receipt describes this command, and its declared files are as it says. -/
structure WrappedAs (r : Recomputer) (files : FileSystem) (workspace : Path) (receipt : Receipt)
    (command : List String) : Prop where
  executable : Executable command
  pipelineHash : receipt.pipelineHash = Executor.Wrap.pipelineHash r.crates (encodeCommand command)
  described : ∃ step provenance declaration, receipt.steps = [step] ∧
    receipt.provenance = some provenance ∧ provenance.steps = [declaration] ∧
    declaration.name = step.name ∧ declaration.needs = [] ∧ step.capsuleHash = none ∧
    declaration.commandHash = digestText r.crates (encodeCommand command) ∧
    hashInputs r.crates files workspace step.name (encodeCommand command)
      (declaration.inputs.map .ofString) = .ok step.inputHash ∧
    hashOutputs r.crates files workspace step.name (declaration.outputs.map .ofString) =
      .ok step.outputHash

/-- A step of the receipt is the step of the pipeline, with its capsule and its files. -/
structure StepAs (r : Recomputer) (files : FileSystem) (workspace : Path) (step : Step)
    (result : StepResult) : Prop where
  capsule : match step.capsule with
    | none => result.capsuleHash = none
    | some name => ∃ manifest recorded, loadCapsule r files workspace name = .ok manifest ∧
        manifest.capsuleHash = some recorded ∧ result.capsuleHash = some recorded
  inputs : hashInputs r.crates files workspace result.name step.run (step.inputs.map .ofString) =
    .ok result.inputHash
  outputs : hashOutputs r.crates files workspace result.name (step.outputs.map .ofString) =
    .ok result.outputHash

/-- The pipeline of the workspace is the one of the receipt, step by step and none left out. -/
structure NativeAs (r : Recomputer) (files : FileSystem) (workspace : Path) (receipt : Receipt)
    (pipeline : Pipeline) : Prop where
  declared : ∃ content, readToString r files (pipelinePath workspace) = .ok content ∧
    r.readPipeline content = .ok pipeline
  pipelineHash : ∃ serialized, r.pipelineYaml pipeline = .ok serialized ∧
    digestText r.crates serialized = receipt.pipelineHash
  attested : ∀ name ∈ pipeline.steps.keys, ∃ result ∈ receipt.steps, result.name = name
  steps : ∀ result ∈ receipt.steps, ∃ step, pipeline.steps.lookup result.name = some step ∧
    StepAs r files workspace step result

theorem sole_eq_ok {α : Type} {message : String} {items : List α} {a : α} :
    sole message items = .ok a ↔ items = [a] := by
  cases items with
  | nil => simp [sole]
  | cons b rest =>
    cases rest with
    | nil => simp [sole]
    | cons c rest => simp [sole]

theorem wrapped_eq_ok {command : List String} :
    wrapped r files workspace receipt command = .ok () ↔
      WrappedAs r files workspace receipt command := by
  simp only [wrapped, except_bind_eq_ok, refuseIf_eq_ok, exists_const, not_not, not_or, sole_eq_ok,
    Identity.context_eq_ok, mapError_eq_ok]
  constructor
  · intro h
    obtain ⟨hexecutable, step, hstep, provenance, hprovenance, declaration, hdeclaration, hnames,
      hcapsule, hpipeline, hcommand, inputHash, hinputs, rfl, outputHash, houtputs, rfl⟩ := h
    exact ⟨hexecutable, hpipeline.symm, step, provenance, declaration, hstep, hprovenance,
      hdeclaration, hnames.1, hnames.2, hcapsule, hcommand.symm, hinputs, houtputs⟩
  · intro h
    obtain ⟨step, provenance, declaration, hstep, hprovenance, hdeclaration, hname, hneeds, hcapsule,
      hcommand, hinputs, houtputs⟩ := h.described
    exact ⟨h.executable, step, hstep, provenance, hprovenance, declaration, hdeclaration,
      ⟨hname, hneeds⟩, hcapsule, h.pipelineHash.symm, hcommand.symm, _, hinputs, rfl, _, houtputs, rfl⟩

theorem wrappedRecompute_pass {command : List String} :
    (wrappedRecomputeCheck r files workspace receipt command).status = .pass ↔
      WrappedAs r files workspace receipt command := by
  rw [← wrapped_eq_ok, wrappedRecomputeCheck]
  cases wrapped r files workspace receipt command with
  | error error => simp
  | ok u => simp

theorem hashProblems_eq_nil {kind name recorded : String} {found : Except HashingError String} :
    hashProblems r kind name recorded found = [] ↔ found = .ok recorded := by
  cases found with
  | error err => simp [hashProblems]
  | ok recomputed => simp [hashProblems]

/-- A manifest that is loaded has the hash that was computed of it. -/
theorem isSome_of_loadCapsule {name : String} {manifest : CapsuleManifest}
    (h : loadCapsule r files workspace name = .ok manifest) :
    ∃ recorded, manifest.capsuleHash = some recorded := by
  obtain ⟨_, _, h⟩ := except_bind_eq_ok.mp h
  obtain ⟨found, _, h⟩ := except_bind_eq_ok.mp h
  obtain ⟨_, _, h⟩ := except_bind_eq_ok.mp h
  obtain ⟨_, _, h⟩ := except_bind_eq_ok.mp h
  obtain ⟨stored, hstored, h⟩ := except_bind_eq_ok.mp h
  obtain ⟨_, _, h⟩ := except_bind_eq_ok.mp h
  obtain rfl := Except.ok.inj h
  exact ⟨stored, Identity.context_eq_ok.mp hstored⟩

theorem capsuleProblems_eq_nil {step : Step} {result : StepResult} :
    capsuleProblems r files workspace step result = [] ↔
      match step.capsule with
      | none => result.capsuleHash = none
      | some name => ∃ manifest recorded, loadCapsule r files workspace name = .ok manifest ∧
          manifest.capsuleHash = some recorded ∧ result.capsuleHash = some recorded := by
  unfold capsuleProblems
  cases hdeclared : step.capsule with
  | none =>
    cases hrecorded : result.capsuleHash with
    | none => simp
    | some recorded => simp
  | some name =>
    cases hrecorded : result.capsuleHash with
    | none => simp
    | some recorded =>
      simp only
      cases hload : loadCapsule r files workspace name with
      | error err => simp
      | ok manifest =>
        obtain ⟨stored, hstored⟩ := isSome_of_loadCapsule hload
        simp [hstored, eq_comm]

theorem stepProblems_eq_nil {pipeline : Pipeline} {result : StepResult} :
    stepProblems r files workspace pipeline result = [] ↔
      ∃ step, pipeline.steps.lookup result.name = some step ∧ StepAs r files workspace step result := by
  unfold stepProblems
  cases hlookup : pipeline.steps.lookup result.name with
  | none => simp
  | some step =>
    simp only [List.append_eq_nil_iff, capsuleProblems_eq_nil, hashProblems_eq_nil,
      Option.some.injEq, exists_eq_left']
    constructor
    · intro h
      exact ⟨h.1.1, h.1.2, h.2⟩
    · intro h
      exact ⟨⟨h.capsule, h.inputs⟩, h.outputs⟩

theorem pipelineProblems_eq_nil {pipeline : Pipeline} : pipelineProblems r receipt pipeline = [] ↔
    ∃ serialized, r.pipelineYaml pipeline = .ok serialized ∧
      digestText r.crates serialized = receipt.pipelineHash := by
  unfold pipelineProblems
  cases r.pipelineYaml pipeline with
  | error err => simp
  | ok serialized => simp

theorem absentProblems_eq_nil {name : String} : absentProblems receipt name = [] ↔
    ∃ result ∈ receipt.steps, result.name = name := by
  unfold absentProblems
  rw [ite_eq_left_iff, ← List.mem_map]
  simp

theorem nativeRecompute_pass : (nativeRecomputeCheck r files workspace receipt).status = .pass ↔
    ∃ pipeline, NativeAs r files workspace receipt pipeline := by
  unfold nativeRecomputeCheck
  simp only
  cases hcontent : readToString r files (pipelinePath workspace) with
  | error err =>
    simp only [reduceCtorEq, false_iff]
    intro h
    obtain ⟨pipeline, h⟩ := h
    obtain ⟨content, hread, _⟩ := h.declared
    rw [hcontent] at hread
    cases hread
  | ok content =>
    simp only
    cases hpipeline : r.readPipeline content with
    | error err =>
      simp only [reduceCtorEq, false_iff]
      intro h
      obtain ⟨pipeline, h⟩ := h
      obtain ⟨other, hread, hparse⟩ := h.declared
      obtain rfl := Except.ok.inj (hcontent.symm.trans hread)
      rw [hpipeline] at hparse
      cases hparse
    | ok pipeline =>
      have hstatus : (if nativeProblems r files workspace receipt pipeline = [] then
          (⟨"recompute", .pass, "pipeline, step inputs and step outputs match the workspace"⟩ : Check)
          else ⟨"recompute", .fail, "; ".intercalate
            (nativeProblems r files workspace receipt pipeline)⟩).status = .pass ↔
          nativeProblems r files workspace receipt pipeline = [] := by
        split
        next h => simp [h]
        next h => simp [h]
      rw [hstatus, nativeProblems]
      simp only [List.append_eq_nil_iff, List.flatMap_eq_nil_iff, pipelineProblems_eq_nil,
        absentProblems_eq_nil, stepProblems_eq_nil]
      constructor
      · intro h
        exact ⟨pipeline, ⟨content, hcontent, hpipeline⟩, h.1.1, h.1.2, h.2⟩
      · intro h
        obtain ⟨other, h⟩ := h
        obtain ⟨content', hread, hparse⟩ := h.declared
        obtain rfl := Except.ok.inj (hcontent.symm.trans hread)
        obtain rfl := Except.ok.inj (hpipeline.symm.trans hparse)
        exact ⟨⟨h.pipelineHash, h.attested⟩, h.steps⟩

/-- A file that is read stands there. -/
theorem standsAt_of_read {path : Path} {content : String}
    (h : readToString r files path = .ok content) : standsAt files path = true := by
  obtain ⟨bytes, hbytes, _⟩ := except_bind_eq_ok.mp h
  have hread := mapError_eq_ok.mp hbytes
  obtain ⟨tree, htree, _⟩ := except_bind_eq_ok.mp hread
  rw [standsAt, htree]
  rfl

/-- How the receipt says that it came about; an old one says nothing. -/
def Recomputes (r : Recomputer) (files : FileSystem) (workspace : Path) (receipt : Receipt) : Prop :=
  match receipt.provenance.bind ExecutionProvenance.execution with
  | some (.wrapped command) => WrappedAs r files workspace receipt command
  | _ => ∃ pipeline, NativeAs r files workspace receipt pipeline

/-- **What a receipt that recomputes has in common with the workspace.** -/
theorem recompute_pass_iff : (recomputeCheck r files workspace receipt).status = .pass ↔
    Recomputes r files workspace receipt := by
  unfold recomputeCheck Recomputes
  cases receipt.provenance.bind ExecutionProvenance.execution with
  | some descriptor =>
    cases descriptor with
    | wrapped command => exact wrappedRecompute_pass
    | native => exact nativeRecompute_pass
  | none =>
    simp only
    split
    next => exact nativeRecompute_pass
    next habsent =>
      simp only [reduceCtorEq, false_iff]
      intro h
      obtain ⟨pipeline, h⟩ := h
      obtain ⟨content, hread, _⟩ := h.declared
      exact habsent (standsAt_of_read hread)

end Recomputes

end Attest.Verify.Recompute
