import Attest.Executor.Schedule

/-! Comprehensive validation of a pipeline, as `pipeline/validation.rs` has it.

It goes over the same rules as loading does, in code of its own, and reports every broken
one with its step and field. Only the errors decide whether a pipeline is valid: the
warnings and notes are left out. Where the graph cannot be built it says nothing, and it
does not look at the schema version. `as_strict_iff` is on which pipelines it is as strict
as loading all the same. -/
namespace Attest.Executor
open Library Library.Fallible Library.TopologicalSort
open Trust (isWhiteSpace)

structure ValidationError where
  step : Option String
  field : Option String
  message : String
deriving DecidableEq

structure ValidationResult where
  errors : List ValidationError
  isValid : Bool
deriving DecidableEq

namespace ValidationResult

def new : ValidationResult := ⟨[], true⟩

def addError (result : ValidationResult) (error : ValidationError) : ValidationResult :=
  ⟨result.errors ++ [error], false⟩

/-- Several errors, one after the other. -/
def addErrors (result : ValidationResult) (errors : List ValidationError) : ValidationResult :=
  errors.foldl addError result

theorem isValid_addErrors (result : ValidationResult) (errors : List ValidationError) :
    (result.addErrors errors).isValid = true ↔ result.isValid = true ∧ errors = [] := by
  induction errors generalizing result with
  | nil => simp [addErrors]
  | cons error rest ih =>
    show ((result.addError error).addErrors rest).isValid = true ↔ _
    rw [ih]
    simp [addError]

end ValidationResult

/-- `Path::is_absolute`. -/
def isAbsolute (path : String) : Bool := path.toList.head? == some '/'

namespace Pipeline
variable (pipeline : Pipeline)

def basicErrors : List ValidationError :=
  (if pipeline.version.isEmpty then [⟨none, some "version", "Pipeline version is required"⟩] else []) ++
  if pipeline.steps.entries = [] then
    [⟨none, some "steps", "Pipeline must contain at least one step"⟩]
  else []

def attestationErrors (entry : String × Step) : List ValidationError :=
  match entry.2.attestation with
  | some attestation =>
    if attestation.attestationType.isEmpty then
      [⟨some entry.1, some "attestation.type", "Attestation type is required"⟩]
    else []
  | none => []

/-- The absolute paths of a list, under the field that declares them. -/
def absolutePaths (name field what : String) (paths : List String) : List ValidationError :=
  (paths.filter isAbsolute).map fun path =>
    ⟨some name, some field, s!"Absolute {what} path not allowed: {path}"⟩

/-- `validate_step_detailed`. -/
def stepErrors (entry : String × Step) : List ValidationError :=
  (if entry.2.run.toList.all isWhiteSpace then
    [⟨some entry.1, some "run", "Step has empty run command"⟩]
  else []) ++
  absolutePaths entry.1 "inputs" "input" entry.2.inputs ++
  absolutePaths entry.1 "outputs" "output" entry.2.outputs

/-- The names of a map are distinct; the source looks all the same. -/
def duplicateErrors : List ValidationError :=
  if pipeline.steps.keys.dedup.length ≠ pipeline.steps.keys.length then
    [⟨none, some "steps", "Duplicate step names detected"⟩]
  else []

def dependencyErrors (entry : String × Step) : List ValidationError :=
  match entry.2.needs with
  | some needs =>
    ((needs.filter fun dep => dep ∉ pipeline.steps.keys).map fun dep =>
      ⟨some entry.1, some "needs", s!"Step depends on unknown step: {dep}"⟩) ++
    if entry.1 ∈ needs then [⟨some entry.1, some "needs", "Step cannot depend on itself"⟩] else []
  | none => []

/-- The passes in their order. Those over security and performance, and the analysis of the
graph, only warn. -/
def validateComprehensive : ValidationResult :=
  let basic := ValidationResult.new.addErrors pipeline.basicErrors
  let attested := basic.addErrors (pipeline.steps.entries.flatMap attestationErrors)
  let steps := (attested.addErrors (pipeline.steps.entries.flatMap stepErrors)).addErrors
    pipeline.duplicateErrors
  steps.addErrors (pipeline.steps.entries.flatMap pipeline.dependencyErrors)

end Pipeline

/-! ### What is reported -/

/-- A step keeps the rules both validators look at. -/
structure KeepsStepRules (entry : String × Step) : Prop where
  command : entry.2.run.toList.all isWhiteSpace = false
  inputs : ∀ path ∈ entry.2.inputs, isAbsolute path = false
  outputs : ∀ path ∈ entry.2.outputs, isAbsolute path = false

/-- A pipeline keeps the rules that comprehensive validation looks at. -/
structure KeepsRules (pipeline : Pipeline) : Prop where
  version : pipeline.version.isEmpty = false
  steps : pipeline.steps.entries ≠ []
  each : ∀ entry ∈ pipeline.steps.entries, KeepsStepRules entry
  needs : ∀ entry ∈ pipeline.steps.entries, ∀ dep ∈ entry.2.needs.getD [],
    dep ∈ pipeline.steps.keys ∧ dep ≠ entry.1
  attestation : ∀ entry ∈ pipeline.steps.entries, ∀ attestation, entry.2.attestation = some attestation →
    attestation.attestationType.isEmpty = false

def SchemaSupported (pipeline : Pipeline) : Prop :=
  ∀ version, pipeline.schemaVersion = some version → version ≤ pipelineSchemaVersion

section Reported
variable {pipeline : Pipeline} {entry : String × Step}

theorem basicErrors_eq_nil : pipeline.basicErrors = [] ↔
    pipeline.version.isEmpty = false ∧ pipeline.steps.entries ≠ [] := by
  unfold Pipeline.basicErrors
  cases pipeline.version.isEmpty with
  | true => simp
  | false => simp

theorem attestationErrors_eq_nil : Pipeline.attestationErrors entry = [] ↔
    ∀ attestation, entry.2.attestation = some attestation →
      attestation.attestationType.isEmpty = false := by
  unfold Pipeline.attestationErrors
  cases entry.2.attestation with
  | none => simp
  | some attestation =>
    by_cases h : attestation.attestationType.isEmpty = true
    · simp only [Option.some.injEq, forall_eq', h]
      simp
    · simp only [if_neg h, Option.some.injEq, forall_eq', true_iff]
      exact Bool.not_eq_true _ ▸ h

theorem absolutePaths_eq_nil {name field what : String} {paths : List String} :
    Pipeline.absolutePaths name field what paths = [] ↔ ∀ path ∈ paths, isAbsolute path = false := by
  simp [Pipeline.absolutePaths, List.filter_eq_nil_iff]

theorem stepErrors_eq_nil : Pipeline.stepErrors entry = [] ↔ KeepsStepRules entry := by
  unfold Pipeline.stepErrors
  rw [List.append_eq_nil_iff, List.append_eq_nil_iff, absolutePaths_eq_nil, absolutePaths_eq_nil]
  constructor
  · intro h
    refine ⟨?_, h.1.2, h.2⟩
    by_contra hblank
    rw [Bool.not_eq_false] at hblank
    rw [if_pos hblank] at h
    cases h.1.1
  · intro h
    refine ⟨⟨?_, h.inputs⟩, h.outputs⟩
    rw [h.command]
    rfl

theorem duplicateErrors_eq_nil : pipeline.duplicateErrors = [] := by
  unfold Pipeline.duplicateErrors
  rw [List.Nodup.dedup pipeline.steps.nodup_keys]
  simp

theorem dependencyErrors_eq_nil : pipeline.dependencyErrors entry = [] ↔
    ∀ dep ∈ entry.2.needs.getD [], dep ∈ pipeline.steps.keys ∧ dep ≠ entry.1 := by
  unfold Pipeline.dependencyErrors
  cases entry.2.needs with
  | none => simp
  | some needs =>
    by_cases hself : entry.1 ∈ needs
    · simp only [if_pos hself, Option.getD_some, List.append_eq_nil_iff]
      constructor
      · intro h
        cases h.2
      · intro h
        exact absurd rfl (h entry.1 hself).2
    · simp only [if_neg hself, Option.getD_some, List.append_nil, List.map_eq_nil_iff,
        List.filter_eq_nil_iff, decide_eq_true_eq, not_not]
      constructor
      · intro h dep hdep
        refine ⟨h dep hdep, ?_⟩
        intro heq
        exact hself (heq ▸ hdep)
      · intro h dep hdep
        exact (h dep hdep).1

/-- What comprehensive validation accepts. -/
theorem isValid_iff : pipeline.validateComprehensive.isValid = true ↔ KeepsRules pipeline := by
  unfold Pipeline.validateComprehensive
  simp only [ValidationResult.isValid_addErrors, ValidationResult.new, true_and, basicErrors_eq_nil,
    List.flatMap_eq_nil_iff, attestationErrors_eq_nil, stepErrors_eq_nil, duplicateErrors_eq_nil,
    dependencyErrors_eq_nil, and_true]
  constructor
  · intro h
    obtain ⟨⟨⟨⟨hversion, hsteps⟩, hattestation⟩, heach⟩, hneeds⟩ := h
    exact ⟨hversion, hsteps, heach, hneeds, hattestation⟩
  · intro h
    exact ⟨⟨⟨⟨h.version, h.steps⟩, h.attestation⟩, h.each⟩, h.needs⟩

end Reported

/-! ### What loading accepts -/

section Loading
variable {pipeline : Pipeline}

theorem checkSchemaVersion_eq_ok :
    checkSchemaVersion pipeline.schemaVersion = .ok () ↔ SchemaSupported pipeline := by
  unfold checkSchemaVersion SchemaSupported
  cases pipeline.schemaVersion with
  | none => simp
  | some version =>
    rw [refuseIf_eq_ok]
    simp [gt_iff_lt, UInt32.not_lt]

theorem Step.validate_eq_ok {entry : String × Step} :
    Step.validate entry.1 entry.2 = .ok () ↔ KeepsStepRules entry := by
  have hfind : ∀ paths : List String,
      (paths.find? fun path => path.toList.head? == some '/') = none ↔
        ∀ path ∈ paths, isAbsolute path = false := by
    intro paths
    simp [List.find?_eq_none, isAbsolute]
  unfold Step.validate
  constructor
  · intro h
    split at h
    next => cases h
    next hblank =>
      split at h
      next => cases h
      next hinputs =>
        split at h
        next => cases h
        next houtputs =>
          exact ⟨Bool.not_eq_true _ ▸ hblank, (hfind _).mp hinputs, (hfind _).mp houtputs⟩
  · intro h
    rw [if_neg (by rw [h.command]; exact Bool.false_ne_true), (hfind _).mpr h.inputs,
      (hfind _).mpr h.outputs]

theorem validateStep_eq_ok {nodes : List String} {entry : String × Step} :
    validateStep nodes entry = .ok () ↔
      KeepsStepRules entry ∧ ∀ dep ∈ entry.2.needs.getD [], dep ∈ nodes := by
  unfold validateStep
  rw [except_bind_eq_ok]
  constructor
  · intro h
    obtain ⟨_, hstep, hneeds⟩ := h
    split at hneeds
    next => cases hneeds
    next hnone =>
      refine ⟨Step.validate_eq_ok.mp hstep, ?_⟩
      simpa [List.find?_eq_none] using hnone
  · intro h
    refine ⟨(), Step.validate_eq_ok.mpr h.1, ?_⟩
    have hnone : (entry.2.needs.getD []).find? (· ∉ nodes) = none := by
      simpa [List.find?_eq_none] using h.2
    rw [hnone]

/-- What loading accepts of what comprehensive validation accepts. -/
theorem validate_eq_ok_iff (h : KeepsRules pipeline) :
    pipeline.validate = .ok () ↔ SchemaSupported pipeline ∧ Acyclic pipeline.needs := by
  have hknown : KnownNeeds pipeline := by
    intro name dep hdep
    by_cases hname : name ∈ pipeline.steps.keys
    · obtain ⟨entry, hentry, rfl⟩ := List.mem_map.mp hname
      rw [needs_of_mem hentry] at hdep
      exact (h.needs entry hentry dep hdep).1
    · rw [needs_eq_nil hname] at hdep
      cases hdep
  unfold Pipeline.validate
  constructor
  · intro hvalid
    obtain ⟨_, hschema, hvalid⟩ := except_bind_eq_ok.mp hvalid
    obtain ⟨_, _, hvalid⟩ := except_bind_eq_ok.mp hvalid
    obtain ⟨_, _, hvalid⟩ := except_bind_eq_ok.mp hvalid
    obtain ⟨dag, hdag, _⟩ := except_bind_eq_ok.mp hvalid
    exact ⟨checkSchemaVersion_eq_ok.mp hschema, acyclic_of_build hdag⟩
  · intro hboth
    obtain ⟨dag, hdag⟩ := build_ok hknown hboth.2
    have hversion : ¬ pipeline.version.isEmpty = true := by
      rw [h.version]
      exact Bool.false_ne_true
    refine except_bind_eq_ok.mpr ⟨(), checkSchemaVersion_eq_ok.mpr hboth.1, ?_⟩
    refine except_bind_eq_ok.mpr ⟨(), refuseIf_eq_ok.mpr hversion, ?_⟩
    refine except_bind_eq_ok.mpr ⟨(), refuseIf_eq_ok.mpr h.steps, ?_⟩
    refine except_bind_eq_ok.mpr ⟨dag, hdag, forM_eq_ok.mpr ?_⟩
    intro entry hentry
    exact validateStep_eq_ok.mpr ⟨h.each entry hentry, fun dep hdep => (h.needs entry hentry dep hdep).1⟩

end Loading

/-- **Comprehensive validation is as strict as loading exactly on the pipelines whose schema
version is supported and whose needs go round in no circle, and on those that break one of
the rules it looks at.** It accepts exactly the pipelines that keep these rules. -/
theorem as_strict_iff (pipeline : Pipeline) :
    (pipeline.validateComprehensive.isValid = true ↔ KeepsRules pipeline) ∧
    ((pipeline.validateComprehensive.isValid = true → pipeline.validate = .ok ()) ↔
      (KeepsRules pipeline → SchemaSupported pipeline ∧ Acyclic pipeline.needs)) := by
  refine ⟨isValid_iff, ?_⟩
  rw [isValid_iff]
  exact forall_congr' validate_eq_ok_iff

/-- Two steps that need each other. -/
def roundPipeline : Pipeline where
  schemaVersion := none
  version := "1"
  name := none
  steps := ⟨[("a", commandStep "true" ["b"]), ("b", commandStep "true" ["a"])], by decide⟩
  env := []

/-- A pipeline of the schema after the one that is supported. -/
def newerPipeline : Pipeline := { fetchBuild with schemaVersion := some 2 }

/-- A circle of two is not reported, and neither is a newer schema. -/
theorem circle_not_reported :
    roundPipeline.validateComprehensive.isValid = true ∧
    roundPipeline.validate =
      .error "Cycle detected in pipeline dependencies: a -> b -> a" ∧
    newerPipeline.validateComprehensive.isValid = true ∧
    newerPipeline.validate =
      .error ("attest.yaml declares schema_version 2 but this attest supports up to 1; " ++
        "upgrade attest to use this file") := by
  refine ⟨by decide +kernel, rfl, by decide +kernel, rfl⟩

end Attest.Executor
