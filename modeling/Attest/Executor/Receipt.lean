import Attest.Executor.Schedule
import Attest.Sandbox.Backing

/-! The receipt of a run, as the end of `Executor::run` puts it together.

The steps are the recorded results, the artifacts those the executed steps left, and the
isolation block is that of the sandbox of this run with a row for the declared inputs. Here
is also what one step can do, for the properties of whole runs. -/
namespace Attest.Executor
open Library Library.Fallible Hashing
open Trust (Bytes Crates DateTime utf8 hexEncode)
open Storage
open Sandbox (SandboxConfig Platform ContainerRuntime ContainerConfig isolationReport unisolatedReport)

/-! ### The sandbox of a run -/

/-- `ContainerUtils::secure_attest_config`, with the runtime that is found. -/
def secureAttestConfig (detected : ContainerRuntime) (image : String) : ContainerConfig where
  image := image
  volumes := []
  environment := [("ATTEST_CONTAINER_MODE", "1"), ("HOME", "/tmp"), ("TMPDIR", "/tmp")]
  user := some "65534:65534"
  entrypoint := none
  runtime := detected

def createDefaultSandboxConfig (detected : ContainerRuntime) (config : ExecutorConfig) :
    SandboxConfig where
  isolationLevel := if config.containerImage.isSome then .container else .process
  resourceLimits := ⟨none, some ⟨"1"⟩, none, some 1000⟩
  networkPolicy := .disabled
  containerConfig := config.containerImage.map (secureAttestConfig detected)
  seccompProfile := some "minimal"
  securityLevel := .minimal
  inheritEnvironment := !config.hermeticEnv

/-- The sandbox of `Executor::with_mode`, where there is one. -/
def sandboxOf (detected : ContainerRuntime) (config : ExecutorConfig) : Option SandboxConfig :=
  if config.isolated then
    let sandbox := config.sandboxConfig.getD (createDefaultSandboxConfig detected config)
    some (if config.hermeticEnv then { sandbox with inheritEnvironment := false } else sandbox)
  else none

/-! ### The isolation block -/

def inputsControl (platform : Platform) (held : InputsHeld) : IsolationControl :=
  if held.executed = 0 then
    ⟨"inputs", .notEnforced, "no step executed (every step was a cache hit)"⟩
  else if held.inCapsule = held.executed then
    ⟨"inputs", .enforced,
      "every step ran in a capsule with its declared inputs mounted read-only from a " ++
      "snapshot taken at hashing time: the runtime refuses writes from inside, and a " ++
      "change on the host during the step never reaches the step's view"⟩
  else if held.guardApplied then
    ⟨"inputs", .notEnforced,
      "write bits dropped on declared inputs while each step ran, which refuses a " ++
      "plain write but not a step that restores the bits, changes a file and puts " ++
      "it back before it ends; changes still present after the step are detected " ++
      "by re-hashing, changes undone before it ends are not. Only a capsule " ++
      "enforces this (" ++ toString held.inCapsule ++ " of " ++ toString held.executed ++
      " steps ran in one)"⟩
  else if platform.unix then
    ⟨"inputs", .notEnforced,
      "running as root, permission bits do not bind; changes to declared inputs are " ++
      "detected by re-hashing after the step, not prevented"⟩
  else
    ⟨"inputs", .notAvailable,
      "no read-only view on this platform; changes to declared inputs are detected by " ++
      "re-hashing after the step, not prevented"⟩

/-- The report of the sandbox, or of its absence. -/
def baseReport (platform : Platform) (detected : ContainerRuntime) (config : ExecutorConfig) :
    IsolationReport :=
  match sandboxOf detected config with
  | some sandbox => isolationReport platform sandbox config.hermeticEnv
  | none => unisolatedReport platform config.hermeticEnv

def isolationOf (platform : Platform) (detected : ContainerRuntime) (config : ExecutorConfig)
    (results : List StepResult) (held : InputsHeld) : IsolationReport :=
  let base := baseReport platform detected config
  { base with
    capsuleSteps := (results.filter fun result => result.capsuleHash.isSome).map StepResult.name
    controls := base.controls ++ [inputsControl platform held] }

/-! ### The receipt -/

/-- What the receipt records beside the steps. -/
structure ReceiptFacts where
  pipelineHash : String
  timestamp : DateTime
  totalDurationSecs : UInt64
  attestVersion : String
  /-- `provenance::collect` and the declared steps; it lists no artifacts yet. -/
  provenance : ExecutionProvenance
  causalEvents : List String
  causalChainHash : Option String

/-- The receipt before it is signed. -/
def receiptOf (platform : Platform) (detected : ContainerRuntime) (config : ExecutorConfig)
    (facts : ReceiptFacts) (st : RunState) : Receipt where
  schemaVersion := some receiptSchemaVersion
  pipelineHash := facts.pipelineHash
  steps := st.recorded.map Prod.snd
  timestamp := facts.timestamp
  totalDurationSecs := facts.totalDurationSecs
  signature := none
  signerPublicKey := none
  attestVersion := facts.attestVersion
  causalEvents := facts.causalEvents
  causalChainHash := facts.causalChainHash
  reproducibility := none
  provenance := some { facts.provenance with artifacts := st.progress.artifacts }
  timestampToken := none
  isolation := some
    (isolationOf platform detected config (st.recorded.map Prod.snd) st.progress.held)

/-! ### What one step can do -/

section Step
variable {c : Crates} {host : Host} {config : ExecutorConfig} {pipeline : Pipeline} {name : String}
  {step : Step} {progress next : Progress} {result : StepResult} {capsuleHash : Option String}
  {inputHash : String}

/-- What an executed step leaves: its result, and its artifacts beside those there are. -/
structure Executed (c : Crates) (host : Host) (name : String) (step : Step)
    (capsuleHash : Option String) (progress : Progress) (result : StepResult) (next : Progress) :
    Prop where
  named : result.name = name
  fresh : result.cacheHit = false
  capsule : result.capsuleHash = capsuleHash
  held : ∃ guard, next.held = progress.held.add capsuleHash.isSome guard
  outputs : ∃ added, outputsWithArtifacts c next.world.files host.workspace name
      (step.outputs.map .ofString) = .ok (result.outputHash, added) ∧
    next.artifacts = progress.artifacts ++ added

theorem executeStep_eq_ok
    (h : executeStep c host config pipeline name step capsuleHash inputHash progress =
      .ok (result, next)) : Executed c host name step capsuleHash progress result next := by
  simp only [executeStep, except_bind_eq_ok, mapError_eq_ok, Prod.exists] at h
  obtain ⟨guard, _, execution, world, _, inputsAfter, _, _, _, outputHash, added, houtputs, h⟩ := h
  cases h
  exact ⟨rfl, rfl, rfl, ⟨guard, rfl⟩, added, houtputs, rfl⟩

/-- The entry a step is served from in a state, if it is. -/
def servedIn (c : Crates) (host : Host) (config : ExecutorConfig) (pipeline : Pipeline)
    (progress : Progress) (name : String) (step : Step) : Option CacheEntry :=
  match step.capsule.mapM (host.loadCapsule progress.world.files step),
    computeInputHash c host progress.world.files name step with
  | .ok capsuleHash, .ok inputHash =>
    (servedEntry c host progress.world name step (contentHash c (host.shape step) name inputHash
      (stepEnv config pipeline name step capsuleHash))).1
  | _, _ => none

/-- A look into the cache changes no file of the workspace. -/
theorem files_getCachedEntry {world : World} {key : String} :
    (getCachedEntry world key).2.files = world.files := by
  unfold getCachedEntry
  split
  next => rfl
  next =>
    split
    next => rfl
    next => rfl

/-- Everything one step can do: it is served from an entry, or executed. -/
theorem performStep_eq_ok
    (h : performStep c host config pipeline name step progress = .ok (result, next)) :
    (∃ entry, servedIn c host config pipeline progress name step = some entry ∧
      result = { entry.result with cacheHit := true } ∧ next.held = progress.held ∧
      next.artifacts = progress.artifacts) ∨
    (servedIn c host config pipeline progress name step = none ∧
      ∃ capsuleHash, step.capsule.mapM (host.loadCapsule progress.world.files step) =
          .ok capsuleHash ∧
        Executed c host name step capsuleHash progress result next) := by
  simp only [performStep, except_bind_eq_ok, mapError_eq_ok] at h
  obtain ⟨capsuleHash, hcapsule, inputHash, hinput, h⟩ := h
  simp only [servedIn, hcapsule, hinput]
  split at h
  next entry world hserved =>
    cases h
    rw [hserved]
    exact .inl ⟨entry, rfl, rfl, rfl, rfl⟩
  next world hserved =>
    rw [hserved]
    obtain ⟨hname, hfresh, hcap, hheld, houtputs⟩ := executeStep_eq_ok h
    exact .inr ⟨rfl, capsuleHash, rfl, hname, hfresh, hcap, hheld, houtputs⟩

/-- A step whose key is known. -/
theorem performStep_of_key {key : String}
    (hcapsule : step.capsule.mapM (host.loadCapsule progress.world.files step) = .ok capsuleHash)
    (hinput : computeInputHash c host progress.world.files name step = .ok inputHash)
    (hkey : contentHash c (host.shape step) name inputHash
      (stepEnv config pipeline name step capsuleHash) = key) :
    performStep c host config pipeline name step progress =
      match servedEntry c host progress.world name step key with
      | (some entry, world) => .ok ({ entry.result with cacheHit := true }, { progress with world })
      | (none, world) =>
        executeStep c host config pipeline name step capsuleHash inputHash { progress with world } := by
  subst hkey
  unfold performStep
  rw [hcapsule, hinput]
  rfl

/-- A step that is executed with success and leaves its inputs as they are. -/
theorem executeStep_of_key {key outputHash : String} {guard : Bool} {execution : ExecutionResult}
    {world : World} {added : List ArtifactInfo}
    (hguard : host.hold progress.world.files step.inputs = .ok guard)
    (hexecute : host.execute config progress.world name step
      (stepEnv config pipeline name step capsuleHash) inputHash = .ok (execution, world))
    (hinput : computeInputHash c host world.files name step = .ok inputHash)
    (houtputs : outputsWithArtifacts c world.files host.workspace name
      (step.outputs.map .ofString) = .ok (outputHash, added))
    (hkey : contentHash c (host.shape step) name inputHash
      (stepEnv config pipeline name step capsuleHash) = key)
    (hresult : result = ⟨name, inputHash, outputHash, execution.durationSecs, execution.exitCode,
      false, execution.stdout, execution.stderr, capsuleHash⟩) :
    executeStep c host config pipeline name step capsuleHash inputHash progress =
      .ok (result,
        { world := { world with
            cache := if step.cache && result.exitCode == 0 then
              Function.update world.cache key (some ⟨key, name, result⟩) else world.cache }
          held := progress.held.add capsuleHash.isSome guard
          artifacts := progress.artifacts ++ added }) := by
  subst hresult hkey
  unfold executeStep
  simp only [hguard, hexecute, hinput, houtputs, mapError_ok, bind, Except.bind, refuseIf,
    ne_eq, not_true_eq_false, if_false]
  rfl

end Step

/-! ### Properties of every step of a run -/

section Throughout
variable (c : Crates) (host : Host) (config : ExecutorConfig) (pipeline : Pipeline)

/-- A property of the state before each step of a list. -/
def Throughout (P : Progress → String → Step → Prop) : Progress → List String → Prop
  | _, [] => True
  | progress, name :: rest =>
    (∀ step, pipeline.steps.lookup name = some step → P progress name step) ∧
      ∀ step result next, pipeline.steps.lookup name = some step →
        performStep c host config pipeline name step progress = .ok (result, next) →
        Throughout P next rest

end Throughout

section Perform
variable {c : Crates} {host : Host} {config : ExecutorConfig} {pipeline : Pipeline}
  {name : String} {rest : List String} {recorded recorded' : List (String × StepResult)}
  {progress progress' : Progress}

/-- The first step of a list and the others. -/
theorem foldlM_performNext_cons
    (h : (name :: rest).foldlM (performNext c host config pipeline) (recorded, progress) =
      .ok (recorded', progress')) :
    ∃ step result next, pipeline.steps.lookup name = some step ∧
      performStep c host config pipeline name step progress = .ok (result, next) ∧
      rest.foldlM (performNext c host config pipeline) (recorded ++ [(name, result)], next) =
        .ok (recorded', progress') := by
  rw [List.foldlM_cons] at h
  obtain ⟨⟨recorded₁, next⟩, hfirst, h⟩ := except_bind_eq_ok.mp h
  unfold performNext at hfirst
  cases hlookup : pipeline.steps.lookup name with
  | none =>
    rw [hlookup] at hfirst
    cases hfirst
  | some step =>
    simp only [hlookup] at hfirst
    obtain ⟨⟨result, after⟩, hperform, hfirst⟩ := except_bind_eq_ok.mp hfirst
    cases hfirst
    exact ⟨step, result, after, rfl, hperform, h⟩

theorem throughout_cons {P : Progress → String → Step → Prop} {step : Step} {result : StepResult}
    {next : Progress} (hlookup : pipeline.steps.lookup name = some step)
    (hperform : performStep c host config pipeline name step progress = .ok (result, next)) :
    Throughout c host config pipeline P progress (name :: rest) ↔
      P progress name step ∧ Throughout c host config pipeline P next rest := by
  constructor
  · intro h
    exact ⟨h.1 step hlookup, h.2 step result next hlookup hperform⟩
  · intro h
    refine ⟨?_, ?_⟩
    · intro step' hlookup'
      rw [hlookup] at hlookup'
      cases hlookup'
      exact h.1
    · intro step' result' next' hlookup' hperform'
      rw [hlookup] at hlookup'
      cases hlookup'
      rw [hperform] at hperform'
      cases hperform'
      exact h.2

end Perform

end Attest.Executor
