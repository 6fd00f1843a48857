import Attest.Executor.Pipeline
import Attest.Hashing.Manifest
import Attest.Sandbox.Command
import Attest.Storage.CausalLedger

/-! One run of the executor, up to the receipt, as `executor/mod.rs` and `storage/mod.rs`
have it.

The steps are taken in a given order. A step that needs one without success is skipped;
otherwise its inputs are hashed, and its result is either one an earlier run left in the
cache or that of running its command. What a command does, the capsules and the guard on
the inputs are a parameter. -/
namespace Attest.Executor
open Library Library.Fallible Hashing
open Trust (Bytes Crates utf8 hexEncode)
open Storage (StepResult ArtifactInfo hashField)
open Sandbox (SandboxConfig)

/-! ### Configuration -/

inductive OperationMode
  | light
  | verifiable
  | formalProof
deriving DecidableEq

def OperationMode.text : OperationMode → String
  | .light => "light"
  | .verifiable => "verifiable"
  | .formalProof => "formal-proof"

structure ModeConfig where
  mode : OperationMode
  hashAlgorithm : String
  signaturesEnabled : Bool
  complianceFramework : Option String

structure ExecutorConfig where
  isolated : Bool
  signResults : Bool
  deterministic : Bool
  containerImage : Option String
  sandboxConfig : Option SandboxConfig
  hermeticEnv : Bool
  mode : Option ModeConfig

def hermeticVariables : List (String × String) :=
  [("SOURCE_DATE_EPOCH", "1704067200"), ("TZ", "UTC"), ("LC_ALL", "C.UTF-8"), ("LANG", "C.UTF-8")]

/-! ### The environment of a step -/

def applyModeOptimizations (mode : Option ModeConfig) : List (String × String) :=
  match mode with
  | none => []
  | some config =>
    [("ATTEST_MODE", config.mode.text), ("ATTEST_HASH_ALGORITHM", config.hashAlgorithm)] ++
    (if config.mode = .light then
      [("ATTEST_SKIP_EXPENSIVE_CHECKS", "true"), ("ATTEST_CACHE_AGGRESSIVE", "true")] else []) ++
    (if config.mode = .formalProof then
      [("ATTEST_STRICT_MODE", "true"), ("ATTEST_REQUIRE_SIGNATURES", "true")] else []) ++
    (config.complianceFramework.map fun framework =>
      ("ATTEST_COMPLIANCE_FRAMEWORK", framework)).toList

def stepEnv (config : ExecutorConfig) (pipeline : Pipeline) (name : String) (step : Step)
    (capsuleHash : Option String) : SortedMap String String :=
  SortedMap.empty.insertAll (pipeline.env ++ step.env.getD [] ++
    [("ATTEST_STEP_NAME", name), ("ATTEST_DETERMINISTIC", toString config.deterministic)] ++
    applyModeOptimizations config.mode ++
    (if config.hermeticEnv then hermeticVariables else []) ++
    (capsuleHash.map fun hash => ("ATTEST_CAPSULE_HASH", hash)).toList)

/-! ### The cache -/

structure CacheEntry where
  contentHash : String
  stepName : String
  result : StepResult
deriving DecidableEq

/-- What the steps of a run read and change: the files of the workspace, and the cache by
the names of its files. -/
structure World where
  files : FileSystem
  cache : String → Option CacheEntry

/-- The fields of a cache key. -/
def keyFields (shape name inputHash : String) (env : SortedMap String String) :
    List (String × Bytes) :=
  [("shape", utf8 shape), ("step", utf8 name), ("inputs", utf8 inputHash),
    ("env-count", utf8 (toString env.entries.length))] ++
  env.entries.flatMap fun entry => [("env-key", utf8 entry.1), ("env-value", utf8 entry.2)]

/-- The key of a step: its shape, its name, its inputs and its environment. -/
def contentHash (c : Crates) (shape name inputHash : String) (env : SortedMap String String) :
    String :=
  hexEncode (c.blake3 (utf8 "attest-cache-key/v4\n" ++
    (keyFields shape name inputHash env).flatMap fun field => hashField field.1 field.2)).toList

/-- `get_cached_entry`: a file that holds an entry of another key is removed. -/
def getCachedEntry (world : World) (key : String) : Option CacheEntry × World :=
  match world.cache key with
  | none => (none, world)
  | some entry =>
    if entry.contentHash = key then (some entry, world)
    else (none, { world with cache := Function.update world.cache key none })

/-! ### Running a command -/

structure ExecutionResult where
  exitCode : Int32
  stdout : String
  stderr : String
  durationSecs : UInt64

inductive RunError where
  | hashing (e : HashingError)
  | message (text : String)

/-- What a run takes from the machine. -/
structure Host where
  /-- `env::current_dir`. -/
  workspace : Path
  /-- `Step::execution_shape`, the digest of the step's serialization. -/
  shape : Step → String
  /-- `capsule::validate_input_paths` and `capsule::load`: the hash of the manifest. -/
  loadCapsule : FileSystem → Step → String → Except String String
  /-- `InputGuard::hold`, and whether the guard binds. -/
  hold : FileSystem → List String → Except String Bool
  /-- The command of a step, in its capsule where it has one, and the world it leaves. -/
  execute : ExecutorConfig → World → String → Step → SortedMap String String → String →
    Except String (ExecutionResult × World)

structure InputsHeld where
  executed : Nat
  inCapsule : Nat
  guardApplied : Bool

def InputsHeld.add (held : InputsHeld) (inCapsule guard : Bool) : InputsHeld where
  executed := held.executed + 1
  inCapsule := held.inCapsule + inCapsule.toNat
  guardApplied := (held.executed + 1 == 1 || held.guardApplied) && guard

/-- What the steps of a run so far have left. -/
structure Progress where
  world : World
  held : InputsHeld
  artifacts : List ArtifactInfo

section Run
variable (c : Crates) (host : Host) (config : ExecutorConfig) (pipeline : Pipeline)

/-- `compute_input_hash`. -/
def computeInputHash (files : FileSystem) (name : String) (step : Step) : Except RunError String :=
  (hashInputs c files host.workspace name step.run (step.inputs.map .ofString)).mapError .hashing

def EntryKind.text : EntryKind → String
  | .file => "file"
  | .link => "symlink"

def artifactOf (step : String) (entry : ManifestPath × EntryLine) : ArtifactInfo where
  step := step
  path := entry.1.1
  kind := EntryKind.text entry.2.kind
  digest := hexEncode entry.2.digest.toList
  algorithm := "blake3"

/-- `hashing::outputs_with_artifacts`: the digest and the entries of one manifest. -/
def outputsWithArtifacts (files : FileSystem) (workspace : Path) (name : String)
    (outputs : List Path) : Except HashingError (String × List ArtifactInfo) := do
  let entries ← collectEntries c files workspace name outputs .output
  return (hexEncode (c.blake3 (utf8 (outputText entries))).toList,
    entries.entries.map (artifactOf name))

/-- Whether the outputs of a cached result are still there. -/
def outputsStillMatch (files : FileSystem) (name : String) (step : Step) (entry : CacheEntry) :
    Bool :=
  match hashOutputs c files host.workspace name (step.outputs.map .ofString) with
  | .ok onDisk => onDisk == entry.result.outputHash
  | .error _ => false

/-- The entry a step is served from, if there is one. -/
def servedEntry (world : World) (name : String) (step : Step) (key : String) :
    Option CacheEntry × World :=
  if step.cache then
    let found := getCachedEntry world key
    (found.1.filter (outputsStillMatch c host found.2.files name step), found.2)
  else (none, world)

def changedInputs (name before after : String) : String :=
  "step '" ++ name ++ "' modified its own declared inputs while running (before " ++ before ++
    ", after " ++ after ++ "); the receipt could not describe what was built"

/-- A step whose result is not in the cache. -/
def executeStep (name : String) (step : Step) (capsuleHash : Option String) (inputHash : String)
    (progress : Progress) : Except RunError (StepResult × Progress) := do
  let env := stepEnv config pipeline name step capsuleHash
  let guard ← (host.hold progress.world.files step.inputs).mapError .message
  let (execution, world) ←
    (host.execute config progress.world name step env inputHash).mapError .message
  let inputsAfter ← computeInputHash c host world.files name step
  refuseIf (inputsAfter ≠ inputHash) (.message (changedInputs name inputHash inputsAfter))
  let (outputHash, artifacts) ←
    (outputsWithArtifacts c world.files host.workspace name
      (step.outputs.map .ofString)).mapError .hashing
  let result : StepResult :=
    { name := name
      inputHash := inputHash
      outputHash := outputHash
      durationSecs := execution.durationSecs
      exitCode := execution.exitCode
      cacheHit := false
      stdout := execution.stdout
      stderr := execution.stderr
      capsuleHash := capsuleHash }
  let key := contentHash c (host.shape step) name inputsAfter env
  let cache :=
    -- Only a success is kept: a failure would be replayed on every later run.
    if step.cache && result.exitCode == 0 then
      Function.update world.cache key (some ⟨key, name, result⟩)
    else world.cache
  return (result,
    { world := { world with cache := cache }
      held := progress.held.add capsuleHash.isSome guard
      artifacts := progress.artifacts ++ artifacts })

/-- One step, from the cache or by its command. -/
def performStep (name : String) (step : Step) (progress : Progress) :
    Except RunError (StepResult × Progress) := do
  let capsuleHash ←
    (step.capsule.mapM (host.loadCapsule progress.world.files step)).mapError .message
  let inputHash ← computeInputHash c host progress.world.files name step
  let key := contentHash c (host.shape step) name inputHash
    (stepEnv config pipeline name step capsuleHash)
  match servedEntry c host progress.world name step key with
  | (some entry, world) => return ({ entry.result with cacheHit := true }, { progress with world })
  | (none, world) =>
    executeStep c host config pipeline name step capsuleHash inputHash { progress with world }

/-! ### The loop -/

/-- Why a run does not come to its receipt. A run that waits for a step that is not done
waits for good: nothing else is running. -/
inductive Stop where
  | failed (e : RunError)
  | waiting (step dep : String)

structure RunState where
  progress : Progress
  /-- The results with the steps they are recorded for. -/
  recorded : List (String × StepResult)
  completed : List String
  unsuccessful : List String

def runStep (st : RunState) (name : String) : Except Stop RunState :=
  match pipeline.steps.lookup name with
  | none => .error (.failed (.message "Step not found in pipeline"))
  | some step =>
    if (step.needs.getD []).any (· ∈ st.unsuccessful) then
      .ok { st with
        completed := name :: st.completed
        unsuccessful := name :: st.unsuccessful }
    else
      match (step.needs.getD []).find? (· ∉ st.completed) with
      | some dep => .error (.waiting name dep)
      | none => do
        let (result, progress) ← (performStep c host config pipeline name step st.progress).mapError .failed
        return {
          progress := progress
          recorded := st.recorded ++ [(name, result)]
          completed := name :: st.completed
          unsuccessful := if result.exitCode ≠ 0 then name :: st.unsuccessful else st.unsuccessful }

def startState (world : World) : RunState := ⟨⟨world, ⟨0, 0, false⟩, []⟩, [], [], []⟩

/-- The steps in an order, one after the other. -/
def runSteps (world : World) (order : List String) : Except Stop RunState :=
  order.foldlM (runStep c host config pipeline) (startState world)

end Run

end Attest.Executor
