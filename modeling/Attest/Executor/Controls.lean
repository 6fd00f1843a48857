import Attest.Executor.Artifacts

/-! What the isolation block of a receipt says of its steps.

The row of the declared inputs counts the steps this run executed, and the other rows are
those of this run's sandbox; but a receipt also records results that an earlier run left in
the cache, and the key of an entry has nothing of the isolation in it. A run is followed here
together with the configuration each entry of the cache was executed under, which the code
does not keep. `controls_true_iff` says of which runs the rows are true of every step. -/
namespace Attest.Executor
open Library Library.Fallible Hashing
open Trust (Crates utf8 hexEncode)
open Storage
open Sandbox (Platform ContainerRuntime Enforced isolationReport unisolatedReport)

/-! ### Where a result comes from -/

/-- The configuration each entry of the cache was executed under, by its key. -/
abbrev Origins := String → ExecutorConfig

section Trace
variable (c : Crates) (host : Host) (config : ExecutorConfig) (pipeline : Pipeline)

/-- The key of a step in a state. -/
def keyIn (progress : Progress) (name : String) (step : Step) : String :=
  match step.capsule.mapM (host.loadCapsule progress.world.files step),
    computeInputHash c host progress.world.files name step with
  | .ok capsuleHash, .ok inputHash =>
    contentHash c (host.shape step) name inputHash (stepEnv config pipeline name step capsuleHash)
  | _, _ => ""

/-- The configuration the result of a step was executed under. -/
def ranUnder (origins : Origins) (progress : Progress) (name : String) (step : Step) :
    ExecutorConfig :=
  match servedIn c host config pipeline progress name step with
  | some _ => origins (keyIn c host config pipeline progress name step)
  | none => config

def originsAfter (origins : Origins) (progress : Progress) (name : String) (step : Step)
    (result : StepResult) : Origins :=
  if servedIn c host config pipeline progress name step = none ∧ step.cache = true ∧
      result.exitCode = 0 then
    Function.update origins (keyIn c host config pipeline progress name step) config
  else origins

/-- The results of the steps of a list, each with the configuration it was executed under. -/
def traceAll : Progress → Origins → List String →
    Except RunError (List (StepResult × ExecutorConfig) × Progress × Origins)
  | progress, origins, [] => .ok ([], progress, origins)
  | progress, origins, name :: rest =>
    match pipeline.steps.lookup name with
    | none => .error (.message "Step not found in pipeline")
    | some step => do
      let (result, after) ← performStep c host config pipeline name step progress
      let (traced, final) ← traceAll after
        (originsAfter c host config pipeline origins progress name step result) rest
      return ((result, ranUnder c host config pipeline origins progress name step) :: traced, final)

/-- A property of the state before each step of a list, with the origins of the cache. -/
def Observed (P : Origins → Progress → String → Step → Prop) :
    Origins → Progress → List String → Prop
  | _, _, [] => True
  | origins, progress, name :: rest =>
    (∀ step, pipeline.steps.lookup name = some step → P origins progress name step) ∧
      ∀ step result next, pipeline.steps.lookup name = some step →
        performStep c host config pipeline name step progress = .ok (result, next) →
        Observed P (originsAfter c host config pipeline origins progress name step result) next rest

end Trace

/-! ### What the rows are to say -/

/-- The rows are true of every step: the inputs are enforced only where every step ran in a
capsule, and any other row only where every result was executed under a configuration that
enforces it. -/
structure TrueControls (platform : Platform) (detected : ContainerRuntime) (report : IsolationReport)
    (traced : List (StepResult × ExecutorConfig)) : Prop where
  inputs : Enforced report "inputs" → ∀ entry ∈ traced, entry.1.capsuleHash ≠ none
  others : ∀ row ≠ "inputs", Enforced report row →
    ∀ entry ∈ traced, Enforced (baseReport platform detected entry.2) row

section Conditions
variable (c : Crates) (host : Host) (config : ExecutorConfig) (pipeline : Pipeline)

/-- The step is executed only in a capsule. -/
def ExecutesInCapsule (progress : Progress) (name : String) (step : Step) : Prop :=
  servedIn c host config pipeline progress name step = none → step.capsule ≠ none

def Served (progress : Progress) (name : String) (step : Step) : Prop :=
  servedIn c host config pipeline progress name step ≠ none

/-- The step is served only from what ran in a capsule. -/
def ServedFromCapsule (progress : Progress) (name : String) (step : Step) : Prop :=
  ∀ entry, servedIn c host config pipeline progress name step = some entry →
    entry.result.capsuleHash ≠ none

/-- The step is served only from what was executed under at least the rows of this run. -/
def ServedAlike (platform : Platform) (detected : ContainerRuntime) (origins : Origins)
    (progress : Progress) (name : String) (step : Step) : Prop :=
  servedIn c host config pipeline progress name step ≠ none →
    ∀ row, Enforced (baseReport platform detected config) row →
      Enforced (baseReport platform detected
        (origins (keyIn c host config pipeline progress name step))) row

end Conditions

/-! ### The rows of the block -/

section Rows
variable {platform : Platform} {detected : ContainerRuntime} {config : ExecutorConfig}
  {results : List StepResult} {held : InputsHeld} {row : String}

theorem name_inputsControl : (inputsControl platform held).name = "inputs" := by
  unfold inputsControl
  repeat' split
  all_goals rfl

theorem enforced_inputsControl :
    (inputsControl platform held).status = .enforced ↔
      held.executed ≠ 0 ∧ held.inCapsule = held.executed := by
  unfold inputsControl
  split
  next h => simp [h]
  next h =>
    split
    next hall => simp [h, hall]
    next hall =>
      simp only [hall, and_false, iff_false]
      repeat' split
      all_goals simp

/-- No row of the sandbox is called as that of the inputs. -/
theorem not_enforced_inputs : ¬ Enforced (baseReport platform detected config) "inputs" := by
  unfold baseReport
  split
  next sandbox _ =>
    cases hlevel : sandbox.isolationLevel with
    | none => simp [Sandbox.isolationReport, hlevel, Sandbox.enforced_unisolated]
    | vm => simp [Sandbox.isolationReport, hlevel, Sandbox.enforced_unisolated]
    | process => simp [Sandbox.enforced_process hlevel]
    | container => simp [Sandbox.enforced_container hlevel]
    | strictContainer => simp [Sandbox.enforced_strict hlevel]
  next => simp [Sandbox.enforced_unisolated]

theorem enforced_isolationOf :
    Enforced (isolationOf platform detected config results held) row ↔
      Enforced (baseReport platform detected config) row ∨
        row = "inputs" ∧ held.executed ≠ 0 ∧ held.inCapsule = held.executed := by
  have hcontrols : (isolationOf platform detected config results held).controls =
      (baseReport platform detected config).controls ++ [inputsControl platform held] := rfl
  simp only [Enforced, hcontrols, List.mem_append, List.mem_singleton, or_and_right, exists_or,
    exists_eq_left, name_inputsControl, enforced_inputsControl]
  rw [@eq_comm _ "inputs" row]

theorem enforced_isolationOf_inputs :
    Enforced (isolationOf platform detected config results held) "inputs" ↔
      held.executed ≠ 0 ∧ held.inCapsule = held.executed := by
  rw [enforced_isolationOf, or_iff_right not_enforced_inputs, and_iff_right rfl]

theorem enforced_isolationOf_other (h : row ≠ "inputs") :
    Enforced (isolationOf platform detected config results held) row ↔
      Enforced (baseReport platform detected config) row := by
  rw [enforced_isolationOf, or_iff_left]
  intro hinputs
  exact h hinputs.1

end Rows

/-! ### One step -/

section Step
variable {c : Crates} {host : Host} {config : ExecutorConfig} {pipeline : Pipeline} {name : String}
  {step : Step} {progress after final : Progress} {result : StepResult} {rest : List String}
  {origins origins' : Origins} {traced : List (StepResult × ExecutorConfig)}

/-- A capsule that is declared is loaded. -/
theorem isSome_of_mapM {f : String → Except String String} {capsule capsuleHash : Option String}
    (h : capsule.mapM f = .ok capsuleHash) : capsuleHash ≠ none ↔ capsule ≠ none := by
  cases capsule with
  | none =>
    cases h
    exact Iff.rfl
  | some path =>
    obtain ⟨hash, _, heq⟩ := except_bind_eq_ok.mp h
    cases heq
    exact iff_of_true (by simp) (by simp)

/-- What a list of steps adds to the counters: how many it executes, and how many of them in a
capsule. -/
structure Counted (held held' : InputsHeld) (served inCapsule : Prop) : Prop where
  executed_le : held.executed ≤ held'.executed
  inCapsule_le : held.inCapsule ≤ held'.inCapsule
  capsules_le : held'.inCapsule - held.inCapsule ≤ held'.executed - held.executed
  served : held'.executed = held.executed ↔ served
  inCapsule : held'.inCapsule - held.inCapsule = held'.executed - held.executed ↔ inCapsule

theorem Counted.trans {held held' held'' : InputsHeld} {served inCapsule served' inCapsule' : Prop}
    (h : Counted held held' served inCapsule) (h' : Counted held' held'' served' inCapsule') :
    Counted held held'' (served ∧ served') (inCapsule ∧ inCapsule') := by
  have hle := h.executed_le
  have hle' := h'.executed_le
  have hcapsule := h.inCapsule_le
  have hcapsule' := h'.inCapsule_le
  have hcapsules := h.capsules_le
  have hcapsules' := h'.capsules_le
  refine ⟨by omega, by omega, by omega, ?_, ?_⟩
  · rw [← h.served, ← h'.served]
    omega
  · rw [← h.inCapsule, ← h'.inCapsule]
    omega

/-- One step adds to the counters what it does. -/
theorem performStep_counted
    (h : performStep c host config pipeline name step progress = .ok (result, after)) :
    Counted progress.held after.held (Served c host config pipeline progress name step)
      (ExecutesInCapsule c host config pipeline progress name step) := by
  rcases performStep_eq_ok h with ⟨entry, hserved, _, hheld, _⟩ | ⟨hserved, capsuleHash, hcapsule, hexecuted⟩
  · have hin : ExecutesInCapsule c host config pipeline progress name step := by
      intro hnone
      rw [hserved] at hnone
      cases hnone
    rw [hheld]
    refine ⟨le_refl _, le_refl _, by omega, iff_of_true rfl ?_, iff_of_true (by omega) hin⟩
    rw [Served, hserved]
    exact Option.some_ne_none entry
  · obtain ⟨guard, hheld⟩ := hexecuted.held
    have hnot : ¬ Served c host config pipeline progress name step := not_not.mpr hserved
    have hin : ExecutesInCapsule c host config pipeline progress name step ↔
        capsuleHash.isSome = true := by
      rw [ExecutesInCapsule, forall_prop_of_true hserved, ← isSome_of_mapM hcapsule,
        Option.ne_none_iff_isSome]
    rw [hheld, hin]
    cases hsome : capsuleHash.isSome with
    | true => exact ⟨by simp [InputsHeld.add], by simp [InputsHeld.add], by simp [InputsHeld.add],
        iff_of_false (by simp [InputsHeld.add]) hnot, by simp [InputsHeld.add]⟩
    | false => exact ⟨by simp [InputsHeld.add], by simp [InputsHeld.add], by simp [InputsHeld.add],
        iff_of_false (by simp [InputsHeld.add]) hnot, by simp [InputsHeld.add]⟩

/-- Where a step is executed only in a capsule, its result has the hash of one unless it is
served without. -/
theorem performStep_capsuleHash
    (h : performStep c host config pipeline name step progress = .ok (result, after))
    (hin : ExecutesInCapsule c host config pipeline progress name step) :
    result.capsuleHash ≠ none ↔ ServedFromCapsule c host config pipeline progress name step := by
  rcases performStep_eq_ok h with ⟨entry, hserved, rfl, _⟩ | ⟨hserved, capsuleHash, hcapsule, hexecuted⟩
  · rw [ServedFromCapsule, hserved]
    constructor
    · intro hhash entry' hentry
      cases hentry
      exact hhash
    · intro hentries
      exact hentries entry rfl
  · rw [hexecuted.capsule]
    refine iff_of_true ((isSome_of_mapM hcapsule).mpr (hin hserved)) ?_
    intro entry hentry
    rw [hserved] at hentry
    cases hentry

/-- The rows of this run are true of what a step was executed under, unless it is served from
what was executed under fewer. -/
theorem ranUnder_enforces {platform : Platform} {detected : ContainerRuntime} :
    (∀ row, Enforced (baseReport platform detected config) row →
      Enforced (baseReport platform detected
        (ranUnder c host config pipeline origins progress name step)) row) ↔
      ServedAlike c host config pipeline platform detected origins progress name step := by
  unfold ranUnder ServedAlike
  cases hserved : servedIn c host config pipeline progress name step with
  | none => simp
  | some entry => simp

/-! ### Whole runs -/

theorem traceAll_cons
    (h : traceAll c host config pipeline progress origins (name :: rest) = .ok (traced, final, origins')) :
    ∃ step result after later, pipeline.steps.lookup name = some step ∧
      performStep c host config pipeline name step progress = .ok (result, after) ∧
      traceAll c host config pipeline after
        (originsAfter c host config pipeline origins progress name step result) rest =
          .ok (later, final, origins') ∧
      traced = (result, ranUnder c host config pipeline origins progress name step) :: later := by
  unfold traceAll at h
  cases hlookup : pipeline.steps.lookup name with
  | none =>
    rw [hlookup] at h
    cases h
  | some step =>
    simp only [hlookup] at h
    obtain ⟨⟨result, after⟩, hperform, h⟩ := except_bind_eq_ok.mp h
    obtain ⟨⟨later, final', origins''⟩, hrest, h⟩ := except_bind_eq_ok.mp h
    cases h
    exact ⟨step, result, after, later, rfl, hperform, hrest, rfl⟩

theorem observed_cons {P : Origins → Progress → String → Step → Prop}
    (hlookup : pipeline.steps.lookup name = some step)
    (hperform : performStep c host config pipeline name step progress = .ok (result, after)) :
    Observed c host config pipeline P origins progress (name :: rest) ↔
      P origins progress name step ∧ Observed c host config pipeline P
        (originsAfter c host config pipeline origins progress name step result) after rest := by
  constructor
  · intro h
    exact ⟨h.1 step hlookup, h.2 step result after hlookup hperform⟩
  · intro h
    constructor
    · intro step' hlookup'
      rw [hlookup] at hlookup'
      cases hlookup'
      exact h.1
    · intro step' result' after' hlookup' hperform'
      rw [hlookup] at hlookup'
      cases hlookup'
      rw [hperform] at hperform'
      cases hperform'
      exact h.2

/-- A run that is followed is the run, with an origin beside each result. -/
theorem traceAll_of_performed {names : List String} {recorded recorded' : List (String × StepResult)}
    (h : names.foldlM (performNext c host config pipeline) (recorded, progress) =
      .ok (recorded', final)) :
    ∃ traced origins', traceAll c host config pipeline progress origins names =
        .ok (traced, final, origins') ∧
      recorded'.map Prod.snd = recorded.map Prod.snd ++ traced.map Prod.fst := by
  induction names generalizing recorded progress origins with
  | nil =>
    cases h
    exact ⟨[], origins, rfl, (List.append_nil _).symm⟩
  | cons name rest ih =>
    obtain ⟨step, result, after, hlookup, hperform, h⟩ := foldlM_performNext_cons h
    obtain ⟨traced, origins', htrace, hresults⟩ :=
      @ih after (originsAfter c host config pipeline origins progress name step result) _ h
    refine ⟨(result, ranUnder c host config pipeline origins progress name step) :: traced,
      origins', ?_, ?_⟩
    · unfold traceAll
      simp only [hlookup, hperform, htrace, bind, Except.bind]
      rfl
    · rw [hresults, List.map_append, List.append_assoc]
      rfl

/-- The counters of a whole run. -/
theorem traceAll_counted {names : List String}
    (h : traceAll c host config pipeline progress origins names = .ok (traced, final, origins')) :
    Counted progress.held final.held
      (Throughout c host config pipeline (Served c host config pipeline) progress names)
      (Throughout c host config pipeline (ExecutesInCapsule c host config pipeline) progress names) := by
  induction names generalizing progress origins traced with
  | nil =>
    cases h
    exact ⟨le_refl _, le_refl _, by omega, iff_of_true rfl trivial, iff_of_true (by omega) trivial⟩
  | cons name rest ih =>
    obtain ⟨step, result, after, later, hlookup, hperform, hrest, _⟩ := traceAll_cons h
    rw [throughout_cons hlookup hperform, throughout_cons hlookup hperform]
    exact (performStep_counted hperform).trans (ih hrest)

theorem traceAll_capsules {names : List String}
    (h : traceAll c host config pipeline progress origins names = .ok (traced, final, origins'))
    (hin : Throughout c host config pipeline (ExecutesInCapsule c host config pipeline) progress names) :
    (∀ entry ∈ traced, entry.1.capsuleHash ≠ none) ↔
      Throughout c host config pipeline (ServedFromCapsule c host config pipeline) progress names := by
  induction names generalizing progress origins traced with
  | nil =>
    cases h
    exact iff_of_true (by simp) trivial
  | cons name rest ih =>
    obtain ⟨step, result, after, later, hlookup, hperform, hrest, rfl⟩ := traceAll_cons h
    rw [throughout_cons hlookup hperform] at hin ⊢
    rw [List.forall_mem_cons, ih hrest hin.2, performStep_capsuleHash hperform hin.1]

theorem traceAll_alike {platform : Platform} {detected : ContainerRuntime} {names : List String}
    (h : traceAll c host config pipeline progress origins names = .ok (traced, final, origins')) :
    (∀ entry ∈ traced, ∀ row, Enforced (baseReport platform detected config) row →
        Enforced (baseReport platform detected entry.2) row) ↔
      Observed c host config pipeline (ServedAlike c host config pipeline platform detected)
        origins progress names := by
  induction names generalizing progress origins traced with
  | nil =>
    cases h
    exact iff_of_true (by simp) trivial
  | cons name rest ih =>
    obtain ⟨step, result, after, later, hlookup, hperform, hrest, rfl⟩ := traceAll_cons h
    rw [observed_cons hlookup hperform, List.forall_mem_cons, ih hrest, ranUnder_enforces]

end Step

section Run
variable {c : Crates} {host : Host} {config : ExecutorConfig} {pipeline : Pipeline} {world : World}
  {dag : ExecutionDAG} {order : Iteration dag.nodes} {sequence : List String} {st : RunState}

/-- **When the isolation block is true of every step.** Follow a run, whatever the entries of
the cache were executed under. Its rows are true of every recorded step exactly when two
things hold: where every executed step ran in a capsule and one was executed, every step that
was served is served from a capsule; and every step that was served was executed under a
configuration that enforces the rows of this run. -/
theorem controls_true_iff (platform : Platform) (detected : ContainerRuntime) (facts : ReceiptFacts)
    (origins : Origins) (hbuild : ExecutionDAG.build pipeline = .ok dag)
    (hsort : dag.topologicalSort order = .ok sequence)
    (hrun : runSteps c host config pipeline world sequence = .ok st) :
    ∃ report traced origins',
      (receiptOf platform detected config facts st).isolation = some report ∧
      traceAll c host config pipeline (startState world).progress origins (st.recorded.map Prod.fst) =
        .ok (traced, st.progress, origins') ∧
      traced.map Prod.fst = (receiptOf platform detected config facts st).steps ∧
      (TrueControls platform detected report traced ↔
        (Throughout c host config pipeline (ExecutesInCapsule c host config pipeline)
            (startState world).progress (st.recorded.map Prod.fst) →
          Throughout c host config pipeline (Served c host config pipeline)
              (startState world).progress (st.recorded.map Prod.fst) ∨
            Throughout c host config pipeline (ServedFromCapsule c host config pipeline)
              (startState world).progress (st.recorded.map Prod.fst)) ∧
        Observed c host config pipeline (ServedAlike c host config pipeline platform detected)
          origins (startState world).progress (st.recorded.map Prod.fst)) := by
  have hright := rightSteps_of_run c host config pipeline world hbuild hsort hrun
  obtain ⟨traced, origins', htrace, hresults⟩ :=
    @traceAll_of_performed c host config pipeline _ _ origins _ _ _ hright.performed
  have hcounted := traceAll_counted htrace
  have hexecuted : st.progress.held.executed = 0 ↔ _ := hcounted.served
  have hinCapsule : st.progress.held.inCapsule = st.progress.held.executed ↔ _ := hcounted.inCapsule
  refine ⟨_, traced, origins', rfl, htrace, hresults.symm, ?_⟩
  constructor
  · intro htrue
    constructor
    · intro hin
      by_cases hserved : st.progress.held.executed = 0
      · exact .inl (hexecuted.mp hserved)
      · refine .inr ((traceAll_capsules htrace hin).mp (htrue.inputs ?_))
        exact enforced_isolationOf_inputs.mpr ⟨hserved, hinCapsule.mpr hin⟩
    · refine (traceAll_alike htrace).mp ?_
      intro entry hentry row hrow
      have hne : row ≠ "inputs" := by
        intro heq
        exact not_enforced_inputs (heq ▸ hrow)
      exact htrue.others row hne ((enforced_isolationOf_other hne).mpr hrow) entry hentry
  · intro ⟨hinputs, halike⟩
    constructor
    · intro henforced
      obtain ⟨hsome, hall⟩ := enforced_isolationOf_inputs.mp henforced
      have hin := hinCapsule.mp hall
      rcases hinputs hin with hserved | hserved
      · exact absurd (hexecuted.mpr hserved) hsome
      · exact (traceAll_capsules htrace hin).mpr hserved
    · intro row hne henforced entry hentry
      exact (traceAll_alike htrace).mpr halike entry hentry row
        ((enforced_isolationOf_other hne).mp henforced)

end Run

/-! ### A cache that another run filled -/

/-- A step in a capsule, which is executed on every run. -/
def stepOfPack : Step := { stepOfA with outputs := [], capsule := some "pack.yaml", cache := false }

def pipelineOfPack : Pipeline :=
  { pipelineOfA with steps := ⟨[("build", stepOfA), ("pack", stepOfPack)], by decide⟩ }

def shapeOfPack : String := "6b4fdf74b837361493fa27cd0054c33b32aa9592ac0772e28a337b7bcb3a4aeb"
def outputHashOfPack : String := "95aba9c3ec14d9c6acb31a2dd401aff1b5fb3a913a0dbd59ec602fc683a6732d"

/-- The host, with the capsule of the second step. -/
def hostOfPack : Host :=
  { hostOfA with
    shape := fun step => if step.capsule = none then shapeOfA else shapeOfPack
    loadCapsule := fun _ _ _ => .ok (sampleDigest 'c') }

def resultOfPack : StepResult :=
  ⟨"pack", inputHashOfA, outputHashOfPack, 0, 0, false, "", "", some (sampleDigest 'c')⟩

theorem computeInputHash_build :
    computeInputHash cratesOfA hostOfPack worldOfA.files "build" stepOfA = .ok inputHashOfA :=
  computeInputHash_ofA

theorem contentHash_build :
    contentHash cratesOfA (hostOfPack.shape stepOfA) "build" inputHashOfA
      (stepEnv localConfig pipelineOfPack "build" stepOfA none) = keyOfA :=
  contentHash_ofA

theorem performStep_build :
    performStep cratesOfA hostOfPack localConfig pipelineOfPack "build" stepOfA
      (startState worldOfA).progress = .ok (resultOfA, firstStateOfA.progress) := by
  rw [performStep_of_key rfl computeInputHash_build contentHash_build]
  show executeStep cratesOfA hostOfPack localConfig pipelineOfPack "build" stepOfA none inputHashOfA
    (startState worldOfA).progress = _
  exact executeStep_of_key rfl rfl computeInputHash_build outputs_ofA contentHash_build rfl

theorem performStep_build_again :
    performStep cratesOfA hostOfPack localConfig pipelineOfPack "build" stepOfA
      (startState cachedWorldOfA).progress =
        .ok ({ resultOfA with cacheHit := true }, secondStateOfA.progress) := by
  rw [performStep_of_key rfl computeInputHash_build contentHash_build]
  rfl

theorem performStep_pack {progress : Progress} (hworld : progress.world = cachedWorldOfA) :
    performStep cratesOfA hostOfPack localConfig pipelineOfPack "pack" stepOfPack progress =
      .ok (resultOfPack, { progress with held := progress.held.add true true }) := by
  obtain ⟨world, held, artifacts⟩ := progress
  cases hworld
  have hinput : computeInputHash cratesOfA hostOfPack cachedWorldOfA.files "pack" stepOfPack =
      .ok inputHashOfA := rfl
  have houtputs : outputsWithArtifacts cratesOfA cachedWorldOfA.files hostOfPack.workspace "pack"
      (stepOfPack.outputs.map .ofString) = .ok (outputHashOfPack, []) := rfl
  rw [performStep_of_key rfl hinput rfl]
  show executeStep cratesOfA hostOfPack localConfig pipelineOfPack "pack" stepOfPack
    (some (sampleDigest 'c')) inputHashOfA ⟨cachedWorldOfA, held, artifacts⟩ = _
  rw [executeStep_of_key rfl rfl hinput houtputs rfl rfl, List.append_nil]
  rfl

/-- The two steps, one after the other. -/
theorem runSteps_pack {world : World} {result : StepResult} {progress : Progress}
    (hbuild : performStep cratesOfA hostOfPack localConfig pipelineOfPack "build" stepOfA
      (startState world).progress = .ok (result, progress)) (hexit : result.exitCode = 0)
    (hworld : progress.world = cachedWorldOfA) :
    runSteps cratesOfA hostOfPack localConfig pipelineOfPack world ["build", "pack"] =
      .ok ⟨{ progress with held := progress.held.add true true },
        [("build", result), ("pack", resultOfPack)], ["pack", "build"], []⟩ := by
  have hfirst := @runStep_of_performStep _ _ _ _ (startState world) _ _ _ _
    (rfl : pipelineOfPack.steps.lookup "build" = some stepOfA)
    (fun dep hdep => absurd hdep (List.not_mem_nil)) hbuild
  rw [if_neg (not_not.mpr hexit)] at hfirst
  have hsecond := @runStep_of_performStep _ _ _ _
    ⟨progress, [("build", result)], ["build"], []⟩ _ _ _ _
    (rfl : pipelineOfPack.steps.lookup "pack" = some stepOfPack)
    (fun dep hdep => absurd hdep (List.not_mem_nil)) (performStep_pack hworld)
  rw [runSteps, List.foldlM_cons, hfirst]
  show (["pack"].foldlM (runStep cratesOfA hostOfPack localConfig pipelineOfPack)
    ⟨progress, [("build", result)], ["build"], []⟩) = _
  rw [List.foldlM_cons, hsecond]
  rfl

/-- The same run, in a sandbox. -/
def isolatedConfig : ExecutorConfig := { localConfig with isolated := true }

/-- The key has nothing of the sandbox in it. -/
theorem contentHash_isolated :
    contentHash cratesOfA (hostOfA.shape stepOfA) "build" inputHashOfA
      (stepEnv isolatedConfig pipelineOfA "build" stepOfA none) = keyOfA :=
  contentHash_ofA

theorem performStep_isolated :
    performStep cratesOfA hostOfA isolatedConfig pipelineOfA "build" stepOfA
      (startState cachedWorldOfA).progress =
        .ok ({ resultOfA with cacheHit := true }, secondStateOfA.progress) := by
  rw [performStep_of_key rfl computeInputHash_ofA contentHash_isolated]
  rfl

theorem runSteps_isolated :
    runSteps cratesOfA hostOfA isolatedConfig pipelineOfA cachedWorldOfA ["build"] =
      .ok secondStateOfA := by
  have hstep := @runStep_of_performStep _ _ _ _ (startState cachedWorldOfA) _ _ _ _
    (rfl : pipelineOfA.steps.lookup "build" = some stepOfA)
    (fun dep hdep => absurd hdep (List.not_mem_nil)) performStep_isolated
  rw [runSteps, List.foldlM_cons, hstep]
  rfl

/-- What was executed in no sandbox enforces nothing. -/
theorem not_enforced_local {row : String} :
    ¬ Enforced (baseReport Sandbox.linux .docker localConfig) row := by
  show ¬ Enforced (unisolatedReport Sandbox.linux false) row
  simp [Sandbox.enforced_unisolated]

theorem enforced_isolated :
    Enforced (baseReport Sandbox.linux .docker isolatedConfig) "open-files" := by
  show Enforced (isolationReport Sandbox.linux (createDefaultSandboxConfig .docker isolatedConfig)
    false) "open-files"
  rw [Sandbox.enforced_process rfl]
  exact .inr (.inr (.inl ⟨rfl, rfl, rfl⟩))

/-- What a run in the sandbox left in the cache serves a run in the sandbox. -/
theorem controls_true_isolated :
    ∃ report traced origins',
      (receiptOf Sandbox.linux .docker isolatedConfig factsOfA secondStateOfA).isolation =
        some report ∧
      traceAll cratesOfA hostOfA isolatedConfig pipelineOfA (startState cachedWorldOfA).progress
        (fun _ => isolatedConfig) ["build"] = .ok (traced, secondStateOfA.progress, origins') ∧
      traced.map Prod.fst = [{ resultOfA with cacheHit := true }] ∧
      TrueControls Sandbox.linux .docker report traced := by
  obtain ⟨report, traced, origins', hreport, htrace, hsteps, hiff⟩ :=
    @controls_true_iff cratesOfA hostOfA isolatedConfig pipelineOfA cachedWorldOfA dagOfA orderOfA
      _ _ Sandbox.linux .docker factsOfA (fun _ => isolatedConfig) rfl sort_ofA runSteps_isolated
  refine ⟨report, traced, origins', hreport, htrace, hsteps, hiff.mpr ⟨?_, ?_⟩⟩
  · intro _
    refine .inl ((throughout_cons rfl performStep_isolated).mpr ⟨?_, trivial⟩)
    exact (performStep_counted performStep_isolated).served.mp rfl
  · refine (observed_cons rfl performStep_isolated).mpr ⟨?_, trivial⟩
    intro _ row hrow
    exact hrow

/-- The inputs are enforced in a receipt with a step that ran in no capsule, and the open files
in one whose only step ran in no sandbox. -/
theorem cached_run_overstates :
    (∃ st st' report,
      runSteps cratesOfA hostOfPack localConfig pipelineOfPack worldOfA ["build", "pack"] = .ok st ∧
      runSteps cratesOfA hostOfPack localConfig pipelineOfPack st.progress.world ["build", "pack"] =
        .ok st' ∧
      (receiptOf Sandbox.linux .docker localConfig factsOfA st').isolation = some report ∧
      Enforced report "inputs" ∧
      ∃ step ∈ (receiptOf Sandbox.linux .docker localConfig factsOfA st').steps,
        step.capsuleHash = none) ∧
    ∃ st st' report,
      runSteps cratesOfA hostOfA localConfig pipelineOfA worldOfA ["build"] = .ok st ∧
      runSteps cratesOfA hostOfA isolatedConfig pipelineOfA st.progress.world ["build"] = .ok st' ∧
      (receiptOf Sandbox.linux .docker isolatedConfig factsOfA st').isolation = some report ∧
      (receiptOf Sandbox.linux .docker isolatedConfig factsOfA st').steps =
        (receiptOf Sandbox.linux .docker localConfig factsOfA st).steps.map
          (fun result => { result with cacheHit := true }) ∧
      Enforced report "open-files" ∧
      ¬ Enforced (baseReport Sandbox.linux .docker localConfig) "open-files" := by
  constructor
  · have hfirst := runSteps_pack performStep_build rfl rfl
    have hsecond := runSteps_pack performStep_build_again rfl rfl
    refine ⟨_, _, _, hfirst, hsecond, rfl, ?_, ?_⟩
    · exact enforced_isolationOf_inputs.mpr ⟨by decide, rfl⟩
    · exact ⟨_, List.mem_cons_self .., rfl⟩
  · refine ⟨firstStateOfA, secondStateOfA, _, runSteps_ofA performStep_first rfl,
      runSteps_isolated, rfl, rfl, ?_, not_enforced_local⟩
    exact (enforced_isolationOf_other (by decide)).mpr enforced_isolated

end Attest.Executor
