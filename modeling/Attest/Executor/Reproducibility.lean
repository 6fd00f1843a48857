import Attest.Executor.Drivers

/-! What a check of reproducibility says of its two runs.

The check goes through the steps of the first run and looks each up in the second. A step that
only one of the runs recorded is passed over, and so is the exit code of every step.
`verified_honest_iff` says when the verdict it writes is honest all the same. -/
namespace Attest.Executor
open Library Library.Fallible Library.TopologicalSort Hashing
open Trust (DateTime SigningKey utf8 hexEncode Bytes Crates)
open Storage

/-! ### The comparison -/

section Compare
variable {a b : List StepResult}

/-- Both runs recorded the same steps. -/
def SameSteps (a b : List StepResult) : Prop :=
  ∀ name, (∃ step ∈ a, step.name = name) ↔ ∃ step ∈ b, step.name = name

/-- No step that ran has failed, in either run. -/
def Succeeded (a b : List StepResult) : Prop := ∀ step ∈ a ++ b, step.exitCode = 0

/-- What a verified receipt says of its runs. -/
structure Honest (a b : List StepResult) : Prop where
  same : SameSteps a b
  succeeded : Succeeded a b
  outputs : ∀ name, outputOf a name = outputOf b name

/-- A step of the first run has another output in the second. -/
def Diverges (a b : List StepResult) : Prop :=
  ∃ step ∈ a, ∃ hash, outputOf b step.name = some hash ∧ step.outputHash ≠ hash

theorem outputOf_eq_none {steps : List StepResult} {name : String} :
    outputOf steps name = none ↔ ∀ step ∈ steps, step.name ≠ name := by
  simp [outputOf]

theorem mem_of_outputOf {steps : List StepResult} {name hash : String}
    (h : outputOf steps name = some hash) :
    ∃ step ∈ steps, step.name = name ∧ step.outputHash = hash := by
  obtain ⟨step, hfind, hhash⟩ := Option.map_eq_some_iff.mp h
  refine ⟨step, List.mem_reverse.mp (List.mem_of_find?_eq_some hfind), ?_, hhash⟩
  simpa using List.find?_some hfind

theorem isEmpty_divergent : (divergent a b).isEmpty = true ↔ ¬ Diverges a b := by
  simp [divergent, Diverges, Option.any_eq_true]

/-- With the same steps on both sides, a comparison that finds nothing has compared them all. -/
theorem outputOf_eq (hsame : SameSteps a b) (hdiverges : ¬ Diverges a b) (name : String) :
    outputOf a name = outputOf b name := by
  cases ha : outputOf a name with
  | none =>
    symm
    rw [outputOf_eq_none] at ha ⊢
    intro step hstep hname
    obtain ⟨other, hother, hsame⟩ := (hsame name).mpr ⟨step, hstep, hname⟩
    exact ha other hother hsame
  | some hash =>
    obtain ⟨step, hstep, hname, hhash⟩ := mem_of_outputOf ha
    cases hb : outputOf b name with
    | none =>
      obtain ⟨other, hother, hsame⟩ := (hsame name).mp ⟨step, hstep, hname⟩
      exact absurd hsame (outputOf_eq_none.mp hb other hother)
    | some other =>
      by_contra hne
      refine hdiverges ⟨step, hstep, other, hname ▸ hb, ?_⟩
      intro h
      rw [← hhash, h] at hne
      exact hne rfl

theorem honest_iff (hdiverges : ¬ Diverges a b) : Honest a b ↔ SameSteps a b ∧ Succeeded a b :=
  ⟨fun h => ⟨h.same, h.succeeded⟩, fun h => ⟨h.1, h.2, outputOf_eq h.1 hdiverges⟩⟩

theorem verdict_honest_iff :
    ((divergent a b).isEmpty = true → Honest a b) ↔
      Diverges a b ∨ SameSteps a b ∧ Succeeded a b := by
  rw [isEmpty_divergent]
  by_cases h : Diverges a b
  · simp [h]
  · simp [h, honest_iff h]

end Compare

/-! ### What is written -/

section Written
variable {m : Machine} {config : ExecutorConfig} {loader : Option (Except String SigningKey)}
  {loadKey : Except String SigningKey} {tsa : Option String} {pipeline : Pipeline} {w w' : Workspace}
  {x : Copies} {d : Drive} {receipt written : Receipt} {bytes : Bytes} {st : RunState}

theorem signReceipt_keeps {keypair : Option SigningKey} {signed : Receipt}
    (h : signReceipt m keypair receipt = .ok signed) :
    signed.steps = receipt.steps ∧ signed.reproducibility = receipt.reproducibility := by
  cases keypair with
  | none =>
    cases h
    exact ⟨rfl, rfl⟩
  | some key =>
    obtain ⟨_, _, h⟩ := except_bind_eq_ok.mp h
    cases h
    exact ⟨rfl, rfl⟩

theorem reproducibility_timestampIfRequested
    (h : timestampIfRequested m tsa receipt = .ok written) :
    written.reproducibility = receipt.reproducibility := by
  unfold timestampIfRequested at h
  cases tsa with
  | none =>
    cases h
    rfl
  | some url =>
    simp only at h
    split at h
    next => cases h
    next =>
      split at h
      next =>
        cases h
        rfl
      next => cases h

/-- A run records the steps that nothing before them has failed for, and its receipt has their
results. -/
theorem run_steps (h : run m config loader pipeline w = .ok (receipt, w')) :
    ∃ st, RightSteps m.recorder.crates m.host config pipeline w.world st ∧
      receipt.steps = st.recorded.map Prod.snd := by
  obtain ⟨dag, hbuild, h⟩ := except_bind_eq_ok.mp h
  obtain ⟨sequence, hsort, h⟩ := except_bind_eq_ok.mp h
  obtain ⟨st, hrun, h⟩ := except_bind_eq_ok.mp h
  obtain ⟨keypair, _, h⟩ := except_bind_eq_ok.mp h
  obtain ⟨pipelineHash, _, h⟩ := except_bind_eq_ok.mp h
  obtain ⟨signed, hsigned, h⟩ := except_bind_eq_ok.mp h
  obtain ⟨rfl, rfl⟩ := Prod.mk.inj (Except.ok.inj h)
  refine ⟨st, rightSteps_of_run _ _ _ _ _ (mapError_eq_ok.mp hbuild) (mapError_eq_ok.mp hsort) hrun, ?_⟩
  have hsigned := mapError_eq_ok.mp hsigned
  split at hsigned
  next => exact (signReceipt_keeps hsigned).1
  next =>
    cases hsigned
    rfl

/-- A run that comes to its end with no key. -/
theorem run_of_steps {dag : ExecutionDAG} {sequence : List String} {pipelineHash : String}
    (hbuild : ExecutionDAG.build pipeline = .ok dag)
    (hsort : dag.topologicalSort (m.order dag) = .ok sequence)
    (hrun : runSteps m.recorder.crates m.host config pipeline w.world sequence = .ok st)
    (hhash : computePipelineHash m pipeline = .ok pipelineHash)
    (hsign : shouldSignReceipt config = false) :
    ∃ receipt w', run m config none pipeline w = .ok (receipt, w') ∧
      receipt.steps = st.recorded.map Prod.snd := by
  unfold run
  rw [hbuild]
  simp only [mapError_ok, bind, Except.bind]
  rw [hsort]
  simp only [mapError_ok]
  rw [hrun]
  simp only [loadSigningKey, hhash, mapError_ok, hsign]
  exact ⟨_, _, rfl, rfl⟩

theorem finishCheck_reproducibility {a b : Receipt}
    (h : finishCheck m config loadKey tsa w a b = .ok d)
    (hwritten : d.written = some (written, bytes)) :
    written.reproducibility = (reproduced a b).reproducibility := by
  unfold finishCheck at h
  simp only at h
  split at h
  next =>
    obtain ⟨key, _, h⟩ := except_bind_eq_ok.mp h
    obtain ⟨signed, hsigned, h⟩ := except_bind_eq_ok.mp h
    have hkept := (signReceipt_keeps (mapError_eq_ok.mp hsigned)).2
    split at h
    next =>
      cases h
      cases hwritten
    next stamped hstamped =>
      obtain ⟨rfl, _⟩ := writeReceipt_eq_ok h hwritten
      exact (reproducibility_timestampIfRequested hstamped).trans hkept
  next =>
    split at h
    next =>
      cases h
      cases hwritten
    next =>
      obtain ⟨rfl, _⟩ := writeReceipt_eq_ok h hwritten
      rfl

/-- Each result stands under the name of its step. -/
def OwnNames (st : RunState) : Prop := ∀ entry ∈ st.recorded, entry.2.name = entry.1

theorem names_of_ownNames (h : OwnNames st) (name : String) :
    (∃ step ∈ st.recorded.map Prod.snd, step.name = name) ↔ name ∈ st.recorded.map Prod.fst := by
  constructor
  · intro hstep
    obtain ⟨step, hstep, rfl⟩ := hstep
    obtain ⟨entry, hentry, rfl⟩ := List.mem_map.mp hstep
    exact List.mem_map.mpr ⟨entry, hentry, (h entry hentry).symm⟩
  · intro hname
    obtain ⟨entry, hentry, rfl⟩ := List.mem_map.mp hname
    exact ⟨entry.2, List.mem_map_of_mem hentry, h entry hentry⟩

/-- A run in which nothing fails leaves no step out. -/
theorem recorded_of_succeeded {c : Crates} {host : Host} {world : World}
    (hright : RightSteps c host config pipeline world st)
    (hsucceeded : ∀ step ∈ st.recorded.map Prod.snd, step.exitCode = 0) (name : String) :
    name ∈ st.recorded.map Prod.fst ↔ name ∈ pipeline.steps.keys := by
  rw [hright.recorded]
  refine and_iff_left_of_imp fun _ d _ hfailed => ?_
  obtain ⟨result, hresult, hexit⟩ := hfailed
  exact hexit (hsucceeded result (List.mem_map.mpr ⟨_, hresult, rfl⟩))

/-- The two receipts of a check are those of two runs. -/
theorem reproRuns_eq_ok {a b : Receipt} (h : reproRuns config pipeline w x = .ok (a, b)) :
    (∃ files copy, reproRun x.a config pipeline files = .ok (a, copy)) ∧
      ∃ files copy, reproRun x.b config pipeline files = .ok (b, copy) := by
  obtain ⟨filesA, _, h⟩ := except_bind_eq_ok.mp h
  obtain ⟨filesB, _, h⟩ := except_bind_eq_ok.mp h
  obtain ⟨⟨receiptA, copyA⟩, hrunA, h⟩ := except_bind_eq_ok.mp h
  obtain ⟨⟨receiptB, copyB⟩, hrunB, h⟩ := except_bind_eq_ok.mp h
  cases h
  exact ⟨⟨filesA, copyA, hrunA⟩, filesB, copyB, hrunB⟩

end Written

theorem check_hello :
    runPipelineCheckReproducibility (helloMachine sampleDate) localConfig (.error "no key") none
      helloPipeline helloWorkspace helloCopies = .ok checkedDrive := by
  have h := attestRun_check
  rwa [attestRun, if_pos rfl] at h

def failedResult : StepResult := { helloResult with exitCode := 1 }

def failedEvent : CausalEvent :=
  { helloEvent hermeticEnvironment secondDate
      (digestOf 0x5c5e76cdbff5cba06271f9813a50d9ec07a3be9cfee1e2dcb4b5b6ee242d2c5a) with
    exitCode := 1 }

/-- The texts of a run in a copy, and those of the event that says it failed. -/
def failingCrates : Crates := tableCrates
  ([(utf8 "true", digestTrue),
    (utf8 (inputText digestTrue .empty),
      digestOf 0x5da7d8e2f345944662807c3160ae954d6a6ffb2564f22242004f68fde1532f7f),
    (utf8 (outputText .empty),
      digestOf 0x95aba9c3ec14d9c6acb31a2dd401aff1b5fb3a913a0dbd59ec602fc683a6732d),
    (utf8 helloYaml, digestOf 0x13a8bb553d760136cf4580b93b9534106f967ae0a80d6cb09709e26efdcd55ea),
    (utf8 "linux:x86_64:true",
      digestOf 0x0682eb9b033741cbca40155664ceea286a890aa80d753952fce85c21830a4627)] ++
  eventDigests failedEvent 0xd248bbdb2f3fb5f006d1ba5fa7acdfd72eb617303acea062e639fa165f1bd266
    0x5c5e76cdbff5cba06271f9813a50d9ec07a3be9cfee1e2dcb4b5b6ee242d2c5a)

def failingMachine : Machine :=
  { helloMachine secondDate with
    host := { (helloMachine secondDate).host with
      execute := fun _ world _ _ _ _ => .ok (⟨1, "", "", 0⟩, world) }
    recorder := { (helloMachine secondDate).recorder with crates := failingCrates } }

def failingCopies : Copies := { helloCopies with b := failingMachine }

def failingState (world : World) : RunState :=
  ⟨⟨world, ⟨1, 0, false⟩, []⟩, [("hello", failedResult)], ["hello"], ["hello"]⟩

theorem performStep_failing {config : ExecutorConfig} {progress : Progress} :
    performStep failingCrates failingMachine.host config helloPipeline "hello" helloStep progress =
      .ok (failedResult, { progress with held := progress.held.add false false }) := by
  have hinput : ∀ files, computeInputHash failingCrates failingMachine.host files "hello" helloStep =
      .ok failedResult.inputHash := fun _ => rfl
  have houtputs : outputsWithArtifacts failingCrates progress.world.files
      failingMachine.host.workspace "hello" (helloStep.outputs.map .ofString) =
        .ok (failedResult.outputHash, []) := rfl
  rw [performStep_of_key rfl (hinput _) rfl]
  show executeStep failingCrates failingMachine.host config helloPipeline "hello" helloStep none
    failedResult.inputHash progress = _
  rw [executeStep_of_key rfl rfl (hinput _) houtputs rfl rfl, List.append_nil]
  rfl

theorem runSteps_failing {config : ExecutorConfig} {world : World} :
    runSteps failingCrates failingMachine.host config helloPipeline world ["hello"] =
      .ok (failingState world) := by
  have hstep := @runStep_of_performStep _ _ _ _ (startState world) _ _ _ _
    (rfl : helloPipeline.steps.lookup "hello" = some helloStep)
    (fun dep hdep => absurd hdep (List.not_mem_nil))
    (@performStep_failing config (startState world).progress)
  rw [runSteps, List.foldlM_cons, hstep]
  rfl

theorem run_failing {w : Workspace} :
    ∃ receipt w', run failingMachine hermeticConfig none helloPipeline w = .ok (receipt, w') ∧
      receipt.steps = [failedResult] := by
  have hhash : computePipelineHash failingMachine helloPipeline =
      .ok (hexEncode (failingCrates.blake3 (utf8 helloYaml)).toList) := rfl
  exact run_of_steps (show ExecutionDAG.build helloPipeline = .ok helloDag from rfl)
    (show helloDag.topologicalSort (failingMachine.order helloDag) = .ok ["hello"] from rfl)
    (@runSteps_failing hermeticConfig w.world) hhash rfl

end Attest.Executor
