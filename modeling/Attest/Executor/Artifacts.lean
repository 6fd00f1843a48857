import Attest.Evidence.Inventory
import Attest.Executor.Receipt

/-! What the artifacts of a receipt say of its steps.

An executed step adds the entries of its output manifest to the artifacts of the run; a step
that is served from the cache adds none, and its output hash is the one recorded when it was
executed. `inventoried_iff` says of which runs the artifacts give every step's output hash
again. -/
namespace Attest.Executor
open Library Library.Fallible Hashing Evidence
open Trust (Crates utf8 hexEncode)
open Storage
open Sandbox (Platform ContainerRuntime)

/-- The artifacts a receipt lists. -/
def listedArtifacts (receipt : Receipt) : List ArtifactInfo :=
  receipt.provenance.elim [] ExecutionProvenance.artifacts

section Step
variable {c : Crates} {host : Host} {config : ExecutorConfig} {pipeline : Pipeline} {name : String}
  {step : Step} {progress next : Progress} {result : StepResult} {listed : List ArtifactInfo}

/-- The output manifest of a step, by the files there are. -/
def outputEntries (c : Crates) (host : Host) (progress : Progress) (name : String) (step : Step) :
    Except HashingError EntryMap :=
  collectEntries c progress.world.files host.workspace name (step.outputs.map .ofString) .output

/-! ### A manifest and its artifacts -/

theorem artifactLine_artifactOf (entry : ManifestPath × EntryLine) :
    artifactLine (artifactOf name entry) = entry.2.text := by
  obtain ⟨path, kind, digest⟩ := entry
  cases kind with
  | file => rfl
  | link => rfl

/-- The artifacts of a manifest make it again. -/
theorem manifestOf_rebuilt {entries : EntryMap}
    (h : (listed.filter fun artifact => artifact.step == name) =
      entries.entries.map (artifactOf name)) :
    manifestOf (rebuilt listed name) = outputText entries := by
  have hlist : (listed.filter fun artifact => artifact.step == name).map
      (fun artifact => (artifact.path, artifact)) =
        entries.entries.map fun entry => (entry.1.1, artifactOf name entry) := by
    rw [h, List.map_map]
    rfl
  have hsorted : (entries.entries.map fun entry => (entry.1.1, artifactOf name entry)).Pairwise
      fun a b => a.1 < b.1 := List.pairwise_map.mpr entries.sorted
  have hentries : (rebuilt listed name).entries =
      entries.entries.map fun entry => (entry.1.1, artifactOf name entry) := by
    rw [rebuilt, hlist]
    exact SortedMap.entries_insertAll hsorted
  rw [manifestOf, hentries, List.foldl_map, outputText, pushEntries]
  simp only [artifactLine_artifactOf]

theorem manifestOf_rebuilt_of_none (h : ∀ artifact ∈ listed, artifact.step ≠ name) :
    manifestOf (rebuilt listed name) = outputText .empty := by
  apply manifestOf_rebuilt
  rw [List.filter_eq_nil_iff.mpr]
  · rfl
  · intro artifact hartifact
    simpa using h artifact hartifact

theorem of_outputsStillMatch {files : FileSystem} {entry : CacheEntry}
    (h : outputsStillMatch c host files name step entry = true) :
    ∃ entries, collectEntries c files host.workspace name (step.outputs.map .ofString) .output =
        .ok entries ∧
      entry.result.outputHash = hexEncode (c.blake3 (utf8 (outputText entries))).toList := by
  unfold outputsStillMatch hashOutputs outputManifest at h
  cases hentries : collectEntries c files host.workspace name (step.outputs.map .ofString) .output with
  | error e =>
    rw [hentries] at h
    cases h
  | ok entries =>
    rw [hentries] at h
    exact ⟨entries, rfl, (beq_iff_eq.mp h).symm⟩

/-- A step is served only where its outputs are those of the entry. -/
theorem outputHash_servedIn {entry : CacheEntry}
    (h : servedIn c host config pipeline progress name step = some entry) :
    ∃ entries, outputEntries c host progress name step = .ok entries ∧
      entry.result.outputHash = hexEncode (c.blake3 (utf8 (outputText entries))).toList := by
  unfold servedIn at h
  split at h
  next capsuleHash inputHash _ _ =>
    unfold servedEntry at h
    split at h
    next =>
      obtain ⟨_, hmatch⟩ := Option.filter_eq_some_iff.mp h
      rw [files_getCachedEntry] at hmatch
      exact of_outputsStillMatch hmatch
    next => cases h
  next => cases h

/-! ### One step -/

/-- The artifacts of this name give the output hash again. -/
def StepInventoried (c : Crates) (listed : List ArtifactInfo) (name : String) (result : StepResult) :
    Prop :=
  hexEncode (c.blake3 (utf8 (manifestOf (rebuilt listed name)))).toList = result.outputHash

/-- A step that is served from the cache has nothing where it declares its outputs. -/
def ServedBare (c : Crates) (host : Host) (config : ExecutorConfig) (pipeline : Pipeline)
    (progress : Progress) (name : String) (step : Step) : Prop :=
  servedIn c host config pipeline progress name step ≠ none →
    outputEntries c host progress name step = .ok .empty

/-- The output manifest of a step and the empty one have two digests, if they are two. -/
def EmptyDistinct (c : Crates) (host : Host) (progress : Progress) (name : String) (step : Step) :
    Prop :=
  ∀ entries, outputEntries c host progress name step = .ok entries →
    Set.InjOn c.blake3 {utf8 (outputText entries), utf8 (outputText .empty)}

/-- The artifacts one step adds: they are its own, and they give its output hash again unless it
is served with something on disk. -/
theorem performStep_artifacts
    (h : performStep c host config pipeline name step progress = .ok (result, next))
    (hcollision : EmptyDistinct c host progress name step) :
    ∃ added, next.artifacts = progress.artifacts ++ added ∧
      (∀ artifact ∈ added, artifact.step = name) ∧
      (StepInventoried c added name result ↔ ServedBare c host config pipeline progress name step) := by
  rcases performStep_eq_ok h with ⟨entry, hserved, rfl, _, hsame⟩ | ⟨hserved, _, _, hexecuted⟩
  · refine ⟨[], by rw [hsame, List.append_nil], by simp, ?_⟩
    obtain ⟨entries, hentries, hhash⟩ := outputHash_servedIn hserved
    rw [StepInventoried, manifestOf_rebuilt_of_none (by simp)]
    show _ = entry.result.outputHash ↔ _
    rw [hhash]
    constructor
    · intro hdigest _
      have htext := digest_inj (hcollision entries hentries) (.inr rfl) (.inl rfl) hdigest
      rw [hentries, outputText_inj (Trust.utf8_injective htext)]
    · intro hbare
      have hempty := hbare (by rw [hserved]; simp)
      rw [hentries] at hempty
      cases hempty
      rfl
  · obtain ⟨added, houtputs, hadded⟩ := hexecuted.outputs
    obtain ⟨entries, _, hpair⟩ := except_bind_eq_ok.mp houtputs
    obtain ⟨hhash, rfl⟩ := Prod.mk.inj (Except.ok.inj hpair)
    refine ⟨_, hadded, ?_, ?_⟩
    · intro artifact hartifact
      obtain ⟨entry, _, rfl⟩ := List.mem_map.mp hartifact
      rfl
    · have hown : ((entries.entries.map (artifactOf name)).filter fun artifact =>
          artifact.step == name) = entries.entries.map (artifactOf name) := by
        apply List.filter_eq_self.mpr
        intro artifact hartifact
        obtain ⟨entry, _, rfl⟩ := List.mem_map.mp hartifact
        exact beq_self_eq_true name
      have hinventoried : StepInventoried c (entries.entries.map (artifactOf name)) name result := by
        rw [StepInventoried, manifestOf_rebuilt hown]
        exact hhash
      refine iff_of_true hinventoried ?_
      intro hne
      exact absurd hserved hne

/-! ### Whole runs -/

/-- Only the artifacts of its own name count for a step. -/
theorem stepInventoried_congr {listed' : List ArtifactInfo}
    (h : (listed.filter fun artifact => artifact.step == name) =
      listed'.filter fun artifact => artifact.step == name) :
    StepInventoried c listed name result ↔ StepInventoried c listed' name result := by
  rw [StepInventoried, StepInventoried, rebuilt, rebuilt, h]

theorem filter_step_of_ne (h : ∀ artifact ∈ listed, artifact.step ≠ name) :
    (listed.filter fun artifact => artifact.step == name) = [] := by
  apply List.filter_eq_nil_iff.mpr
  intro artifact hartifact
  simpa using h artifact hartifact

/-- The steps of a list, one after the other. -/
theorem foldlM_performNext_artifacts {names : List String}
    {recorded recorded' : List (String × StepResult)} {progress' : Progress} (hnodup : names.Nodup)
    (hfresh : ∀ artifact ∈ progress.artifacts, artifact.step ∉ names)
    (hcollision : Throughout c host config pipeline (EmptyDistinct c host) progress names)
    (h : names.foldlM (performNext c host config pipeline) (recorded, progress) =
      .ok (recorded', progress')) :
    ∃ performed added, recorded' = recorded ++ performed ∧
      progress'.artifacts = progress.artifacts ++ added ∧
      (∀ artifact ∈ added, artifact.step ∈ names) ∧
      ((∀ entry ∈ performed, StepInventoried c progress'.artifacts entry.1 entry.2) ↔
        Throughout c host config pipeline (ServedBare c host config pipeline) progress names) := by
  induction names generalizing recorded progress with
  | nil =>
    cases h
    exact ⟨[], [], by simp, by simp, by simp, by simp [Throughout]⟩
  | cons name rest ih =>
    obtain ⟨hname, hrest⟩ := List.nodup_cons.mp hnodup
    obtain ⟨step, result, after, hlookup, hperform, h⟩ := foldlM_performNext_cons h
    rw [throughout_cons hlookup hperform] at hcollision
    obtain ⟨own, hown, hstep, hfirst⟩ := performStep_artifacts hperform hcollision.1
    have hafter : ∀ artifact ∈ after.artifacts, artifact.step ∉ rest := by
      intro artifact hartifact
      rw [hown] at hartifact
      rcases List.mem_append.mp hartifact with hartifact | hartifact
      · exact fun hmem => hfresh artifact hartifact (List.mem_cons_of_mem name hmem)
      · rw [hstep artifact hartifact]
        exact hname
    obtain ⟨performed, added, hrecorded, hadded, hsteps, hiff⟩ := ih hrest hafter hcollision.2 h
    refine ⟨(name, result) :: performed, own ++ added, ?_, ?_, ?_, ?_⟩
    · rw [hrecorded, List.append_assoc, List.singleton_append]
    · rw [hadded, hown, List.append_assoc]
    · intro artifact hartifact
      rcases List.mem_append.mp hartifact with hartifact | hartifact
      · rw [hstep artifact hartifact]
        exact List.mem_cons_self ..
      · exact List.mem_cons_of_mem name (hsteps artifact hartifact)
    · -- No other step adds artifacts of this name.
      have hown' : (progress'.artifacts.filter fun artifact => artifact.step == name) =
          own.filter fun artifact => artifact.step == name := by
        have hbefore : (progress.artifacts.filter fun artifact => artifact.step == name) = [] := by
          apply filter_step_of_ne
          intro artifact hartifact heq
          exact hfresh artifact hartifact (heq ▸ List.mem_cons_self ..)
        have hlater : (added.filter fun artifact => artifact.step == name) = [] := by
          apply filter_step_of_ne
          intro artifact hartifact heq
          exact hname (heq ▸ hsteps artifact hartifact)
        rw [hadded, hown, List.filter_append, List.filter_append, hbefore, hlater, List.nil_append,
          List.append_nil]
      rw [throughout_cons hlookup hperform, List.forall_mem_cons, hiff,
        stepInventoried_congr hown', hfirst]

end Step

section Run
variable {c : Crates} {host : Host} {config : ExecutorConfig} {pipeline : Pipeline} {world : World}
  {dag : ExecutionDAG} {order : Iteration dag.nodes} {sequence : List String} {st : RunState}

/-- **When the artifacts of a receipt describe its steps.** The manifests rebuilt from the
artifacts of a run give the output hash of every recorded step exactly when no step that was
served from the cache had anything on disk where it declares its outputs. -/
theorem inventoried_iff (platform : Platform) (detected : ContainerRuntime) (facts : ReceiptFacts)
    (hbuild : ExecutionDAG.build pipeline = .ok dag)
    (hsort : dag.topologicalSort order = .ok sequence)
    (hrun : runSteps c host config pipeline world sequence = .ok st)
    (hnames : ∀ entry ∈ st.recorded, entry.2.name = entry.1)
    (hcollision : Throughout c host config pipeline (EmptyDistinct c host)
      (startState world).progress (st.recorded.map Prod.fst)) :
    Inventoried c (receiptOf platform detected config facts st).steps
        (listedArtifacts (receiptOf platform detected config facts st)) ↔
      Throughout c host config pipeline (ServedBare c host config pipeline)
        (startState world).progress (st.recorded.map Prod.fst) := by
  have hright := rightSteps_of_run c host config pipeline world hbuild hsort hrun
  obtain ⟨performed, added, hrecorded, _, _, hiff⟩ := foldlM_performNext_artifacts hright.nodup
    (by intro artifact hartifact; cases hartifact) hcollision hright.performed
  rw [List.nil_append] at hrecorded
  rw [← hiff, ← hrecorded]
  show (∀ step ∈ st.recorded.map Prod.snd, _) ↔ _
  rw [List.forall_mem_map]
  constructor
  · intro h entry hentry
    have hstep := h entry hentry
    rw [hnames entry hentry] at hstep
    exact hstep
  · intro h entry hentry
    rw [hnames entry hentry]
    exact h entry hentry

end Run

/-! ### A step with an output, run twice -/

def stepOfA : Step where
  run := "true"
  inputs := []
  outputs := ["a"]
  needs := none
  env := none
  workingDir := none
  image := none
  capsule := none
  cache := true
  timeoutSecs := none

def pipelineOfA : Pipeline where
  schemaVersion := some 1
  version := "1.0"
  name := none
  steps := ⟨[("build", stepOfA)], List.pairwise_singleton ..⟩
  env := []

def shapeOfA : String := "cbd17c1e0f8823d2ae369194525c6fc9a574304b9f9daa26fd647d5430dae92c"
def inputHashOfA : String := "5da7d8e2f345944662807c3160ae954d6a6ffb2564f22242004f68fde1532f7f"
def outputHashOfA : String := "040bc95d792186d9183cc33b67f5cf6c5347c91d8477bbc9315bab208fe959d3"
def keyOfA : String := "6b3a2d1d1cd90a5044ba24d80a8811ba6f631dd67034341c8502421faa2bde49"

/-- What the key of the step is the digest of. -/
def keyTextOfA : Trust.Bytes := utf8 "attest-cache-key/v4\n" ++
  (keyFields shapeOfA "build" inputHashOfA (stepEnv localConfig pipelineOfA "build" stepOfA none)).flatMap
    fun field => hashField field.1 field.2

def cratesOfA : Crates := tableCrates
  [(utf8 "x", digestX), (utf8 "true", digestTrue),
    (utf8 (inputText digestTrue .empty),
      digestOf 0x5da7d8e2f345944662807c3160ae954d6a6ffb2564f22242004f68fde1532f7f),
    (utf8 (outputText entryOfX),
      digestOf 0x040bc95d792186d9183cc33b67f5cf6c5347c91d8477bbc9315bab208fe959d3),
    (utf8 (outputText .empty),
      digestOf 0x95aba9c3ec14d9c6acb31a2dd401aff1b5fb3a913a0dbd59ec602fc683a6732d),
    (keyTextOfA, digestOf 0x6b3a2d1d1cd90a5044ba24d80a8811ba6f631dd67034341c8502421faa2bde49)]

/-- A host on which the command succeeds and leaves the files as they are. -/
def hostOfA : Host := { exitingHost 0 with shape := fun _ => shapeOfA, hold := fun _ _ => .ok true }

def resultOfA : StepResult := ⟨"build", inputHashOfA, outputHashOfA, 0, 0, false, "", "", none⟩

/-- Before the first run. -/
def worldOfA : World := ⟨filesOfX [nameA], fun _ => none⟩

/-- After it. -/
def cachedWorldOfA : World :=
  ⟨filesOfX [nameA], Function.update (fun _ => none) keyOfA (some ⟨keyOfA, "build", resultOfA⟩)⟩

theorem computeInputHash_ofA :
    computeInputHash cratesOfA hostOfA worldOfA.files "build" stepOfA = .ok inputHashOfA := by
  rfl

theorem contentHash_ofA :
    contentHash cratesOfA (hostOfA.shape stepOfA) "build" inputHashOfA
      (stepEnv localConfig pipelineOfA "build" stepOfA none) = keyOfA := by
  decide +kernel

def artifactOfA : ArtifactInfo := ⟨"build", "a", "file", hexEncode digestX.toList, "blake3"⟩

theorem outputs_ofA :
    outputsWithArtifacts cratesOfA worldOfA.files hostOfA.workspace "build"
      (stepOfA.outputs.map .ofString) = .ok (outputHashOfA, [artifactOfA]) := by
  rfl

/-- After the first run. -/
def firstStateOfA : RunState :=
  ⟨⟨cachedWorldOfA, ⟨1, 0, true⟩, [artifactOfA]⟩, [("build", resultOfA)], ["build"], []⟩

/-- After the second. -/
def secondStateOfA : RunState :=
  ⟨⟨cachedWorldOfA, ⟨0, 0, false⟩, []⟩, [("build", { resultOfA with cacheHit := true })], ["build"], []⟩

theorem performStep_first :
    performStep cratesOfA hostOfA localConfig pipelineOfA "build" stepOfA
      (startState worldOfA).progress = .ok (resultOfA, firstStateOfA.progress) := by
  rw [performStep_of_key rfl computeInputHash_ofA contentHash_ofA]
  show executeStep cratesOfA hostOfA localConfig pipelineOfA "build" stepOfA none inputHashOfA
    (startState worldOfA).progress = _
  exact executeStep_of_key rfl rfl computeInputHash_ofA outputs_ofA contentHash_ofA rfl

theorem performStep_second :
    performStep cratesOfA hostOfA localConfig pipelineOfA "build" stepOfA
      (startState cachedWorldOfA).progress =
        .ok ({ resultOfA with cacheHit := true }, secondStateOfA.progress) := by
  rw [performStep_of_key rfl computeInputHash_ofA contentHash_ofA]
  rfl

theorem runSteps_ofA {world : World} {result : StepResult} {progress : Progress}
    (h : performStep cratesOfA hostOfA localConfig pipelineOfA "build" stepOfA
      (startState world).progress = .ok (result, progress)) (hexit : result.exitCode = 0) :
    runSteps cratesOfA hostOfA localConfig pipelineOfA world ["build"] =
      .ok ⟨progress, [("build", result)], ["build"], []⟩ := by
  have hstep := @runStep_of_performStep _ _ _ _ (startState world) _ _ _ _
    (rfl : pipelineOfA.steps.lookup "build" = some stepOfA)
    (fun dep hdep => absurd hdep (List.not_mem_nil)) h
  rw [runSteps, List.foldlM_cons, hstep, if_neg (not_not.mpr hexit)]
  rfl

/-- What else the receipts of the two runs record. -/
def factsOfA : ReceiptFacts where
  pipelineHash := sampleDigest 'a'
  timestamp := sampleDate
  totalDurationSecs := 0
  attestVersion := "0.4.0"
  provenance := ⟨none, none, none, none, "linux", "x86_64", none, [], [], none⟩
  causalEvents := []
  causalChainHash := none

theorem inventoried_ofA {result : StepResult} (hname : result.name = "build")
    (hhash : result.outputHash = outputHashOfA) :
    Inventoried cratesOfA [result] [artifactOfA] ∧ ¬ Inventoried cratesOfA [result] [] := by
  have hlisted : hexEncode (cratesOfA.blake3 (utf8 (manifestOf (rebuilt [artifactOfA] "build")))).toList =
      outputHashOfA := by
    decide +kernel
  have hnone : hexEncode (cratesOfA.blake3 (utf8 (manifestOf (rebuilt [] "build")))).toList ≠
      outputHashOfA := by
    decide +kernel
  refine ⟨?_, ?_⟩
  · intro step hstep
    rw [List.mem_singleton.mp hstep, hname, hhash]
    exact hlisted
  · intro h
    have hstep := h result (List.mem_singleton.mpr rfl)
    rw [hname, hhash] at hstep
    exact hnone hstep

/-- The graph of the one step. -/
def dagOfA : ExecutionDAG :=
  match ExecutionDAG.build pipelineOfA with
  | .ok dag => dag
  | .error _ => ⟨[], fun _ => []⟩

def orderOfA : Iteration dagOfA.nodes := ⟨["build"], ["build"], .refl _, .refl _⟩

theorem sort_ofA : dagOfA.topologicalSort orderOfA = .ok ["build"] := rfl

theorem emptyDistinct_ofA :
    EmptyDistinct cratesOfA hostOfA (startState worldOfA).progress "build" stepOfA := by
  intro entries hentries
  have hknown : outputEntries cratesOfA hostOfA (startState worldOfA).progress "build" stepOfA =
      .ok entryOfX := rfl
  rw [hknown] at hentries
  cases hentries
  have hne : cratesOfA.blake3 (utf8 (outputText entryOfX)) ≠
      cratesOfA.blake3 (utf8 (outputText .empty)) := by
    decide +kernel
  exact injOn_of_pair (fun bytes hbytes => hbytes) hne

theorem servedBare_ofA :
    ServedBare cratesOfA hostOfA localConfig pipelineOfA (startState worldOfA).progress "build"
      stepOfA := by
  intro hserved
  rcases performStep_eq_ok performStep_first with ⟨entry, _, hresult, _⟩ | ⟨hnone, _⟩
  · have hhit : false = true := congrArg StepResult.cacheHit hresult
    cases hhit
  · exact absurd hnone hserved

theorem inventoried_iff_ofA :
    Inventoried cratesOfA (receiptOf Sandbox.linux .docker localConfig factsOfA firstStateOfA).steps
      (listedArtifacts (receiptOf Sandbox.linux .docker localConfig factsOfA firstStateOfA)) := by
  have hrun := runSteps_ofA performStep_first rfl
  refine (@inventoried_iff cratesOfA hostOfA localConfig pipelineOfA worldOfA dagOfA orderOfA _ _
    Sandbox.linux .docker factsOfA rfl sort_ofA hrun ?_ ?_).mpr ?_
  · intro entry hentry
    rw [List.mem_singleton.mp hentry]
    rfl
  · exact (throughout_cons rfl performStep_first).mpr ⟨emptyDistinct_ofA, trivial⟩
  · exact (throughout_cons rfl performStep_first).mpr ⟨servedBare_ofA, trivial⟩

/-- The second run is served from the first one's cache, and its receipt lists no artifacts. -/
theorem cached_run_not_inventoried :
    ∃ st st', runSteps cratesOfA hostOfA localConfig pipelineOfA worldOfA ["build"] = .ok st ∧
      runSteps cratesOfA hostOfA localConfig pipelineOfA st.progress.world ["build"] = .ok st' ∧
      Inventoried cratesOfA (receiptOf Sandbox.linux .docker localConfig factsOfA st).steps
        (listedArtifacts (receiptOf Sandbox.linux .docker localConfig factsOfA st)) ∧
      ¬ Inventoried cratesOfA (receiptOf Sandbox.linux .docker localConfig factsOfA st').steps
        (listedArtifacts (receiptOf Sandbox.linux .docker localConfig factsOfA st')) :=
  ⟨firstStateOfA, secondStateOfA, runSteps_ofA performStep_first rfl,
    runSteps_ofA performStep_second rfl, (inventoried_ofA rfl rfl).1, (inventoried_ofA rfl rfl).2⟩

end Attest.Executor
