import Attest.Executor.Steps

/-! Which steps a run performs.

Skipping is passed on one level at a time: a step is skipped when one that it needs failed
or was skipped. `Scheduled` relates the sets of the loop to the needs of the needs, and
`run_schedules` is what a whole run comes to, whatever order the sort returns. -/
namespace Attest.Executor
open Library Library.Fallible Library.TopologicalSort Relation
open Trust (Crates)
open Storage (StepResult)
open Hashing (cratesOfX filesOfX)

/-- A step is needed by another, directly or through others. -/
abbrev Pipeline.Before (pipeline : Pipeline) : String → String → Prop :=
  TransGen fun d n => d ∈ pipeline.needs n

/-- The step was performed, and not with success. -/
def Failed (recorded : List (String × StepResult)) (name : String) : Prop :=
  ∃ result, (name, result) ∈ recorded ∧ result.exitCode ≠ 0

section Loop
variable {c : Crates} {host : Host} {config : ExecutorConfig} {pipeline : Pipeline}
  {st st' : RunState} {name : String}

theorem needs_eq_of_lookup {step : Step} (h : pipeline.steps.lookup name = some step) :
    pipeline.needs name = step.needs.getD [] := by
  rw [Pipeline.needs, h]
  rfl

/-- Everything one round of the loop can do. -/
theorem runStep_eq_ok (h : runStep c host config pipeline st name = .ok st') :
    ((∃ dep ∈ pipeline.needs name, dep ∈ st.unsuccessful) ∧
      st' = { st with
        completed := name :: st.completed
        unsuccessful := name :: st.unsuccessful }) ∨
    ((∀ dep ∈ pipeline.needs name, dep ∉ st.unsuccessful) ∧
      ∃ step result progress, pipeline.steps.lookup name = some step ∧
        performStep c host config pipeline name step st.progress = .ok (result, progress) ∧
        st' = {
          progress := progress
          recorded := st.recorded ++ [(name, result)]
          completed := name :: st.completed
          unsuccessful :=
            if result.exitCode ≠ 0 then name :: st.unsuccessful else st.unsuccessful }) := by
  unfold runStep at h
  cases hlookup : pipeline.steps.lookup name with
  | none =>
    rw [hlookup] at h
    cases h
  | some step =>
    simp only [hlookup] at h
    rw [needs_eq_of_lookup hlookup]
    split at h
    next hskip =>
      obtain ⟨dep, hdep, hmem⟩ := List.any_eq_true.mp hskip
      exact .inl ⟨⟨dep, hdep, of_decide_eq_true hmem⟩, (Except.ok.inj h).symm⟩
    next hskip =>
      cases hfind : (step.needs.getD []).find? (· ∉ st.completed) with
      | some dep =>
        rw [hfind] at h
        cases h
      | none =>
        simp only [hfind] at h
        obtain ⟨⟨result, progress⟩, hperform, hst⟩ := except_bind_eq_ok.mp h
        refine .inr ⟨?_, step, result, progress, rfl, ?_, (Except.ok.inj hst).symm⟩
        · intro dep hdep hmem
          exact hskip (List.any_eq_true.mpr ⟨dep, hdep, decide_eq_true hmem⟩)
        · exact mapError_eq_ok.mp hperform

/-- A round that performs its step. -/
theorem runStep_of_performStep {step : Step} {result : StepResult} {progress : Progress}
    (hlookup : pipeline.steps.lookup name = some step)
    (hneeds : ∀ dep ∈ step.needs.getD [], dep ∈ st.completed ∧ dep ∉ st.unsuccessful)
    (h : performStep c host config pipeline name step st.progress = .ok (result, progress)) :
    runStep c host config pipeline st name = .ok {
      progress := progress
      recorded := st.recorded ++ [(name, result)]
      completed := name :: st.completed
      unsuccessful :=
        if result.exitCode ≠ 0 then name :: st.unsuccessful else st.unsuccessful } := by
  have hany : ¬ (step.needs.getD []).any (· ∈ st.unsuccessful) = true := by
    simpa using fun dep hdep => (hneeds dep hdep).2
  have hfind : (step.needs.getD []).find? (· ∉ st.completed) = none := by
    apply List.find?_eq_none.mpr
    intro dep hdep
    simp [(hneeds dep hdep).1]
  unfold runStep
  simp only [hlookup, hfind, h]
  rw [if_neg hany]
  rfl

/-- Where the needs are completed a round stops only in the step it performs. -/
theorem runStep_eq_error {stop : Stop} (hname : name ∈ pipeline.steps.keys)
    (hneeds : ∀ d ∈ pipeline.needs name, d ∈ st.completed)
    (h : runStep c host config pipeline st name = .error stop) :
    ∃ name step progress e, stop = .failed e ∧ pipeline.steps.lookup name = some step ∧
      performStep c host config pipeline name step progress = .error e := by
  obtain ⟨step, hlookup⟩ := SortedMap.mem_keys.mp hname
  unfold runStep at h
  rw [needs_eq_of_lookup hlookup] at hneeds
  simp only [hlookup] at h
  split at h
  next => cases h
  next =>
    have hfind : (step.needs.getD []).find? (· ∉ st.completed) = none := by
      apply List.find?_eq_none.mpr
      intro d hd
      simp [hneeds d hd]
    simp only [hfind] at h
    cases hperform : performStep c host config pipeline name step st.progress with
    | error e =>
      rw [hperform] at h
      cases h
      exact ⟨name, step, st.progress, e, rfl, hlookup, hperform⟩
    | ok done =>
      rw [hperform] at h
      cases h

/-! ### What the loop keeps -/

/-- The sets of the loop after the steps of a list, in terms of what was performed. -/
structure Scheduled (pipeline : Pipeline) (done : List String) (st : RunState) : Prop where
  completed : ∀ n, n ∈ st.completed ↔ n ∈ done
  recorded : ∀ n, n ∈ st.recorded.map Prod.fst ↔
    n ∈ done ∧ ∀ d, pipeline.Before d n → ¬ Failed st.recorded d
  unsuccessful : ∀ n, n ∈ st.unsuccessful ↔
    n ∈ done ∧ (Failed st.recorded n ∨ ∃ d, pipeline.Before d n ∧ Failed st.recorded d)

/-- What is needed comes before, also through others. -/
theorem before_mem {done : List String} (hdone : ∀ n ∈ done, ∀ d ∈ pipeline.needs n, d ∈ done)
    {d n : String} (h : pipeline.Before d n) (hn : n ∈ done) : d ∈ done := by
  induction h with
  | single hneed => exact hdone _ hn _ hneed
  | tail _ hneed ih => exact ih (hdone _ hn _ hneed)

theorem failed_snoc {recorded : List (String × StepResult)} {result : StepResult} {n : String} :
    Failed (recorded ++ [(name, result)]) n ↔
      Failed recorded n ∨ n = name ∧ result.exitCode ≠ 0 := by
  constructor
  · intro h
    obtain ⟨found, hmem, hexit⟩ := h
    rcases List.mem_append.mp hmem with hmem | hmem
    · exact .inl ⟨found, hmem, hexit⟩
    · cases List.mem_singleton.mp hmem
      exact .inr ⟨rfl, hexit⟩
  · intro h
    rcases h with ⟨found, hmem, hexit⟩ | ⟨rfl, hexit⟩
    · exact ⟨found, List.mem_append_left _ hmem, hexit⟩
    · exact ⟨result, List.mem_append_right _ (List.mem_singleton.mpr rfl), hexit⟩

/-- A need of a need failed exactly where a need is not successful. -/
theorem exists_before_failed {done : List String} (h : Scheduled pipeline done st)
    (hneeds : ∀ d ∈ pipeline.needs name, d ∈ done) :
    (∃ d, pipeline.Before d name ∧ Failed st.recorded d) ↔
      ∃ dep ∈ pipeline.needs name, dep ∈ st.unsuccessful := by
  constructor
  · intro hfailed
    obtain ⟨d, hbefore, hd⟩ := hfailed
    rcases TransGen.tail'_iff.mp hbefore with ⟨dep, hreach, hdep⟩
    refine ⟨dep, hdep, (h.unsuccessful dep).mpr ⟨hneeds dep hdep, ?_⟩⟩
    rcases reflTransGen_iff_eq_or_transGen.mp hreach with heq | htrans
    · rw [heq]
      exact .inl hd
    · exact .inr ⟨d, htrans, hd⟩
  · intro hskip
    obtain ⟨dep, hdep, hmem⟩ := hskip
    rcases ((h.unsuccessful dep).mp hmem).2 with hd | ⟨d, hbefore, hd⟩
    · exact ⟨dep, .single hdep, hd⟩
    · exact ⟨d, hbefore.tail hdep, hd⟩

/-- One round keeps it. -/
theorem Scheduled.step {done : List String} (h : Scheduled pipeline done st)
    (hclosed : ∀ n ∈ done, ∀ d ∈ pipeline.needs n, d ∈ done)
    (hneeds : ∀ d ∈ pipeline.needs name, d ∈ done) (hname : name ∉ done)
    (hstep : runStep c host config pipeline st name = .ok st') :
    Scheduled pipeline (done ++ [name]) st' := by
  have hmem : ∀ n, n ∈ done ++ [name] ↔ n = name ∨ n ∈ done := by
    intro n
    rw [List.mem_append, List.mem_singleton, or_comm]
  -- A step is not needed by those that came before it, nor by itself.
  have hself : ∀ n, n = name ∨ n ∈ done → ¬ pipeline.Before name n := by
    intro n hn hbefore
    rcases hn with rfl | hn
    · obtain ⟨dep, hreach, hdep⟩ := TransGen.tail'_iff.mp hbefore
      rcases reflTransGen_iff_eq_or_transGen.mp hreach with heq | htrans
      · exact hname (heq ▸ hneeds dep hdep)
      · exact hname (before_mem hclosed htrans (hneeds dep hdep))
    · exact hname (before_mem hclosed hbefore hn)
  have hunfailed : ¬ Failed st.recorded name := by
    intro hfailed
    obtain ⟨result, hrecorded, _⟩ := hfailed
    exact hname ((h.recorded name).mp (List.mem_map_of_mem hrecorded)).1
  rcases runStep_eq_ok hstep with ⟨hskip, rfl⟩ | ⟨hrun, step, result, progress, _, _, rfl⟩
  · have hfailed := (exists_before_failed h hneeds).mpr hskip
    refine ⟨?_, ?_, ?_⟩
    · intro n
      rw [List.mem_cons, h.completed, hmem]
    · intro n
      rw [h.recorded, hmem]
      constructor
      · intro hn
        exact ⟨.inr hn.1, hn.2⟩
      · intro hn
        refine ⟨hn.1.resolve_left ?_, hn.2⟩
        intro heq
        obtain ⟨d, hbefore, hd⟩ := hfailed
        exact hn.2 d (heq ▸ hbefore) hd
    · intro n
      rw [List.mem_cons, h.unsuccessful, hmem]
      constructor
      · intro hn
        rcases hn with rfl | hn
        · exact ⟨.inl rfl, .inr hfailed⟩
        · exact ⟨.inr hn.1, hn.2⟩
      · intro hn
        rcases hn.1 with heq | hdone
        · exact .inl heq
        · exact .inr ⟨hdone, hn.2⟩
  · have hnone : ∀ d, pipeline.Before d name → ¬ Failed st.recorded d := by
      intro d hbefore hd
      obtain ⟨dep, hdep, hbad⟩ := (exists_before_failed h hneeds).mp ⟨d, hbefore, hd⟩
      exact hrun dep hdep hbad
    have hsame : ∀ n, n = name ∨ n ∈ done → ∀ d, pipeline.Before d n →
        (Failed (st.recorded ++ [(name, result)]) d ↔ Failed st.recorded d) := by
      intro n hn d hbefore
      rw [failed_snoc]
      refine or_iff_left ?_
      intro hd
      exact hself n hn (hd.1 ▸ hbefore)
    refine ⟨?_, ?_, ?_⟩
    · intro n
      rw [List.mem_cons, h.completed, hmem]
    · intro n
      rw [List.map_append, List.mem_append, h.recorded, hmem]
      show _ ∨ n ∈ [name] ↔ _
      rw [List.mem_singleton]
      constructor
      · intro hn
        rcases hn with hn | rfl
        · refine ⟨.inr hn.1, ?_⟩
          intro d hbefore
          rw [hsame n (.inr hn.1) d hbefore]
          exact hn.2 d hbefore
        · refine ⟨.inl rfl, ?_⟩
          intro d hbefore
          rw [hsame n (.inl rfl) d hbefore]
          exact hnone d hbefore
      · intro hn
        rcases hn.1 with heq | hdone
        · exact .inr heq
        · refine .inl ⟨hdone, ?_⟩
          intro d hbefore
          rw [← hsame n (.inr hdone) d hbefore]
          exact hn.2 d hbefore
    · intro n
      have hbefore : ∀ n, n = name ∨ n ∈ done →
          ((∃ d, pipeline.Before d n ∧ Failed (st.recorded ++ [(name, result)]) d) ↔
            ∃ d, pipeline.Before d n ∧ Failed st.recorded d) := by
        intro n hn
        exact exists_congr fun d => and_congr_right (hsame n hn d)
      have hold : n ∈ done → n ≠ name := fun hn heq => hname (heq ▸ hn)
      have hunsuccessful : n ∈ (if result.exitCode ≠ 0 then name :: st.unsuccessful
          else st.unsuccessful) ↔ n = name ∧ result.exitCode ≠ 0 ∨ n ∈ st.unsuccessful := by
        split
        next hexit => simp [hexit]
        next hexit => simp [hexit]
      rw [hunsuccessful, h.unsuccessful, hmem, failed_snoc]
      constructor
      · intro hn
        rcases hn with hn | hn
        · exact ⟨.inl hn.1, .inl (.inr hn)⟩
        · refine ⟨.inr hn.1, ?_⟩
          rw [hbefore n (.inr hn.1)]
          exact hn.2.imp_left Or.inl
      · intro hn
        rw [hbefore n hn.1] at hn
        rcases hn with ⟨hn, (hfailed | hself) | hfailed⟩
        · rcases hn with rfl | hdone
          · exact absurd hfailed hunfailed
          · exact .inr ⟨hdone, .inl hfailed⟩
        · exact .inl hself
        · rcases hn with rfl | hdone
          · obtain ⟨d, hd, hfailed⟩ := hfailed
            exact absurd hfailed (hnone d hd)
          · exact .inr ⟨hdone, .inr hfailed⟩

/-! ### The steps that are performed -/

section Performed
variable (c host config pipeline)

def performNext (done : List (String × StepResult) × Progress) (name : String) :
    Except RunError (List (String × StepResult) × Progress) :=
  match pipeline.steps.lookup name with
  | none => .error (.message "Step not found in pipeline")
  | some step => do
    let (result, progress) ← performStep c host config pipeline name step done.2
    return (done.1 ++ [(name, result)], progress)

/-- The steps of a list and no others, whatever came of them. -/
def performAll (world : World) (names : List String) :
    Except RunError (List (String × StepResult) × Progress) :=
  names.foldlM (performNext c host config pipeline) ([], (startState world).progress)

/-- A run is that of its recorded steps alone, each after what it needs. -/
structure Performed (world : World) (done : List String) (st : RunState) : Prop where
  names : (st.recorded.map Prod.fst).Sublist done
  ordered : Ordered pipeline.needs (st.recorded.map Prod.fst)
  performed : performAll c host config pipeline world (st.recorded.map Prod.fst) =
    .ok (st.recorded, st.progress)

end Performed

theorem performAll_snoc {world : World} {names : List String}
    {recorded : List (String × StepResult)} {progress progress' : Progress} {step : Step}
    {result : StepResult}
    (h : performAll c host config pipeline world names = .ok (recorded, progress))
    (hlookup : pipeline.steps.lookup name = some step)
    (hperform : performStep c host config pipeline name step progress = .ok (result, progress')) :
    performAll c host config pipeline world (names ++ [name]) =
      .ok (recorded ++ [(name, result)], progress') := by
  unfold performAll at h ⊢
  rw [List.foldlM_append, h]
  show performNext c host config pipeline (recorded, progress) name >>= _ = _
  simp only [performNext, hlookup, hperform]
  rfl

/-- One round keeps it. -/
theorem Performed.step {world : World} {done : List String}
    (h : Performed c host config pipeline world done st) (hdone : Scheduled pipeline done st)
    (hneeds : ∀ d ∈ pipeline.needs name, d ∈ done)
    (hstep : runStep c host config pipeline st name = .ok st') :
    Performed c host config pipeline world (done ++ [name]) st' := by
  rcases runStep_eq_ok hstep with ⟨_, rfl⟩ | ⟨hrun, step, result, progress, hlookup, hperform, rfl⟩
  · exact ⟨h.names.trans (List.sublist_append_left ..), h.ordered, h.performed⟩
  · have hnames : (st.recorded ++ [(name, result)]).map Prod.fst =
        st.recorded.map Prod.fst ++ [name] := List.map_append
    refine ⟨?_, ?_, ?_⟩
    · show ((st.recorded ++ [(name, result)]).map Prod.fst).Sublist _
      rw [hnames]
      exact h.names.append (List.Sublist.refl _)
    · show Ordered pipeline.needs ((st.recorded ++ [(name, result)]).map Prod.fst)
      rw [hnames]
      apply ordered_snoc h.ordered
      intro d hd
      -- A need that is done and not without success was performed itself.
      rw [hdone.recorded]
      refine ⟨hneeds d hd, ?_⟩
      intro d' hbefore hfailed
      exact hrun d hd ((hdone.unsuccessful d).mpr ⟨hneeds d hd, .inr ⟨d', hbefore, hfailed⟩⟩)
    · show performAll c host config pipeline world
        ((st.recorded ++ [(name, result)]).map Prod.fst) = _
      rw [hnames]
      exact performAll_snoc h.performed hlookup hperform

/-! ### Whole runs -/

/-- A list of steps, each after what it needs and none twice, has all needs of a prefix in it. -/
theorem ordered_closed {done rest : List String} (hordered : Ordered pipeline.needs (done ++ rest)) :
    ∀ n ∈ done, ∀ d ∈ pipeline.needs n, d ∈ done := by
  intro n hn d hd
  obtain ⟨before, after, rfl⟩ := List.append_of_mem hn
  have hbefore : d ∈ before := by
    apply hordered before n (after ++ rest) _ d hd
    rw [List.append_assoc, List.cons_append]
  exact List.mem_append_left _ hbefore

/-- What is kept from the steps before to all of them; a run that stops stops in a step. -/
theorem foldlM_runStep {world : World} {rest : List String} : ∀ {done : List String} {st : RunState},
    (done ++ rest).Nodup → Ordered pipeline.needs (done ++ rest) →
    (∀ n ∈ rest, n ∈ pipeline.steps.keys) →
    Scheduled pipeline done st → Performed c host config pipeline world done st →
    match rest.foldlM (runStep c host config pipeline) st with
    | .ok st' => Scheduled pipeline (done ++ rest) st' ∧
        Performed c host config pipeline world (done ++ rest) st'
    | .error stop => ∃ name step progress e, stop = .failed e ∧
        pipeline.steps.lookup name = some step ∧
        performStep c host config pipeline name step progress = .error e := by
  induction rest with
  | nil =>
    intro done st _ _ _ hscheduled hperformed
    rw [List.append_nil]
    exact ⟨hscheduled, hperformed⟩
  | cons name rest ih =>
    intro done st hnodup hordered hkeys hscheduled hperformed
    have hneeds : ∀ d ∈ pipeline.needs name, d ∈ done := hordered done name rest rfl
    have hname : name ∉ done := by
      intro hmem
      exact (List.nodup_append.mp hnodup).2.2 name hmem name (List.mem_cons_self ..) rfl
    rw [List.foldlM_cons]
    cases hstep : runStep c host config pipeline st name with
    | ok next =>
      have hsplit : done ++ name :: rest = done ++ [name] ++ rest := by
        rw [List.append_assoc, List.singleton_append]
      rw [hsplit] at hnodup hordered ⊢
      exact ih hnodup hordered (fun n hn => hkeys n (List.mem_cons_of_mem name hn))
        (hscheduled.step (ordered_closed (hsplit ▸ hordered)) hneeds hname hstep)
        (hperformed.step hscheduled hneeds hstep)
    | error stop =>
      exact runStep_eq_error (hkeys name (List.mem_cons_self ..))
        (fun d hd => (hscheduled.completed d).mpr (hneeds d hd)) hstep

end Loop

section Run
variable (c : Crates) (host : Host) (config : ExecutorConfig) (pipeline : Pipeline) (world : World)

/-- What a run that comes to its receipt did: it recorded exactly the steps with no failure
before them, each once and after what it needs, and performed no other. -/
structure RightSteps (st : RunState) : Prop where
  recorded : ∀ n, n ∈ st.recorded.map Prod.fst ↔
    n ∈ pipeline.steps.keys ∧ ∀ d, pipeline.Before d n → ¬ Failed st.recorded d
  nodup : (st.recorded.map Prod.fst).Nodup
  ordered : Ordered pipeline.needs (st.recorded.map Prod.fst)
  performed : performAll c host config pipeline world (st.recorded.map Prod.fst) =
    .ok (st.recorded, st.progress)

theorem scheduled_start : Scheduled pipeline [] (startState world) := by
  refine ⟨?_, ?_, ?_⟩
  · intro n
    exact Iff.rfl
  · intro n
    simp [startState]
  · intro n
    simp [startState]

theorem performed_start : Performed c host config pipeline world [] (startState world) := by
  refine ⟨List.Sublist.refl _, ?_, rfl⟩
  intro before n after hsplit
  simp [startState] at hsplit

/-- A run in an order that lists every step once, after what it needs. -/
theorem runSteps_right {sequence : List String} (hperm : sequence.Perm pipeline.steps.keys)
    (hordered : Ordered pipeline.needs sequence) :
    match runSteps c host config pipeline world sequence with
    | .ok st => RightSteps c host config pipeline world st
    | .error stop => ∃ name step progress e, stop = .failed e ∧
        pipeline.steps.lookup name = some step ∧
        performStep c host config pipeline name step progress = .error e := by
  have hnodup : sequence.Nodup := hperm.nodup_iff.mpr pipeline.steps.nodup_keys
  have hrun := @foldlM_runStep c host config pipeline world sequence [] (startState world)
    hnodup hordered (fun n hn => hperm.mem_iff.mp hn) (scheduled_start pipeline world)
    (performed_start c host config pipeline world)
  rw [← runSteps] at hrun
  split
  next st hst =>
    simp only [hst] at hrun
    obtain ⟨hscheduled, hperformed⟩ := hrun
    refine ⟨?_, hperformed.names.nodup hnodup, hperformed.ordered, hperformed.performed⟩
    intro n
    rw [hscheduled.recorded n, List.nil_append, hperm.mem_iff]
  next stop hst =>
    simp only [hst] at hrun
    exact hrun

/-- The same of a run that comes to its receipt. -/
theorem rightSteps_of_run {dag : ExecutionDAG} {order : Iteration dag.nodes}
    {sequence : List String} {st : RunState} (hbuild : ExecutionDAG.build pipeline = .ok dag)
    (hsort : dag.topologicalSort order = .ok sequence)
    (hrun : runSteps c host config pipeline world sequence = .ok st) :
    RightSteps c host config pipeline world st := by
  obtain ⟨hperm, hordered⟩ := topologicalSort_eq_ok hbuild hsort
  have hright := runSteps_right c host config pipeline world hperm hordered
  simp only [hrun] at hright
  exact hright

/-- **The steps of a run.** Whatever the orders of the hash maps, a pipeline whose needs are
known and go round in no circle has an order, and a run in this order records exactly the
steps with no failure before them, unless a step it performs gives an error: it never waits. -/
theorem run_schedules (hknown : KnownNeeds pipeline) (hacyclic : Acyclic pipeline.needs) :
    ∃ dag, ExecutionDAG.build pipeline = .ok dag ∧ ∀ order : Iteration dag.nodes,
      ∃ sequence, dag.topologicalSort order = .ok sequence ∧
        match runSteps c host config pipeline world sequence with
        | .ok st => RightSteps c host config pipeline world st
        | .error stop => ∃ name step progress e, stop = .failed e ∧
            pipeline.steps.lookup name = some step ∧
            performStep c host config pipeline name step progress = .error e := by
  obtain ⟨dag, hbuild⟩ := build_ok hknown hacyclic
  refine ⟨dag, hbuild, ?_⟩
  intro order
  obtain ⟨sequence, hsort⟩ := topologicalSort_ok hbuild hacyclic order
  obtain ⟨hperm, hordered⟩ := topologicalSort_eq_ok hbuild hsort
  exact ⟨sequence, hsort, runSteps_right c host config pipeline world hperm hordered⟩

end Run

/-! A pipeline of two steps, where the first one fails. -/

def commandStep (run : String) (needs : List String) : Step where
  run := run
  inputs := []
  outputs := []
  needs := some needs
  env := none
  workingDir := none
  image := none
  capsule := none
  cache := true
  timeoutSecs := none

def fetchBuild : Pipeline where
  schemaVersion := some 1
  version := "1.0"
  name := none
  steps := ⟨[("build", commandStep "true" ["fetch"]), ("fetch", commandStep "false" [])],
    by decide⟩
  env := []

def localConfig : ExecutorConfig where
  isolated := false
  signResults := false
  deterministic := true
  containerImage := none
  sandboxConfig := none
  hermeticEnv := false
  mode := none

/-- A host on which every command ends with the same exit code and changes nothing. -/
def exitingHost (exitCode : Int32) : Host where
  workspace := .ofString "/w"
  shape _ := ""
  loadCapsule _ _ _ := .error "no capsule"
  hold _ _ := .ok false
  execute _ world _ _ _ _ := .ok (⟨exitCode, "", "", 0⟩, world)

theorem needs_fetchBuild (n : String) : ∀ d ∈ fetchBuild.needs n, d = "fetch" ∧ n = "build" := by
  intro d hd
  by_cases hn : n ∈ fetchBuild.steps.keys
  · have hkeys : n = "build" ∨ n = "fetch" := by simpa [fetchBuild, SortedMap.keys] using hn
    rcases hkeys with rfl | rfl
    · exact ⟨List.mem_singleton.mp hd, rfl⟩
    · cases hd
  · rw [needs_eq_nil hn] at hd
    cases hd

theorem knownNeeds_fetchBuild : KnownNeeds fetchBuild := by
  intro n d hd
  rw [(needs_fetchBuild n d hd).1]
  decide

theorem acyclic_fetchBuild : Acyclic fetchBuild.needs := by
  apply acyclic_of_rank fun n => if n = "build" then 1 else 0
  intro n d hd
  obtain ⟨rfl, rfl⟩ := needs_fetchBuild n d hd
  decide

theorem run_schedules_fetchBuild :
    ∃ dag, ExecutionDAG.build fetchBuild = .ok dag ∧ ∀ order : Iteration dag.nodes,
      ∃ sequence, dag.topologicalSort order = .ok sequence ∧
        match runSteps cratesOfX (exitingHost 1) localConfig fetchBuild
          ⟨filesOfX [], fun _ => none⟩ sequence with
        | .ok st => RightSteps cratesOfX (exitingHost 1) localConfig fetchBuild
            ⟨filesOfX [], fun _ => none⟩ st
        | .error stop => ∃ name step progress e, stop = .failed e ∧
            fetchBuild.steps.lookup name = some step ∧
            performStep cratesOfX (exitingHost 1) localConfig fetchBuild name step progress =
              .error e :=
  run_schedules _ _ _ _ _ knownNeeds_fetchBuild acyclic_fetchBuild

end Attest.Executor
