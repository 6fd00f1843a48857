import Attest.Executor.CacheHistory
import Attest.Executor.Reproducibility
import Attest.Executor.Snapshots
import Attest.Verify.Recompute

/-! A run again, where the receipt of the last one recomputes.

Every step of a run with success leaves an entry under the key that its result gives
(`performStep_kept`), and the steps after it have keys of their own (`cache_performStep`). Where the
result is still in place, the entry is found and serves the step (`performStep_again`). So what
`verify --recompute` passes is what the cache serves: `rerun_served`. -/
namespace Attest.Verify.Rerun
open Library Library.Fallible Hashing Executor
open Executor.Snapshot (validateInputPaths)
open Trust (Bytes Crates utf8 hexEncode)
open Storage
open Recompute (Recomputer nativeProblems)

/-! ### One step -/

section Place
variable (c : Crates) (host : Host) (config : ExecutorConfig) (pipeline : Pipeline)

/-- The files have what a result records. -/
structure InPlace (files : FileSystem) (name : String) (step : Step) (result : StepResult) : Prop where
  capsule : step.capsule.mapM (host.loadCapsule files step) = .ok result.capsuleHash
  inputs : hashInputs c files host.workspace name step.run (step.inputs.map .ofString) =
    .ok result.inputHash
  outputs : hashOutputs c files host.workspace name (step.outputs.map .ofString) =
    .ok result.outputHash

/-- The key of a step with what its result records. -/
def keyOf (name : String) (step : Step) (result : StepResult) : String :=
  contentHash c (host.shape step) name result.inputHash
    (stepEnv config pipeline name step result.capsuleHash)

/-- A result that was served, or would be. -/
def hit (result : StepResult) : StepResult := { result with cacheHit := true }

/-- The cache has this result for the step. -/
def Kept (world : World) (name : String) (step : Step) (result : StepResult) : Prop :=
  ∃ entry, world.cache (keyOf c host config pipeline name step result) = some entry ∧
    entry.contentHash = keyOf c host config pipeline name step result ∧ hit entry.result = hit result

end Place

section Step
variable {c : Crates} {host : Host} {config : ExecutorConfig} {pipeline : Pipeline} {name : String}
  {step : Step} {result : StepResult} {progress next : Progress} {json : Step → String}
  {history : List Execution} {request : Request}

/-- A step whose result is in place and in the cache is served, and nothing changes. -/
theorem performStep_again (hkept : Kept c host config pipeline progress.world name step result)
    (hplace : InPlace c host progress.world.files name step result) (hcache : step.cache = true) :
    performStep c host config pipeline name step progress = .ok (hit result, progress) := by
  obtain ⟨entry, hentry, hhash, hsame⟩ := hkept
  have houtput : entry.result.outputHash = result.outputHash := by
    have h := congrArg StepResult.outputHash hsame
    exact h
  have hinput : computeInputHash c host progress.world.files name step = .ok result.inputHash := by
    rw [computeInputHash, hplace.inputs]
    rfl
  have hmatch : outputsStillMatch c host progress.world.files name step entry = true := by
    rw [outputsStillMatch, hplace.outputs, houtput]
    exact beq_self_eq_true _
  have hfound : getCachedEntry progress.world (keyOf c host config pipeline name step result) =
      (some entry, progress.world) := by
    rw [getCachedEntry, hentry]
    exact if_pos hhash
  have hserved : servedEntry c host progress.world name step
      (keyOf c host config pipeline name step result) = (some entry, progress.world) := by
    rw [servedEntry, if_pos hcache]
    simp only [hfound, Option.filter_some, hmatch, if_true]
  have hkey : contentHash c (host.shape step) name result.inputHash
      (stepEnv config pipeline name step result.capsuleHash) =
        keyOf c host config pipeline name step result := rfl
  rw [performStep_of_key hplace.capsule hinput hkey, hserved]
  show Except.ok (hit entry.result, progress) = _
  rw [hsame]

/-- What a step changes in the cache has its own key. -/
theorem cache_performStep {key : String} (htrust : Trustworthy c host json)
    (hrequest : requestOf c host config pipeline progress.world.files name step = some request)
    (h : performStep c host config pipeline name step progress = .ok (result, next))
    (hkey : key ≠ request.key c json) : next.world.cache key = progress.world.cache key := by
  simp only [performStep, except_bind_eq_ok, mapError_eq_ok] at h
  obtain ⟨capsuleHash, hcapsule, inputHash, hinput, h⟩ := h
  obtain ⟨_, hsome, hname, hstep, _, henv, _, hhash⟩ :=
    @requestOf_eq_some c host config pipeline name step capsuleHash inputHash _ hcapsule hinput
  obtain rfl := Option.some.inj (hrequest.symm.trans hsome)
  rw [← henv, key_requestOf htrust hname hstep hhash] at h
  have hlooked : ∀ found world, servedEntry c host progress.world name step (request.key c json) =
      (found, world) → world.cache key = progress.world.cache key := by
    intro found world hserved
    have hworld : world = (servedEntry c host progress.world name step (request.key c json)).2 := by
      rw [hserved]
    rw [hworld]
    unfold servedEntry getCachedEntry
    split
    next =>
      split
      next => rfl
      next =>
        split
        next => rfl
        next => exact Function.update_of_ne hkey _ _
    next => rfl
  split at h
  next served world hserved =>
    obtain ⟨_, rfl⟩ := Prod.mk.inj (Except.ok.inj h)
    exact hlooked _ _ hserved
  next world hserved =>
    simp only [executeStep, except_bind_eq_ok, mapError_eq_ok, Prod.exists] at h
    obtain ⟨guard, _, execution, after, hexecute, inputsAfter, _, _, hsame, outputHash, added, _, h⟩ := h
    have hafter := htrust.leaves _ _ _ _ _ _ _ _ hexecute
    have hinputs : inputsAfter = inputHash := not_not.mp (refuseIf_eq_ok.mp hsame)
    obtain ⟨_, rfl⟩ := Prod.mk.inj (Except.ok.inj h)
    have hbefore : after.cache key = progress.world.cache key := by
      rw [hafter]
      exact hlooked _ _ hserved
    dsimp only
    split
    next =>
      rw [hinputs, ← henv, key_requestOf htrust hname hstep hhash, Function.update_of_ne hkey, hbefore]
    next => exact hbefore

/-- A look into the cache that finds an entry leaves it there. -/
theorem servedEntry_eq_some {world world' : World} {key : String} {entry : CacheEntry}
    (h : servedEntry c host world name step key = (some entry, world')) :
    world' = world ∧ world.cache key = some entry ∧ entry.contentHash = key := by
  unfold servedEntry at h
  split at h
  next =>
    obtain ⟨hfilter, hworld⟩ := Prod.mk.inj h
    obtain ⟨hfound, _⟩ := Option.filter_eq_some_iff.mp hfilter
    unfold getCachedEntry at hfound hworld
    split at hfound
    next => cases hfound
    next found hcache =>
      split at hfound
      next hhash =>
        obtain rfl := Option.some.inj hfound
        rw [hcache] at hworld
        simp only [hhash, if_true] at hworld
        exact ⟨hworld.symm, hcache, hhash⟩
      next => cases hfound
  next => cases h

/-- A step that ends with success leaves its result in the cache. -/
theorem performStep_kept (hsound : CacheSound c json progress.world history)
    (htrust : Trustworthy c host json)
    (hrequest : requestOf c host config pipeline progress.world.files name step = some request)
    (hcollision : NoCollision c json history request)
    (h : performStep c host config pipeline name step progress = .ok (result, next))
    (hcache : step.cache = true) (hsuccess : result.exitCode = 0) :
    Kept c host config pipeline next.world name step result ∧
      keyOf c host config pipeline name step result = request.key c json := by
  have hperform := h
  simp only [performStep, except_bind_eq_ok, mapError_eq_ok] at h
  obtain ⟨capsuleHash, hcapsule, inputHash, hinput, h⟩ := h
  obtain ⟨_, hsome, hname, hstep, hcap, henv, _, hhash⟩ :=
    @requestOf_eq_some c host config pipeline name step capsuleHash inputHash _ hcapsule hinput
  obtain rfl := Option.some.inj (hrequest.symm.trans hsome)
  have hkey : result.inputHash = inputHash → result.capsuleHash = capsuleHash →
      keyOf c host config pipeline name step result = request.key c json := by
    intro hin hin'
    rw [keyOf, hin, hin', ← henv, key_requestOf htrust hname hstep hhash]
  rw [← henv, key_requestOf htrust hname hstep hhash] at h
  split at h
  next entry world hserved =>
    obtain ⟨hresult, rfl⟩ := Prod.mk.inj (Except.ok.inj h)
    obtain ⟨rfl, hentry, hcontent⟩ := servedEntry_eq_some hserved
    have hhit : result.cacheHit = true := by rw [← hresult]
    have hfaithful := performStep_served hsound htrust hperform hhit hrequest hcollision
    have hin : result.inputHash = inputHash := by
      have hfiles := hfaithful.inputHash
      rw [hname, hstep] at hfiles
      rw [computeInputHash, hfiles] at hinput
      exact Except.ok.inj hinput
    have hin' : result.capsuleHash = capsuleHash := by
      have hfiles := hfaithful.capsuleHash
      rw [hstep, hcapsule] at hfiles
      exact (Except.ok.inj hfiles).symm
    have hown := hkey hin hin'
    refine ⟨⟨entry, ?_, ?_, ?_⟩, hown⟩
    · rw [hown]
      exact hentry
    · rw [hown]
      exact hcontent
    · rw [← hresult]
      rfl
  next world hserved =>
    simp only [executeStep, except_bind_eq_ok, mapError_eq_ok, Prod.exists] at h
    obtain ⟨guard, _, execution, after, hexecute, inputsAfter, _, _, hsame, outputHash, added, _, h⟩ := h
    have hinputs : inputsAfter = inputHash := not_not.mp (refuseIf_eq_ok.mp hsame)
    obtain ⟨hresult, rfl⟩ := Prod.mk.inj (Except.ok.inj h)
    have hown := hkey (by rw [← hresult]) (by rw [← hresult])
    have hstored : (step.cache && (execution.exitCode == 0)) = true := by
      rw [← hresult] at hsuccess
      rw [hcache, Bool.true_and]
      exact beq_iff_eq.mpr hsuccess
    refine ⟨⟨⟨request.key c json, name, result⟩, ?_, hown.symm, rfl⟩, hown⟩
    rw [hown]
    dsimp only
    rw [if_pos hstored, hinputs, ← henv, key_requestOf htrust hname hstep hhash, Function.update_self,
      ← hresult]

/-- Every execution there has been has its name on the result. -/
def Named (history : List Execution) : Prop :=
  ∀ execution ∈ history, execution.result.name = execution.request.name

/-- A result has the name of its step, from the cache too. -/
theorem performStep_named (hsound : CacheSound c json progress.world history) (hnamed : Named history)
    (htrust : Trustworthy c host json)
    (hrequest : requestOf c host config pipeline progress.world.files name step = some request)
    (hcollision : NoCollision c json history request)
    (h : performStep c host config pipeline name step progress = .ok (result, next)) :
    result.name = name := by
  simp only [performStep, except_bind_eq_ok, mapError_eq_ok] at h
  obtain ⟨capsuleHash, hcapsule, inputHash, hinput, h⟩ := h
  obtain ⟨_, hsome, hname, hstep, _, henv, _, hhash⟩ :=
    @requestOf_eq_some c host config pipeline name step capsuleHash inputHash _ hcapsule hinput
  obtain rfl := Option.some.inj (hrequest.symm.trans hsome)
  rw [← henv, key_requestOf htrust hname hstep hhash] at h
  split at h
  next entry world hserved =>
    obtain ⟨hresult, _⟩ := Prod.mk.inj (Except.ok.inj h)
    obtain ⟨_, hentry, _⟩ := servedEntry_eq_some hserved
    obtain ⟨execution, hmem, hstands⟩ := hsound _ entry hentry
    calc result.name = entry.result.name := by rw [← hresult]
      _ = execution.request.name := by rw [hstands.result, hnamed execution hmem]
      _ = name := by rw [(request_of_key hcollision hmem hstands.key).1, hname]
  next world hserved => exact (executeStep_eq_ok h).named

theorem requestOf_of_performStep
    (h : performStep c host config pipeline name step progress = .ok (result, next)) :
    ∃ request, requestOf c host config pipeline progress.world.files name step = some request ∧
      request.name = name := by
  simp only [performStep, except_bind_eq_ok, mapError_eq_ok] at h
  obtain ⟨capsuleHash, hcapsule, inputHash, hinput, _⟩ := h
  obtain ⟨request, hsome, hname, _⟩ :=
    @requestOf_eq_some c host config pipeline name step capsuleHash inputHash _ hcapsule hinput
  exact ⟨request, hsome, hname⟩

theorem lived_named {world : World} (h : Lived c json world history) : Named history := by
  induction h with
  | fresh files =>
    intro execution hexecution
    cases hexecution
  | edited _ _ ih => exact ih
  | dropped _ _ ih => exact ih
  | @performed progress next history host config pipeline name step result _ _ hperform ih =>
    intro execution hexecution
    rcases List.mem_append.mp hexecution with hexecution | hexecution
    · exact ih execution hexecution
    · unfold executionOf at hexecution
      split at hexecution
      next => cases hexecution
      next hfresh =>
        obtain ⟨request, hrequest, hname⟩ := requestOf_of_performStep hperform
        rw [hrequest] at hexecution
        obtain rfl := List.mem_singleton.mp hexecution
        rcases performStep_eq_ok hperform with ⟨entry, _, rfl, _⟩ | ⟨_, capsuleHash, _, hexecuted⟩
        · exact absurd rfl hfresh
        · exact hexecuted.named.trans hname.symm

end Step

/-! ### A run -/

section Run
variable {c : Crates} {host : Host} {config : ExecutorConfig} {pipeline : Pipeline} {name : String}
  {step : Step} {result : StepResult} {progress next : Progress} {json : Step → String}
  {history : List Execution} {request request' : Request} {hashed : Set Bytes} {defined : Set Step}
  {recorded recorded' : List (String × StepResult)} {names : List String}

/-- What a request hashes is among these texts, and its step among these. -/
structure Within (c : Crates) (json : Step → String) (hashed : Set Bytes) (defined : Set Step)
    (request : Request) : Prop where
  texts : request.texts c json ⊆ hashed
  step : request.step ∈ defined

/-- No two of these texts have one digest, and no two of these steps one serialization. -/
structure Distinct (c : Crates) (json : Step → String) (hashed : Set Bytes) (defined : Set Step) :
    Prop where
  digests : Set.InjOn c.blake3 hashed
  definitions : Set.InjOn json defined

theorem Distinct.noCollision (h : Distinct c json hashed defined)
    (hrequest : Within c json hashed defined request)
    (hhistory : ∀ execution ∈ history, Within c json hashed defined execution.request) :
    NoCollision c json history request where
  digests := by
    refine h.digests.mono ?_
    intro bytes hbytes
    rcases hbytes with hbytes | ⟨execution, hexecution, hbytes⟩
    · exact hrequest.texts hbytes
    · exact (hhistory execution hexecution).texts hbytes
  definitions := by
    intro execution hexecution hjson
    exact h.definitions (hhistory execution hexecution).step hrequest.step hjson

theorem Distinct.key_ne (h : Distinct c json hashed defined)
    (hrequest : Within c json hashed defined request)
    (hrequest' : Within c json hashed defined request') (hname : request.name ≠ request'.name) :
    request.key c json ≠ request'.key c json := by
  intro hkey
  have htext : request.keyText c json = request'.keyText c json :=
    digest_inj h.digests (hrequest.texts (by simp [Request.texts]))
      (hrequest'.texts (by simp [Request.texts])) hkey
  exact hname (keyText_inj htext).2.1

/-- What a step asks for is within these. -/
def AsksWithin (c : Crates) (host : Host) (config : ExecutorConfig) (pipeline : Pipeline)
    (json : Step → String) (hashed : Set Bytes) (defined : Set Step) (progress : Progress)
    (name : String) (step : Step) : Prop :=
  ∀ request, requestOf c host config pipeline progress.world.files name step = some request →
    Within c json hashed defined request

/-- The cache has all that has been recorded, each under a key of its own. -/
structure Stocked (c : Crates) (host : Host) (config : ExecutorConfig) (pipeline : Pipeline)
    (json : Step → String) (hashed : Set Bytes) (defined : Set Step) (history : List Execution)
    (recorded : List (String × StepResult)) (world : World) : Prop where
  lived : Lived c json world history
  named : Named history
  within : ∀ execution ∈ history, Within c json hashed defined execution.request
  kept : ∀ entry ∈ recorded, ∃ step request, pipeline.steps.lookup entry.1 = some step ∧
    Kept c host config pipeline world entry.1 step entry.2 ∧
    keyOf c host config pipeline entry.1 step entry.2 = request.key c json ∧
    request.name = entry.1 ∧ Within c json hashed defined request ∧
    ∃ files hash, step.capsule.mapM (host.loadCapsule files step) = .ok hash
  own : ∀ entry ∈ recorded, entry.2.name = entry.1

/-- One step keeps it. -/
theorem Stocked.snoc
    (h : Stocked c host config pipeline json hashed defined history recorded progress.world)
    (hdistinct : Distinct c json hashed defined) (htrust : Trustworthy c host json)
    (hlookup : pipeline.steps.lookup name = some step)
    (hasks : AsksWithin c host config pipeline json hashed defined progress name step)
    (hnew : name ∉ recorded.map Prod.fst)
    (hperform : performStep c host config pipeline name step progress = .ok (result, next))
    (hcache : step.cache = true) (hsuccess : result.exitCode = 0) :
    Stocked c host config pipeline json hashed defined
      (history ++ executionOf c host config pipeline progress.world.files name step result)
      (recorded ++ [(name, result)]) next.world := by
  obtain ⟨request, hrequest, hname⟩ := requestOf_of_performStep hperform
  have hwithin := hasks request hrequest
  have hcollision := hdistinct.noCollision hwithin h.within
  have hsound := lived_sound h.lived
  obtain ⟨hkept, hkey⟩ :=
    performStep_kept hsound htrust hrequest hcollision hperform hcache hsuccess
  have hown := performStep_named hsound h.named htrust hrequest hcollision hperform
  have hadded : ∀ execution ∈ executionOf c host config pipeline progress.world.files name step result,
      execution = ⟨request, result⟩ := by
    intro execution hexecution
    unfold executionOf at hexecution
    split at hexecution
    next => cases hexecution
    next =>
      rw [hrequest] at hexecution
      exact List.mem_singleton.mp hexecution
  refine ⟨h.lived.performed htrust hperform, ?_, ?_, ?_, ?_⟩
  · intro execution hexecution
    rcases List.mem_append.mp hexecution with hexecution | hexecution
    · exact h.named execution hexecution
    · rw [hadded execution hexecution]
      exact hown.trans hname.symm
  · intro execution hexecution
    rcases List.mem_append.mp hexecution with hexecution | hexecution
    · exact h.within execution hexecution
    · rw [hadded execution hexecution]
      exact hwithin
  · intro entry hentry
    rcases List.mem_append.mp hentry with hentry | hentry
    · obtain ⟨own, request', hlookup', ⟨found, hfound, hrest⟩, hkey', hname', hwithin', hloaded⟩ :=
        h.kept entry hentry
      have hne : request'.name ≠ request.name := by
        rw [hname', hname]
        intro hsame
        exact hnew (hsame ▸ List.mem_map_of_mem hentry)
      refine ⟨own, request', hlookup', ⟨found, ?_, hrest⟩, hkey', hname', hwithin', hloaded⟩
      rw [cache_performStep htrust hrequest hperform]
      · exact hfound
      · rw [hkey']
        exact hdistinct.key_ne hwithin' hwithin hne
    · obtain rfl := List.mem_singleton.mp hentry
      obtain ⟨hash, hloaded, _⟩ := except_bind_eq_ok.mp hperform
      exact ⟨step, request, hlookup, hkept, hkey, hname, hwithin, _, hash, mapError_eq_ok.mp hloaded⟩
  · intro entry hentry
    rcases List.mem_append.mp hentry with hentry | hentry
    · exact h.own entry hentry
    · obtain rfl := List.mem_singleton.mp hentry
      exact hown

/-- What has been recorded stays. -/
theorem recorded_stays (h : names.foldlM (performNext c host config pipeline) (recorded, progress) =
    .ok (recorded', next)) : recorded <+: recorded' := by
  induction names generalizing recorded progress with
  | nil =>
    obtain ⟨rfl, _⟩ := Prod.mk.inj (Except.ok.inj h)
    exact List.prefix_refl _
  | cons name rest ih =>
    obtain ⟨step, result, after, _, _, hrest⟩ := foldlM_performNext_cons h
    exact (List.prefix_append _ _).trans (ih hrest)

/-- A run of successes leaves all its results in the cache. -/
theorem Stocked.run
    (h : Stocked c host config pipeline json hashed defined history recorded progress.world)
    (hdistinct : Distinct c json hashed defined) (htrust : Trustworthy c host json)
    (hnodup : (recorded.map Prod.fst ++ names).Nodup)
    (hasks : Throughout c host config pipeline
      (AsksWithin c host config pipeline json hashed defined) progress names)
    (hperformed : names.foldlM (performNext c host config pipeline) (recorded, progress) =
      .ok (recorded', next))
    (hcached : ∀ name step, pipeline.steps.lookup name = some step → step.cache = true)
    (hsucceeded : ∀ entry ∈ recorded', entry.2.exitCode = 0) :
    ∃ history', Stocked c host config pipeline json hashed defined history' recorded' next.world := by
  induction names generalizing recorded progress history with
  | nil =>
    obtain ⟨rfl, rfl⟩ := Prod.mk.inj (Except.ok.inj hperformed)
    exact ⟨history, h⟩
  | cons name rest ih =>
    obtain ⟨step, result, after, hlookup, hperform, hrest⟩ := foldlM_performNext_cons hperformed
    have hmem : (name, result) ∈ recorded' :=
      (recorded_stays hrest).subset (List.mem_append_right _ (List.mem_singleton_self _))
    have hnew : name ∉ recorded.map Prod.fst := by
      intro hold
      exact (List.nodup_append.mp hnodup).2.2 name hold name (List.mem_cons_self ..) rfl
    rw [throughout_cons hlookup hperform] at hasks
    refine ih (h.snoc hdistinct htrust hlookup hasks.1 hnew hperform (hcached name step hlookup)
      (hsucceeded _ hmem)) ?_ hasks.2 hrest
    rw [List.map_append, List.append_assoc]
    exact hnodup

/-! ### The run again -/

/-- A list that is a rearrangement of the images is the images of one. -/
theorem exists_perm_of_map {α β : Type} {f : α → β} {images : List β} : ∀ {items : List α},
    images.Perm (items.map f) → ∃ items' : List α, items'.Perm items ∧ items'.map f = images := by
  induction images with
  | nil =>
    intro items h
    have hnil := List.map_eq_nil_iff.mp h.nil_eq.symm
    exact ⟨[], by rw [hnil], rfl⟩
  | cons image rest ih =>
    intro items h
    obtain ⟨item, hitem, rfl⟩ := List.mem_map.mp (h.subset (List.mem_cons_self ..))
    obtain ⟨before, after, rfl⟩ := List.append_of_mem hitem
    have hrest : rest.Perm ((before ++ after).map f) := by
      have hmiddle := h.trans (List.perm_middle.map f)
      exact hmiddle.cons_inv
    obtain ⟨items', hperm, hmap⟩ := ih hrest
    refine ⟨item :: items', (hperm.cons item).trans List.perm_middle.symm, ?_⟩
    rw [List.map_cons, hmap]

/-- What is in place and in the cache is served, step after step. -/
theorem foldlM_again {world : World} {entries : List (String × StepResult)} : ∀ {st : RunState},
    (∀ entry ∈ entries, ∃ step, pipeline.steps.lookup entry.1 = some step ∧ step.cache = true ∧
      Kept c host config pipeline world entry.1 step entry.2 ∧
      InPlace c host world.files entry.1 step entry.2 ∧ entry.2.exitCode = 0) →
    (∀ before entry after, entries = before ++ entry :: after → ∀ d ∈ pipeline.needs entry.1,
      d ∈ st.completed ∨ d ∈ before.map Prod.fst) →
    st.progress.world = world → st.unsuccessful = [] →
    (entries.map Prod.fst).foldlM (runStep c host config pipeline) st = .ok
      { progress := st.progress
        recorded := st.recorded ++ entries.map fun entry => (entry.1, hit entry.2)
        completed := (entries.map Prod.fst).reverse ++ st.completed
        unsuccessful := [] } := by
  induction entries with
  | nil =>
    intro st _ _ _ hsuccess
    obtain ⟨progress, recorded, completed, unsuccessful⟩ := st
    obtain rfl : unsuccessful = [] := hsuccess
    rw [List.map_nil, List.foldlM_nil, List.map_nil, List.append_nil]
    rfl
  | cons entry rest ih =>
    intro st hentries hneeds hworld hsuccess
    obtain ⟨step, hlookup, hcache, hkept, hplace, hexit⟩ := hentries entry (List.mem_cons_self ..)
    have hperform : performStep c host config pipeline entry.1 step st.progress =
        .ok (hit entry.2, st.progress) := by
      refine performStep_again ?_ ?_ hcache
      · rw [hworld]
        exact hkept
      · rw [hworld]
        exact hplace
    have hdone : ∀ d ∈ step.needs.getD [], d ∈ st.completed ∧ d ∉ st.unsuccessful := by
      intro d hd
      rw [← needs_eq_of_lookup hlookup] at hd
      rcases hneeds [] entry rest rfl d hd with hd | hd
      · exact ⟨hd, by rw [hsuccess]; exact List.not_mem_nil⟩
      · cases hd
    have hstep := runStep_of_performStep hlookup hdone hperform
    have hzero : ¬ (hit entry.2).exitCode ≠ 0 := not_not.mpr hexit
    rw [if_neg hzero, hsuccess] at hstep
    rw [List.map_cons, List.foldlM_cons, hstep]
    show (rest.map Prod.fst).foldlM (runStep c host config pipeline) _ = _
    rw [ih]
    · simp
    · intro other hother
      exact hentries other (List.mem_cons_of_mem _ hother)
    · intro before other after hsplit d hd
      rcases hneeds (entry :: before) other after (by rw [hsplit]; rfl) d hd with hd | hd
      · exact .inl (List.mem_cons_of_mem _ hd)
      · rcases List.mem_cons.mp hd with rfl | hd
        · exact .inl (List.mem_cons_self ..)
        · exact .inr hd
    · exact hworld
    · rfl

end Run

/-! ### What recomputes is served -/

section Served
variable {c : Crates} {host : Host} {config : ExecutorConfig} {pipeline : Pipeline} {name : String}
  {step : Step} {result : StepResult} {r : Recomputer} {files files' : FileSystem}

/-- The executor loads a capsule as the check does, where the declared inputs can be mounted. -/
def Loads (r : Recomputer) (host : Host) : Prop :=
  ∀ files step name hash, host.loadCapsule files step name = .ok hash ↔
    validateInputPaths (step.inputs.map .ofString) = .ok () ∧
    ∃ manifest, Recompute.loadCapsule r files host.workspace name = .ok manifest ∧
      manifest.capsuleHash = some hash

theorem mapM_some {f : String → Except String String} {capsule : String} {hash : Option String} :
    (some capsule).mapM f = .ok hash ↔ ∃ found, f capsule = .ok found ∧ hash = some found := by
  constructor
  · intro h
    obtain ⟨found, hfound, hhash⟩ := except_bind_eq_ok.mp h
    exact ⟨found, hfound, (Except.ok.inj hhash).symm⟩
  · intro h
    obtain ⟨found, hfound, rfl⟩ := h
    exact except_bind_eq_ok.mpr ⟨found, hfound, rfl⟩

theorem inPlace_of_stepAs (hloads : Loads r host)
    (h : Recompute.StepAs r files host.workspace step result) (hname : result.name = name)
    (hloaded : ∃ hash, step.capsule.mapM (host.loadCapsule files' step) = .ok hash) :
    InPlace r.crates host files name step result where
  capsule := by
    have hcapsule := h.capsule
    obtain ⟨hash, hloaded⟩ := hloaded
    cases hdeclared : step.capsule with
    | none =>
      rw [hdeclared] at hcapsule
      rw [show result.capsuleHash = none from hcapsule]
      rfl
    | some capsule =>
      rw [hdeclared] at hcapsule hloaded
      obtain ⟨manifest, recorded, hmanifest, hhash, hresult⟩ := hcapsule
      obtain ⟨found, hfound, _⟩ := mapM_some.mp hloaded
      have hvalid := ((hloads files' step capsule found).mp hfound).1
      refine mapM_some.mpr ⟨recorded, ?_, hresult⟩
      exact (hloads files step capsule recorded).mpr ⟨hvalid, manifest, hmanifest, hhash⟩
  inputs := hname ▸ h.inputs
  outputs := hname ▸ h.outputs

/-- **What recomputes is served.** After a run in which every step succeeded, in any workspace in
which its receipt recomputes, a run of the same pipeline executes nothing: every step is served with
the result there is, the workspace stays as it is, and so does the cache. -/
theorem rerun_served {json : Step → String} {hashed : Set Bytes} {defined : Set Step}
    {history : List Execution} {world : World} {dag : ExecutionDAG} {order : Iteration dag.nodes}
    {sequence : List String} {st : RunState} {receipt : Receipt}
    (hlived : Lived r.crates json world history)
    (hwithin : ∀ execution ∈ history, Within r.crates json hashed defined execution.request)
    (hdistinct : Distinct r.crates json hashed defined) (htrust : Trustworthy r.crates host json)
    (hbuild : ExecutionDAG.build pipeline = .ok dag)
    (hsort : dag.topologicalSort order = .ok sequence)
    (hrun : runSteps r.crates host config pipeline world sequence = .ok st)
    (hasks : Throughout r.crates host config pipeline
      (AsksWithin r.crates host config pipeline json hashed defined) (startState world).progress
        (st.recorded.map Prod.fst))
    (hcached : ∀ name step, pipeline.steps.lookup name = some step → step.cache = true)
    (hsucceeded : ∀ entry ∈ st.recorded, entry.2.exitCode = 0) (hloads : Loads r host)
    (hreceipt : receipt.steps = st.recorded.map Prod.snd)
    (hrecomputes : nativeProblems r files host.workspace receipt pipeline = []) :
    ∀ (order' : Iteration dag.nodes) (sequence' : List String),
      dag.topologicalSort order' = .ok sequence' →
      ∃ st', runSteps r.crates host config pipeline { st.progress.world with files } sequence' =
          .ok st' ∧
        st'.progress = ⟨{ st.progress.world with files }, ⟨0, 0, false⟩, []⟩ ∧
        st'.unsuccessful = [] ∧
        st'.recorded.Perm (st.recorded.map fun entry => (entry.1, hit entry.2)) := by
  intro order' sequence' hsort'
  have hright := rightSteps_of_run r.crates host config pipeline world hbuild hsort hrun
  have hstart : Stocked r.crates host config pipeline json hashed defined history []
      (startState world).progress.world :=
    ⟨hlived, lived_named hlived, hwithin, fun _ h => absurd h List.not_mem_nil, fun _ h => absurd h List.not_mem_nil⟩
  obtain ⟨history', hstocked⟩ :=
    hstart.run hdistinct htrust hright.nodup hasks hright.performed hcached hsucceeded
  obtain ⟨hperm', hordered'⟩ := topologicalSort_eq_ok hbuild hsort'
  have hall : sequence'.Perm (st.recorded.map Prod.fst) := by
    refine (List.perm_ext_iff_of_nodup ?_ hright.nodup).mpr ?_
    · exact hperm'.nodup_iff.mpr pipeline.steps.nodup_keys
    · intro name
      rw [hperm'.mem_iff, recorded_of_succeeded hright]
      intro step hstep
      obtain ⟨entry, hentry, rfl⟩ := List.mem_map.mp hstep
      exact hsucceeded entry hentry
  obtain ⟨entries, hentries, rfl⟩ := exists_perm_of_map hall
  obtain ⟨_, hsteps⟩ := List.append_eq_nil_iff.mp hrecomputes
  have hagain := @foldlM_again r.crates host config pipeline { st.progress.world with files } entries
    (startState { st.progress.world with files }) ?_ ?_ rfl rfl
  · refine ⟨_, hagain, rfl, rfl, ?_⟩
    exact hentries.map _
  · intro entry hentry
    have hmem := hentries.subset hentry
    obtain ⟨step, request, hlookup, hkept, _, _, _, _, hash, hloaded⟩ := hstocked.kept entry hmem
    have hname := hstocked.own entry hmem
    have hresult : entry.2 ∈ receipt.steps := by
      rw [hreceipt]
      exact List.mem_map_of_mem hmem
    obtain ⟨step', hlookup', hstep⟩ :=
      Recompute.stepProblems_eq_nil.mp (List.flatMap_eq_nil_iff.mp hsteps entry.2 hresult)
    rw [hname, hlookup] at hlookup'
    obtain rfl := Option.some.inj hlookup'
    exact ⟨step, hlookup, hcached _ _ hlookup, hkept,
      inPlace_of_stepAs hloads hstep hname ⟨hash, hloaded⟩, hsucceeded entry hmem⟩
  · intro before entry after hsplit d hd
    right
    refine hordered' (before.map Prod.fst) entry.1 (after.map Prod.fst) ?_ d hd
    rw [hsplit, List.map_append, List.map_cons]

end Served

/-! ### One step, run twice -/

/-- The pipeline of the one step, as it is hashed. -/
def yamlOfA : String :=
  "schema_version: 1\nversion: '1.0'\nname: null\nsteps:\n  build:\n    run: 'true'\n" ++
  "    inputs: []\n    outputs:\n    - a\n    needs: null\n    env: null\n    working_dir: null\n" ++
  "    image: null\n    capsule: null\n    cache: true\n    timeout_secs: null\n" ++
  "    attestation: null\nenv: \x7b\x7d\nattestation:\n  sign_all_steps: false\n" ++
  "  verify_dependencies: false\n  require_reproducible: false\n"

/-- The crates, as `blake3` behaves on what the two runs and the check hash. -/
def cratesOfRerun : Crates := tableCrates
  [(utf8 "x", digestX), (utf8 "true", digestTrue),
    (utf8 (inputText digestTrue .empty),
      digestOf 0x5da7d8e2f345944662807c3160ae954d6a6ffb2564f22242004f68fde1532f7f),
    (utf8 (outputText entryOfX),
      digestOf 0x040bc95d792186d9183cc33b67f5cf6c5347c91d8477bbc9315bab208fe959d3),
    (keyTextOfA, digestOf 0x6b3a2d1d1cd90a5044ba24d80a8811ba6f631dd67034341c8502421faa2bde49),
    (utf8 jsonOfA, digestOf 0xcbd17c1e0f8823d2ae369194525c6fc9a574304b9f9daa26fd647d5430dae92c),
    (utf8 yamlOfA, digestOf 0x30412ac8aeceee1a69abf330601fba64ec791bd416f83e164149050dfc199532)]

/-- Nothing is read but the pipeline, and there are no capsules. -/
def recomputerOfA : Recomputer where
  crates := cratesOfRerun
  readPipeline _ := .ok pipelineOfA
  pipelineYaml _ := .ok yamlOfA
  readManifest _ := .error "missing field `name`"
  capsules := ⟨fun _ => .error "EOF while parsing a value", fun _ => .ok ""⟩
  display _ := "/w/attest.yaml"
  showIo _ := "No such file or directory (os error 2)"
  showHashing _ := "declared path is missing"
  showChain _ := "declared path is missing"

def receiptOfA : Receipt :=
  receiptOf Sandbox.linux .docker localConfig
    { factsOfA with pipelineHash := Wrap.digestText cratesOfRerun yamlOfA } firstStateOfA

theorem computeInputHash_rerun :
    computeInputHash cratesOfRerun hostOfA worldOfA.files "build" stepOfA = .ok inputHashOfA := by
  rfl

theorem digests_rerun :
    contentHash cratesOfRerun (hostOfA.shape stepOfA) "build" inputHashOfA
        (stepEnv localConfig pipelineOfA "build" stepOfA none) = keyOfA ∧
      hexEncode (cratesOfRerun.blake3 (utf8 jsonOfA)).toList = shapeOfA ∧
      (([utf8 jsonOfA, utf8 (inputText digestTrue .empty), keyTextOfA]).map
        cratesOfRerun.blake3).Nodup := by
  decide +kernel

theorem outputs_rerun :
    outputsWithArtifacts cratesOfRerun worldOfA.files hostOfA.workspace "build"
      (stepOfA.outputs.map .ofString) = .ok (outputHashOfA, [artifactOfA]) := by
  rfl

theorem performStep_rerun :
    performStep cratesOfRerun hostOfA localConfig pipelineOfA "build" stepOfA
      (startState worldOfA).progress = .ok (resultOfA, firstStateOfA.progress) := by
  rw [performStep_of_key rfl computeInputHash_rerun digests_rerun.1]
  show executeStep cratesOfRerun hostOfA localConfig pipelineOfA "build" stepOfA none inputHashOfA
    (startState worldOfA).progress = _
  exact executeStep_of_key rfl rfl computeInputHash_rerun outputs_rerun digests_rerun.1 rfl

theorem runSteps_rerun :
    runSteps cratesOfRerun hostOfA localConfig pipelineOfA worldOfA ["build"] = .ok firstStateOfA := by
  have hstep := @runStep_of_performStep _ _ _ _ (startState worldOfA) _ _ _ _
    (rfl : pipelineOfA.steps.lookup "build" = some stepOfA)
    (fun dep hdep => absurd hdep List.not_mem_nil) performStep_rerun
  rw [runSteps, List.foldlM_cons, hstep]
  rfl

theorem trustworthy_rerun : Trustworthy cratesOfRerun hostOfA fun _ => jsonOfA := by
  constructor
  · intro step
    exact digests_rerun.2.1.symm
  · intro config world name step env inputHash execution world' h
    cases h
    rfl

theorem lookup_pipelineOfA {name : String} {step : Step}
    (h : pipelineOfA.steps.lookup name = some step) : step = stepOfA := by
  have hentry := List.mem_singleton.mp (SortedMap.lookup_eq_some.mp h)
  exact congrArg Prod.snd hentry

theorem loads_rerun : Loads recomputerOfA hostOfA := by
  intro files step name hash
  constructor
  · intro h
    cases h
  · intro h
    obtain ⟨_, manifest, h, _⟩ := h
    obtain ⟨content, _, h⟩ := except_bind_eq_ok.mp h
    obtain ⟨found, hfound, _⟩ := except_bind_eq_ok.mp h
    cases hfound

/-- The texts of the one step. -/
def textsOfA : List Bytes := [utf8 jsonOfA, utf8 (inputText digestTrue .empty), keyTextOfA]

theorem distinct_rerun :
    Distinct cratesOfRerun (fun _ => jsonOfA) {bytes | bytes ∈ textsOfA} {stepOfA} := by
  constructor
  · exact List.inj_on_of_nodup_map digests_rerun.2.2
  · intro step hstep step' hstep' _
    rw [Set.mem_singleton_iff.mp hstep, Set.mem_singleton_iff.mp hstep']

theorem asksWithin_rerun :
    AsksWithin cratesOfRerun hostOfA localConfig pipelineOfA (fun _ => jsonOfA)
      {bytes | bytes ∈ textsOfA} {stepOfA} (startState worldOfA).progress "build" stepOfA := by
  intro request hrequest
  obtain ⟨_, hsome, hname, hstep, _, henv, hmanifest, hhash⟩ :=
    @requestOf_eq_some cratesOfRerun hostOfA localConfig pipelineOfA "build" stepOfA none inputHashOfA
      worldOfA.files rfl computeInputHash_rerun
  obtain rfl := Option.some.inj (hrequest.symm.trans hsome)
  have hkey : request.keyText cratesOfRerun (fun _ => jsonOfA) = keyTextOfA := by
    rw [Request.keyText, shapeOf, digests_rerun.2.1, hname, hhash, henv]
    rfl
  have htext : inputText digestTrue .empty = request.manifest := Except.ok.inj hmanifest
  refine ⟨?_, hstep⟩
  intro bytes hbytes
  rw [Request.texts, hkey, ← htext] at hbytes
  simpa [textsOfA] using hbytes

theorem recomputes_rerun :
    nativeProblems recomputerOfA worldOfA.files hostOfA.workspace receiptOfA pipelineOfA = [] := by
  rw [nativeProblems, List.append_eq_nil_iff, List.append_eq_nil_iff]
  refine ⟨⟨Recompute.pipelineProblems_eq_nil.mpr ⟨yamlOfA, rfl, rfl⟩, ?_⟩, ?_⟩
  · refine List.flatMap_eq_nil_iff.mpr ?_
    intro name hname
    obtain rfl := List.mem_singleton.mp hname
    exact Recompute.absentProblems_eq_nil.mpr ⟨resultOfA, List.mem_singleton_self _, rfl⟩
  · refine List.flatMap_eq_nil_iff.mpr ?_
    intro result hresult
    obtain rfl := List.mem_singleton.mp hresult
    refine Recompute.stepProblems_eq_nil.mpr ⟨stepOfA, rfl, rfl, ?_, ?_⟩
    · exact mapError_eq_ok.mp computeInputHash_rerun
    · rfl

theorem rerun_served_ofA : ∃ st',
    runSteps cratesOfRerun hostOfA localConfig pipelineOfA cachedWorldOfA ["build"] = .ok st' ∧
      st'.progress = ⟨cachedWorldOfA, ⟨0, 0, false⟩, []⟩ ∧ st'.unsuccessful = [] ∧
      st'.recorded.Perm [("build", hit resultOfA)] := by
  have hsucceeded : ∀ entry ∈ firstStateOfA.recorded, entry.2.exitCode = 0 := by
    intro entry hentry
    rw [List.mem_singleton.mp hentry]
    rfl
  refine rerun_served (r := recomputerOfA) (Lived.fresh worldOfA.files) ?_ distinct_rerun
    trustworthy_rerun rfl sort_ofA runSteps_rerun ?_ ?_ hsucceeded loads_rerun rfl recomputes_rerun
    orderOfA ["build"] sort_ofA
  · intro execution hexecution
    cases hexecution
  · exact (throughout_cons rfl performStep_rerun).mpr ⟨asksWithin_rerun, trivial⟩
  · intro name step hlookup
    rw [lookup_pipelineOfA hlookup]
    rfl

end Attest.Verify.Rerun
