import Attest.Executor.Controls
import Attest.Executor.Encoding

/-! What a result from the cache rests on, over any history of runs.

A step is looked up under a key made of its shape, its name, its inputs and its environment,
and stored under the key that is computed again when it has ended. Between runs anything may
happen to the files, and the cache is written by the runs alone. What is in it then goes back
to an execution that ended with success (`lived_sound`), and `cached_results_stand` says what
a result that is recorded from it says of the workspace as it is. -/
namespace Attest.Executor
open Library Library.Fallible Hashing
open Trust (Bytes Crates utf8 hexEncode)
open Storage

def capsuleVariable : String := "ATTEST_CAPSULE_HASH"

theorem lookup_insertAll_concat {env : SortedMap String String} {entries : List (String × String)}
    {key value : String} :
    (env.insertAll (entries ++ [(key, value)])).lookup key = some value := by
  rw [SortedMap.insertAll, List.foldl_append]
  show (SortedMap.insert _ key value).lookup key = some value
  rw [SortedMap.lookup_insert, if_pos rfl]

theorem lookup_stepEnv {config : ExecutorConfig} {pipeline : Pipeline} {name : String} {step : Step}
    {hash : String} :
    (stepEnv config pipeline name step (some hash)).lookup capsuleVariable = some hash :=
  lookup_insertAll_concat

/-! ### Requests and executions -/

/-- What a step is asked to do: its definition, its environment and its inputs. -/
structure Request where
  name : String
  step : Step
  capsuleHash : Option String
  env : SortedMap String String
  manifest : String
  /-- The environment names the capsule in force. -/
  capsuled : ∀ hash, capsuleHash = some hash → env.lookup capsuleVariable = some hash
  /-- A capsule is in force exactly where one is declared. -/
  declared : capsuleHash ≠ none ↔ step.capsule ≠ none

/-- A request that was executed, and what came of it. -/
structure Execution where
  request : Request
  result : StepResult

section Request
variable (c : Crates) (host : Host) (config : ExecutorConfig) (pipeline : Pipeline)

/-- The request a step makes in a state. -/
def requestOf (files : FileSystem) (name : String) (step : Step) : Option Request :=
  match hcapsule : step.capsule.mapM (host.loadCapsule files step),
    inputManifest c files host.workspace name step.run (step.inputs.map .ofString) with
  | .ok capsuleHash, .ok manifest => some
    { name := name
      step := step
      capsuleHash := capsuleHash
      env := stepEnv config pipeline name step capsuleHash
      manifest := manifest
      capsuled := by
        intro hash hhash
        rw [hhash]
        exact lookup_stepEnv
      declared := isSome_of_mapM hcapsule }
  | _, _ => none

/-- The execution a performed step adds to the history: none, where it was served. -/
def executionOf (files : FileSystem) (name : String) (step : Step) (result : StepResult) :
    List Execution :=
  if result.cacheHit then []
  else ((requestOf c host config pipeline files name step).map fun request =>
    Execution.mk request result).toList

variable (json : Step → String)

/-- `execution_shape`, of the serialized definition. -/
def shapeOf (step : Step) : String := hexEncode (c.blake3 (utf8 (json step))).toList

def Request.inputHash (request : Request) : String :=
  hexEncode (c.blake3 (utf8 request.manifest)).toList

/-- What the key of a request is the digest of. -/
def Request.keyText (request : Request) : Bytes :=
  Executor.keyText (shapeOf c json request.step) request.name (request.inputHash c) request.env

def Request.key (request : Request) : String :=
  hexEncode (c.blake3 (request.keyText c json)).toList

/-- The texts that are hashed for a request. -/
def Request.texts (request : Request) : Set Bytes :=
  {utf8 (json request.step), utf8 request.manifest, request.keyText c json}

/-- What a run relies on: a shape is the digest of the serialized step, and no command
writes the cache. -/
structure Trustworthy : Prop where
  shape : ∀ step, host.shape step = shapeOf c json step
  leaves : ∀ config world name step env inputHash execution world',
    host.execute config world name step env inputHash = .ok (execution, world') →
      world'.cache = world.cache

end Request

/-! ### Histories -/

/-- The worlds a workspace can be in, with the executions there have been: the files change in
any way at any time, and the cache by the steps that are performed and by entries that are
taken out. A run that stops has performed the steps before and leaves the files in some way. -/
inductive Lived (c : Crates) (json : Step → String) : World → List Execution → Prop
  | fresh (files : FileSystem) : Lived c json ⟨files, fun _ => none⟩ []
  | edited {world : World} {history : List Execution} (h : Lived c json world history)
      (files : FileSystem) : Lived c json { world with files := files } history
  | dropped {world : World} {history : List Execution} (h : Lived c json world history)
      (key : String) :
      Lived c json { world with cache := Function.update world.cache key none } history
  | performed {progress next : Progress} {history : List Execution} {host : Host}
      {config : ExecutorConfig} {pipeline : Pipeline} {name : String} {step : Step}
      {result : StepResult} (h : Lived c json progress.world history)
      (htrust : Trustworthy c host json)
      (hperform : performStep c host config pipeline name step progress = .ok (result, next)) :
      Lived c json next.world
        (history ++ executionOf c host config pipeline progress.world.files name step result)

/-- What an entry of the cache goes back to. -/
structure GoesBack (c : Crates) (json : Step → String) (key : String) (entry : CacheEntry)
    (execution : Execution) : Prop where
  key : key = execution.request.key c json
  result : entry.result = execution.result
  success : execution.result.exitCode = 0
  inputHash : execution.result.inputHash = execution.request.inputHash c
  capsuleHash : execution.result.capsuleHash = execution.request.capsuleHash

/-- Every entry of the cache goes back to an execution. -/
def CacheSound (c : Crates) (json : Step → String) (world : World) (history : List Execution) : Prop :=
  ∀ key entry, world.cache key = some entry → ∃ execution ∈ history, GoesBack c json key entry execution

/-! ### What a step does to the cache -/

section Step
variable {c : Crates} {host : Host} {config : ExecutorConfig} {pipeline : Pipeline}
  {json : Step → String} {name : String} {step : Step} {progress next : Progress}
  {result : StepResult} {history : List Execution}

theorem cache_getCachedEntry {world : World} {key other : String} {entry : CacheEntry}
    (h : (getCachedEntry world key).2.cache other = some entry) : world.cache other = some entry := by
  unfold getCachedEntry at h
  split at h
  next => exact h
  next =>
    split at h
    next => exact h
    next =>
      by_cases hkey : other = key
      · rw [hkey] at h
        simp at h
      · simpa [Function.update_of_ne hkey] using h

theorem cache_servedEntry {world : World} {key other : String} {entry : CacheEntry}
    (h : (servedEntry c host world name step key).2.cache other = some entry) :
    world.cache other = some entry := by
  unfold servedEntry at h
  split at h
  next => exact cache_getCachedEntry h
  next => exact h

theorem of_servedEntry {world : World} {key : String} {entry : CacheEntry}
    (h : (servedEntry c host world name step key).1 = some entry) :
    world.cache key = some entry ∧
      hashOutputs c world.files host.workspace name (step.outputs.map .ofString) =
        .ok entry.result.outputHash := by
  unfold servedEntry at h
  split at h
  next =>
    obtain ⟨hfound, hmatch⟩ := Option.filter_eq_some_iff.mp h
    rw [files_getCachedEntry] at hmatch
    constructor
    · unfold getCachedEntry at hfound
      split at hfound
      next => cases hfound
      next found hcache =>
        split at hfound
        next =>
          cases hfound
          exact hcache
        next => cases hfound
    · unfold outputsStillMatch at hmatch
      split at hmatch
      next onDisk hhash => rw [hhash, beq_iff_eq.mp hmatch]
      next => cases hmatch
  next => cases h

theorem requestOf_eq_some {capsuleHash : Option String} {inputHash : String} {files : FileSystem}
    (hcapsule : step.capsule.mapM (host.loadCapsule files step) = .ok capsuleHash)
    (hinput : computeInputHash c host files name step = .ok inputHash) :
    ∃ request, requestOf c host config pipeline files name step = some request ∧
      request.name = name ∧ request.step = step ∧ request.capsuleHash = capsuleHash ∧
      request.env = stepEnv config pipeline name step capsuleHash ∧
      inputManifest c files host.workspace name step.run (step.inputs.map .ofString) =
        .ok request.manifest ∧
      request.inputHash c = inputHash := by
  rw [computeInputHash, mapError_eq_ok] at hinput
  obtain ⟨manifest, hmanifest, hhash⟩ := except_bind_eq_ok.mp hinput
  unfold requestOf
  split
  next hcap hman =>
    rw [hcapsule] at hcap
    rw [hmanifest] at hman
    cases hcap
    cases hman
    exact ⟨_, rfl, rfl, rfl, rfl, rfl, hmanifest, Except.ok.inj hhash⟩
  next hnone => exact absurd hmanifest (hnone _ _ hcapsule)

/-- The key a step is looked up and stored under is that of its request. -/
theorem key_requestOf {request : Request} {inputHash : String} (htrust : Trustworthy c host json)
    (hname : request.name = name) (hstep : request.step = step)
    (hhash : request.inputHash c = inputHash) :
    contentHash c (host.shape step) name inputHash request.env = request.key c json := by
  rw [htrust.shape, ← hname, ← hstep, ← hhash]
  rfl

/-- Everything a performed step does to the cache: an entry that is there afterwards was there
before, or is that of the step, which was executed with success. -/
theorem performStep_cache (htrust : Trustworthy c host json)
    (h : performStep c host config pipeline name step progress = .ok (result, next)) {key : String}
    {entry : CacheEntry} (hentry : next.world.cache key = some entry) :
    progress.world.cache key = some entry ∨
      ∃ execution ∈ executionOf c host config pipeline progress.world.files name step result,
        GoesBack c json key entry execution := by
  simp only [performStep, except_bind_eq_ok, mapError_eq_ok] at h
  obtain ⟨capsuleHash, hcapsule, inputHash, hinput, h⟩ := h
  split at h
  next served world hserved =>
    cases h
    left
    apply cache_servedEntry
    rw [hserved]
    exact hentry
  next world hserved =>
    simp only [executeStep, except_bind_eq_ok, mapError_eq_ok, Prod.exists] at h
    obtain ⟨guard, _, execution, after, hexecute, inputsAfter, _, _, hsame, outputHash, added, _, h⟩ := h
    have hafter := htrust.leaves _ _ _ _ _ _ _ _ hexecute
    have hinputs : inputsAfter = inputHash := not_not.mp (refuseIf_eq_ok.mp hsame)
    obtain ⟨hresult, hnext⟩ := Prod.mk.inj (Except.ok.inj h)
    have hkept : ∀ k e, after.cache k = some e → progress.world.cache k = some e := by
      intro k e hk
      rw [hafter] at hk
      apply cache_servedEntry
      rw [hserved]
      exact hk
    rw [← hnext] at hentry
    dsimp only at hentry
    split at hentry
    next hstored =>
      obtain ⟨request, hrequest, hname, hstep, hcap, henv, _, hhash⟩ :=
        @requestOf_eq_some c host config pipeline name step capsuleHash inputHash _ hcapsule hinput
      rw [hinputs, ← henv, key_requestOf htrust hname hstep hhash] at hentry
      by_cases hkey : key = request.key c json
      · right
        rw [hkey, Function.update_self] at hentry
        cases hentry
        have hsuccess : result.exitCode = 0 := by
          rw [← hresult]
          exact beq_iff_eq.mp (Bool.and_eq_true_iff.mp hstored).2
        refine ⟨⟨request, result⟩, ?_, hkey, hresult, hsuccess, ?_, ?_⟩
        · rw [executionOf, hrequest, if_neg (by rw [← hresult]; simp)]
          exact List.mem_singleton_self _
        · rw [← hresult]
          exact hhash.symm
        · rw [← hresult]
          exact hcap.symm
      · left
        rw [Function.update_of_ne hkey] at hentry
        exact hkept key entry hentry
    next =>
      left
      exact hkept key entry hentry

end Step

section History
variable {c : Crates} {json : Step → String} {world : World} {history : List Execution}

/-- In every world a workspace can be in, the cache is sound. -/
theorem lived_sound (h : Lived c json world history) : CacheSound c json world history := by
  induction h with
  | fresh files =>
    intro key entry hentry
    cases hentry
  | edited _ _ ih => exact ih
  | dropped _ key ih =>
    intro other entry hentry
    by_cases hkey : other = key
    · rw [hkey] at hentry
      simp at hentry
    · exact ih other entry (by simpa [Function.update_of_ne hkey] using hentry)
  | performed _ htrust hperform ih =>
    intro key entry hentry
    rcases performStep_cache htrust hperform hentry with hbefore | ⟨execution, hmem, hstands⟩
    · obtain ⟨execution, hmem, hstands⟩ := ih key entry hbefore
      exact ⟨execution, List.mem_append_left _ hmem, hstands⟩
    · exact ⟨execution, List.mem_append_right _ hmem, hstands⟩

/-- No two of the texts hashed for an execution of the history and for a request have one
digest, and no two of their steps one serialization. -/
structure NoCollision (c : Crates) (json : Step → String) (history : List Execution)
    (request : Request) : Prop where
  digests : Set.InjOn c.blake3
    (request.texts c json ∪ {bytes | ∃ execution ∈ history, bytes ∈ execution.request.texts c json})
  definitions : ∀ execution ∈ history,
    json execution.request.step = json request.step → execution.request.step = request.step

/-- One key is of one request. -/
theorem request_of_key {request : Request} {execution : Execution}
    (hcollision : NoCollision c json history request) (hmem : execution ∈ history)
    (h : request.key c json = execution.request.key c json) :
    execution.request.name = request.name ∧ execution.request.step = request.step ∧
      execution.request.env = request.env ∧ execution.request.manifest = request.manifest := by
  have hnow : ∀ bytes ∈ request.texts c json, bytes ∈ request.texts c json ∪
      {bytes | ∃ execution ∈ history, bytes ∈ execution.request.texts c json} :=
    fun _ hbytes => .inl hbytes
  have hthen : ∀ bytes ∈ execution.request.texts c json, bytes ∈ request.texts c json ∪
      {bytes | ∃ execution ∈ history, bytes ∈ execution.request.texts c json} :=
    fun _ hbytes => .inr ⟨execution, hmem, hbytes⟩
  have htext : request.keyText c json = execution.request.keyText c json :=
    digest_inj hcollision.digests (hnow _ (by simp [Request.texts])) (hthen _ (by simp [Request.texts])) h
  obtain ⟨hshape, hname, hhash, henv⟩ := keyText_inj htext
  have hjson : utf8 (json request.step) = utf8 (json execution.request.step) :=
    digest_inj hcollision.digests (hnow _ (by simp [Request.texts])) (hthen _ (by simp [Request.texts]))
      hshape
  have hmanifest : utf8 request.manifest = utf8 execution.request.manifest :=
    digest_inj hcollision.digests (hnow _ (by simp [Request.texts])) (hthen _ (by simp [Request.texts]))
      hhash
  exact ⟨hname.symm, hcollision.definitions execution hmem (Trust.utf8_injective hjson).symm,
    henv.symm, (Trust.utf8_injective hmanifest).symm⟩

/-- Requests alike in their step and their environment have one capsule in force. -/
theorem capsuleHash_of_alike {request request' : Request} (hstep : request'.step = request.step)
    (henv : request'.env = request.env) : request'.capsuleHash = request.capsuleHash := by
  cases hnow : request.capsuleHash with
  | none =>
    have hundeclared : ¬ request'.step.capsule ≠ none := by
      rw [hstep, ← request.declared, hnow]
      simp
    rw [← request'.declared, not_not] at hundeclared
    exact hundeclared
  | some hash =>
    have hdeclared : request'.capsuleHash ≠ none := by
      rw [request'.declared, hstep, ← request.declared, hnow]
      simp
    obtain ⟨hash', hthen⟩ := Option.ne_none_iff_exists'.mp hdeclared
    have hlookup := request'.capsuled hash' hthen
    rw [henv, request.capsuled hash hnow] at hlookup
    rw [hthen, Option.some.inj hlookup]

/-! ### What a served step says -/

/-- What a result recorded from the cache says of the files there are and of the history. -/
structure ServedFaithfully (c : Crates) (json : Step → String) (host : Host) (request : Request)
    (files : FileSystem) (history : List Execution) (result : StepResult) : Prop where
  earlier : ∃ execution ∈ history, execution.request.name = request.name ∧
    json execution.request.step = json request.step ∧ execution.request.env = request.env ∧
    execution.request.manifest = request.manifest ∧ execution.result.exitCode = 0
  inputHash : hashInputs c files host.workspace request.name request.step.run
    (request.step.inputs.map .ofString) = .ok result.inputHash
  outputHash : hashOutputs c files host.workspace request.name
    (request.step.outputs.map .ofString) = .ok result.outputHash
  capsuleHash : request.step.capsule.mapM (host.loadCapsule files request.step) = .ok result.capsuleHash

theorem performStep_served {host : Host} {config : ExecutorConfig} {pipeline : Pipeline}
    {name : String} {step : Step} {progress next : Progress} {result : StepResult}
    {request : Request} (hsound : CacheSound c json progress.world history)
    (htrust : Trustworthy c host json)
    (h : performStep c host config pipeline name step progress = .ok (result, next))
    (hhit : result.cacheHit = true)
    (hrequested : requestOf c host config pipeline progress.world.files name step = some request)
    (hcollision : NoCollision c json history request) :
    ServedFaithfully c json host request progress.world.files history result := by
  simp only [performStep, except_bind_eq_ok, mapError_eq_ok] at h
  obtain ⟨capsuleHash, hcapsule, inputHash, hinput, h⟩ := h
  obtain ⟨_, hrequest, hname, hstep, hcap, henv, hmanifest, hhash⟩ :=
    @requestOf_eq_some c host config pipeline name step capsuleHash inputHash _ hcapsule hinput
  cases hrequested.symm.trans hrequest
  rw [← henv, key_requestOf htrust hname hstep hhash] at h
  split at h
  next entry world hserved =>
    obtain ⟨hresult, _⟩ := Prod.mk.inj (Except.ok.inj h)
    obtain ⟨hcache, houtputs⟩ := of_servedEntry (congrArg Prod.fst hserved)
    obtain ⟨execution, hmem, hstands⟩ := hsound _ entry hcache
    obtain ⟨hname', hstep', henv', hmanifest'⟩ := request_of_key hcollision hmem hstands.key
    have hkept : result = { execution.result with cacheHit := true } := by
      rw [← hstands.result]
      exact hresult.symm
    constructor
    · exact ⟨execution, hmem, hname', by rw [hstep'], henv', hmanifest', hstands.success⟩
    · rw [hname, hstep, hkept]
      show _ = Except.ok execution.result.inputHash
      rw [hstands.inputHash, Request.inputHash, hmanifest']
      exact except_bind_eq_ok.mpr ⟨request.manifest, hmanifest, rfl⟩
    · rw [hname, hstep, houtputs, ← hresult]
    · rw [hstep, hcapsule, ← hcap, hkept]
      show _ = Except.ok execution.result.capsuleHash
      rw [hstands.capsuleHash, capsuleHash_of_alike hstep' henv']
  next world hserved =>
    -- An executed step is recorded as one.
    have hfresh := (executeStep_eq_ok h).fresh
    rw [hhit] at hfresh
    cases hfresh

/-- The steps a run performs, each in a world the workspace can be in. -/
theorem foldlM_lived {host : Host} {config : ExecutorConfig} {pipeline : Pipeline}
    {order : List String} {st st' : RunState} (htrust : Trustworthy c host json)
    (hlived : Lived c json st.progress.world history)
    (h : order.foldlM (runStep c host config pipeline) st = .ok st') :
    ∃ history', Lived c json st'.progress.world (history ++ history') ∧
      ∀ entry ∈ st'.recorded, entry ∈ st.recorded ∨
        ∃ progress next step earlier, Lived c json progress.world (history ++ earlier) ∧
          earlier <+: history' ∧ pipeline.steps.lookup entry.1 = some step ∧
          performStep c host config pipeline entry.1 step progress = .ok (entry.2, next) := by
  induction order generalizing st history with
  | nil =>
    cases h
    refine ⟨[], by rwa [List.append_nil], ?_⟩
    intro entry hentry
    exact .inl hentry
  | cons name rest ih =>
    rw [List.foldlM_cons] at h
    obtain ⟨next, hstep, h⟩ := except_bind_eq_ok.mp h
    rcases runStep_eq_ok hstep with ⟨_, rfl⟩ | ⟨_, own, result, after, hlookup, hperform, rfl⟩
    · exact @ih history ⟨st.progress, st.recorded, name :: st.completed, name :: st.unsuccessful⟩
        hlived h
    · obtain ⟨history', hlived', hrecorded⟩ := ih (hlived.performed htrust hperform) h
      refine ⟨executionOf c host config pipeline st.progress.world.files name own result ++ history',
        by rwa [← List.append_assoc], ?_⟩
      intro entry hentry
      rcases hrecorded entry hentry with hmem | ⟨progress, next, step, earlier, hl, hpre, hrest⟩
      · rcases List.mem_append.mp hmem with hmem | hmem
        · exact .inl hmem
        · rw [List.mem_singleton.mp hmem]
          exact .inr ⟨st.progress, after, own, [], by rwa [List.append_nil],
            List.nil_prefix, hlookup, hperform⟩
      · right
        refine ⟨progress, next, step,
          executionOf c host config pipeline st.progress.world.files name own result ++ earlier,
          ?_, ?_, hrest⟩
        · rw [← List.append_assoc]
          exact hl
        · exact (List.prefix_append_right_inj _).mpr hpre

end History

/-- **The cache never changes what a receipt says.** Whatever a workspace has lived through,
a step that is performed from the cache goes back to an execution of a step of the same name,
the same definition, the same environment and the same inputs that ended with success; its
input hash and its output hash are those of the files there are, and its capsule is the one in
force. And a run records only steps that are performed in a world with such a history. -/
theorem cached_results_stand {c : Crates} {json : Step → String} {world : World}
    {history : List Execution} {host : Host} (config : ExecutorConfig) (pipeline : Pipeline)
    (hlived : Lived c json world history) (htrust : Trustworthy c host json) :
    (∀ (progress next : Progress) (name : String) (step : Step) (result : StepResult)
      (request : Request), progress.world = world →
      performStep c host config pipeline name step progress = .ok (result, next) →
      result.cacheHit = true →
      requestOf c host config pipeline world.files name step = some request →
      NoCollision c json history request →
        ServedFaithfully c json host request world.files history result) ∧
    (∀ (order : List String) (st : RunState),
      runSteps c host config pipeline world order = .ok st →
      ∀ entry ∈ st.recorded, ∃ progress next step earlier,
        Lived c json progress.world (history ++ earlier) ∧
        pipeline.steps.lookup entry.1 = some step ∧
        performStep c host config pipeline entry.1 step progress = .ok (entry.2, next)) := by
  constructor
  · intro progress next name step result request hworld hperform hhit hrequest hcollision
    subst hworld
    exact performStep_served (lived_sound hlived) htrust hperform hhit hrequest hcollision
  · intro order st hrun entry hentry
    obtain ⟨_, _, hrecorded⟩ := @foldlM_lived c json history host config pipeline order
      (startState world) st htrust hlived hrun
    rcases hrecorded entry hentry with hmem | ⟨progress, next, step, earlier, hl, _, hlookup, hperform⟩
    · cases hmem
    · exact ⟨progress, next, step, earlier, hl, hlookup, hperform⟩

/-! The step with one output, executed in a first run and served in a second. -/

/-- The serialized step. -/
def jsonOfA : String :=
  "\x7b\"run\":\"true\",\"inputs\":[],\"outputs\":[\"a\"],\"needs\":null,\"env\":null," ++
  "\"working_dir\":null,\"image\":null,\"capsule\":null,\"cache\":true,\"timeout_secs\":null," ++
  "\"attestation\":null\x7d"

/-- The crates, as `blake3` behaves on what the two runs hash. -/
def cratesOfRuns : Crates := tableCrates
  [(utf8 "x", digestX), (utf8 "true", digestTrue),
    (utf8 (inputText digestTrue .empty),
      digestOf 0x5da7d8e2f345944662807c3160ae954d6a6ffb2564f22242004f68fde1532f7f),
    (utf8 (outputText entryOfX),
      digestOf 0x040bc95d792186d9183cc33b67f5cf6c5347c91d8477bbc9315bab208fe959d3),
    (keyTextOfA, digestOf 0x6b3a2d1d1cd90a5044ba24d80a8811ba6f631dd67034341c8502421faa2bde49),
    (utf8 jsonOfA, digestOf 0xcbd17c1e0f8823d2ae369194525c6fc9a574304b9f9daa26fd647d5430dae92c)]

theorem computeInputHash_ofRuns :
    computeInputHash cratesOfRuns hostOfA worldOfA.files "build" stepOfA = .ok inputHashOfA := by
  rfl

/-- The digests of the two runs. -/
theorem digests_ofRuns :
    contentHash cratesOfRuns (hostOfA.shape stepOfA) "build" inputHashOfA
        (stepEnv localConfig pipelineOfA "build" stepOfA none) = keyOfA ∧
      hexEncode (cratesOfRuns.blake3 (utf8 jsonOfA)).toList = shapeOfA ∧
      (([utf8 jsonOfA, utf8 (inputText digestTrue .empty), keyTextOfA]).map
        cratesOfRuns.blake3).Nodup := by
  decide +kernel

theorem outputs_ofRuns :
    outputsWithArtifacts cratesOfRuns worldOfA.files hostOfA.workspace "build"
      (stepOfA.outputs.map .ofString) = .ok (outputHashOfA, [artifactOfA]) := by
  rfl

theorem performStep_ofRuns :
    performStep cratesOfRuns hostOfA localConfig pipelineOfA "build" stepOfA
      (startState worldOfA).progress = .ok (resultOfA, firstStateOfA.progress) := by
  rw [performStep_of_key rfl computeInputHash_ofRuns digests_ofRuns.1]
  show executeStep cratesOfRuns hostOfA localConfig pipelineOfA "build" stepOfA none inputHashOfA
    (startState worldOfA).progress = _
  exact executeStep_of_key rfl rfl computeInputHash_ofRuns outputs_ofRuns digests_ofRuns.1 rfl

theorem performStep_ofRuns_again :
    performStep cratesOfRuns hostOfA localConfig pipelineOfA "build" stepOfA
      (startState cachedWorldOfA).progress =
        .ok ({ resultOfA with cacheHit := true }, secondStateOfA.progress) := by
  rw [performStep_of_key rfl computeInputHash_ofRuns digests_ofRuns.1]
  rfl

theorem trustworthy_ofRuns : Trustworthy cratesOfRuns hostOfA fun _ => jsonOfA := by
  constructor
  · intro step
    exact digests_ofRuns.2.1.symm
  · intro config world name step env inputHash execution world' h
    cases h
    rfl

theorem cached_results_stand_ofRuns : ∃ request,
    requestOf cratesOfRuns hostOfA localConfig pipelineOfA cachedWorldOfA.files "build" stepOfA =
      some request ∧
    ServedFaithfully cratesOfRuns (fun _ => jsonOfA) hostOfA request cachedWorldOfA.files
      [⟨request, resultOfA⟩] { resultOfA with cacheHit := true } := by
  obtain ⟨request, hrequest, hname, hstep, _, henv, hmanifest, hhash⟩ :=
    @requestOf_eq_some cratesOfRuns hostOfA localConfig pipelineOfA "build" stepOfA none inputHashOfA
      cachedWorldOfA.files rfl computeInputHash_ofRuns
  have hhistory : executionOf cratesOfRuns hostOfA localConfig pipelineOfA worldOfA.files "build"
      stepOfA resultOfA = [⟨request, resultOfA⟩] := by
    have hsame : requestOf cratesOfRuns hostOfA localConfig pipelineOfA worldOfA.files "build"
        stepOfA = some request := hrequest
    rw [executionOf, hsame]
    rfl
  have hlived : Lived cratesOfRuns (fun _ => jsonOfA) cachedWorldOfA [⟨request, resultOfA⟩] := by
    have hfirst := (Lived.fresh worldOfA.files).performed trustworthy_ofRuns performStep_ofRuns
    rw [List.nil_append] at hfirst
    exact hhistory ▸ hfirst
  have htexts : request.texts cratesOfRuns (fun _ => jsonOfA) =
      {utf8 jsonOfA, utf8 (inputText digestTrue .empty), keyTextOfA} := by
    have hkey : request.keyText cratesOfRuns (fun _ => jsonOfA) = keyTextOfA := by
      rw [Request.keyText, shapeOf, digests_ofRuns.2.1, hname, hhash, henv]
      rfl
    have htext : inputText digestTrue .empty = request.manifest := Except.ok.inj hmanifest
    rw [Request.texts, hkey, htext]
  refine ⟨request, hrequest, ?_⟩
  refine (cached_results_stand localConfig pipelineOfA hlived trustworthy_ofRuns).1
    (startState cachedWorldOfA).progress _ "build" stepOfA _ request rfl performStep_ofRuns_again rfl
    hrequest ⟨?_, ?_⟩
  · have hunion : request.texts cratesOfRuns (fun _ => jsonOfA) ∪
        {bytes | ∃ execution ∈ [Execution.mk request resultOfA],
          bytes ∈ execution.request.texts cratesOfRuns fun _ => jsonOfA} ⊆
        {bytes | bytes ∈ [utf8 jsonOfA, utf8 (inputText digestTrue .empty), keyTextOfA]} := by
      intro bytes hbytes
      rcases hbytes with hbytes | ⟨execution, hexecution, hbytes⟩
      · rw [htexts] at hbytes
        simpa using hbytes
      · rw [List.mem_singleton.mp hexecution, htexts] at hbytes
        simpa using hbytes
    exact Set.InjOn.mono hunion (List.inj_on_of_nodup_map digests_ofRuns.2.2)
  · intro execution hexecution _
    rw [List.mem_singleton.mp hexecution]

end Attest.Executor
