import Attest.Evidence.Linkage
import Attest.Executor.Schedule

/-! The causal events of a run, as `record_causal_events` writes them.

One event is recorded for each result, in the order of the run, with the events of the steps
it needs as its parents. An event is named by its content, signed where there is a key, and
stored under its name. `recorded_chain_verifies` is what both verifiers of a chain then say of
the receipt, whatever came of the steps. -/
namespace Attest.Executor
open Library Library.Fallible Library.TopologicalSort Evidence Archive
open Trust (Bytes Crates DateTime SigningKey utf8 hexEncode samplePublicA sampleSeedA sampleCrates)
open Storage

/-! ### Recording -/

/-- The ledger of a workspace: the files under `events` by the ids they are named by, and the
key, where one is loaded. -/
structure Ledger where
  events : String → Option CausalEvent
  keypair : Option SigningKey

/-- What recording takes from the machine. -/
structure Recorder where
  crates : Crates
  /-- `AttestKeypair::sign`, before it is written in hex. -/
  sign : SigningKey → Bytes → Vector UInt8 64
  os : String
  arch : String
  /-- `Utc::now` at each event of a run. -/
  clock : Nat → DateTime

/-- An event before it is named. -/
structure EventFacts where
  stepName : String
  causalParents : List String
  inputHash : String
  outputHash : String
  exitCode : Int
  pipelineHash : String
  environmentHash : String
  metadata : List (String × String)

def EventFacts.at (facts : EventFacts) (now : DateTime) : CausalEvent where
  eventId := ""
  stepName := facts.stepName
  causalParents := facts.causalParents
  inputHash := facts.inputHash
  outputHash := facts.outputHash
  timestamp := now
  exitCode := facts.exitCode
  pipelineHash := facts.pipelineHash
  environmentHash := facts.environmentHash
  signerPublicKey := none
  signature := none
  metadata := facts.metadata

section Record
variable (m : Recorder)

/-- The event under the id of its content, signed with the key. -/
def namedEvent (keypair : Option SigningKey) (event : CausalEvent) : CausalEvent :=
  let named := { event with eventId := eventIdOf m.crates event }
  match keypair with
  | none => named
  | some key =>
    { named with
      signature := some (hexEncode (m.sign key (utf8 (eventSigningData named))).toList)
      signerPublicKey := some (hexEncode (m.crates.verifyingKey key).bytes.toList) }

def recordEventLocal (ledger : Ledger) (now : DateTime) (facts : EventFacts) : CausalEvent × Ledger :=
  let event := namedEvent m ledger.keypair (facts.at now)
  (event, { ledger with events := Function.update ledger.events event.eventId (some event) })

def eventMetadata (result : StepResult) : List (String × String) :=
  [("duration_secs", toString result.durationSecs), ("cache_hit", toString result.cacheHit)] ++
    if result.stdout.isEmpty then []
    else [("stdout_hash", hexEncode (m.crates.blake3 (utf8 result.stdout)).toList)]

/-- `Storage::record_causal_event`. -/
def recordCausalEvent (ledger : Ledger) (now : DateTime) (parents : List String)
    (result : StepResult) (pipelineHash environmentHash : String) : CausalEvent × Ledger :=
  recordEventLocal m ledger now
    { stepName := result.name
      causalParents := parents
      inputHash := result.inputHash
      outputHash := result.outputHash
      exitCode := result.exitCode.toInt
      pipelineHash := pipelineHash
      environmentHash := environmentHash
      metadata := eventMetadata m result }

structure Recording where
  ledger : Ledger
  byStep : String → Option String
  ordered : List CausalEvent

variable (pipeline : Pipeline) (pipelineHash environmentHash : String)

/-- One round of the loop over the results. -/
def recordResult (st : Recording) (result : StepResult) : Recording :=
  let parents := (pipeline.needs result.name).filterMap st.byStep
  let recorded := recordCausalEvent m st.ledger (m.clock st.ordered.length) parents result
    pipelineHash environmentHash
  { ledger := recorded.2
    byStep := Function.update st.byStep result.name (some recorded.1.eventId)
    ordered := st.ordered ++ [recorded.1] }

def recording (ledger : Ledger) (results : List StepResult) : Recording :=
  results.foldl (recordResult m pipeline pipelineHash environmentHash) ⟨ledger, fun _ => none, []⟩

end Record

def environmentHashOf (m : Recorder) (config : ExecutorConfig) : String :=
  hexEncode (m.crates.blake3 (utf8 (m.os ++ ":" ++ m.arch ++ ":" ++
    toString config.hermeticEnv))).toList

/-- The ids and the root for the receipt, and the ledger as it is left. -/
def recordCausalEvents (m : Recorder) (config : ExecutorConfig) (pipeline : Pipeline)
    (results : List StepResult) (pipelineHash : String) (ledger : Ledger) :
    List String × Option String × Ledger :=
  if results = [] then ([], none, ledger)
  else
    let st := recording m pipeline pipelineHash (environmentHashOf m config) ledger results
    (st.ordered.map CausalEvent.eventId, some (chainHash m.crates st.ordered), st.ledger)

/-! ### What a recorded event is -/

/-- What the code relies on a key for: its signatures hold under its public key. -/
structure SignsCorrectly (m : Recorder) (key : SigningKey) : Prop where
  point : m.crates.pointError (m.crates.verifyingKey key).bytes = none
  verifies : ∀ message,
    m.crates.verify (m.crates.verifyingKey key) message (m.sign key message) = true

section Named
variable {m : Recorder} {keypair : Option SigningKey} {event : CausalEvent}

theorem eventContent_namedEvent :
    eventContent m.crates (namedEvent m keypair event) = eventContent m.crates event := by
  cases keypair with
  | none => rfl
  | some key => rfl

theorem eventId_namedEvent : (namedEvent m keypair event).eventId = eventIdOf m.crates event := by
  cases keypair with
  | none => rfl
  | some key => rfl

theorem stepName_namedEvent : (namedEvent m keypair event).stepName = event.stepName := by
  cases keypair with
  | none => rfl
  | some key => rfl

theorem causalParents_namedEvent :
    (namedEvent m keypair event).causalParents = event.causalParents := by
  cases keypair with
  | none => rfl
  | some key => rfl

theorem verifyWithPublicKey_sign {key : SigningKey} (h : SignsCorrectly m key) (message : Bytes) :
    Verify.verifyWithPublicKey m.crates (hexEncode (m.crates.verifyingKey key).bytes.toList) message
      (hexEncode (m.sign key message).toList) = .ok true := by
  simp only [Verify.verifyWithPublicKey, Trust.hexDecode_hexEncode, Trust.toVector_toList,
    Trust.fromBytes, h.point, h.verifies]

/-- An event that is named by its content and signed by its key holds by itself. -/
theorem genuine_namedEvent (hunsigned : event.signature = none)
    (h : ∀ key, keypair = some key → SignsCorrectly m key) :
    Genuine m.crates (namedEvent m keypair event) := by
  refine ⟨?_, ?_⟩
  · rw [eventIdIsAuthentic_iff, eventId_namedEvent, eventIdOf, eventIdOf, eventContent_namedEvent]
  · cases keypair with
    | none => simp [eventSignatureHolds, namedEvent, hunsigned]
    | some key =>
      have hsigned := verifyWithPublicKey_sign (h key rfl)
        (utf8 (eventSigningData { event with eventId := eventIdOf m.crates event }))
      -- The text that is signed has neither the signature nor the key in it.
      have hholds : eventSignatureHolds m.crates (namedEvent m (some key) event) = some true :=
        eventSignatureHolds_of_verifies rfl rfl hsigned
      simp [hholds]

/-- The text behind an event's content starts with the step it is about. -/
theorem stepName_of_eventPreimage {event' : CausalEvent}
    (h : eventPreimage event = eventPreimage event') : event.stepName = event'.stepName := by
  simp only [eventPreimage, eventFields, List.cons_append, List.flatMap_cons] at h
  obtain ⟨_, h⟩ := hashField_append_inj h
  obtain ⟨hstep, _⟩ := hashField_append_inj h
  exact Trust.utf8_injective hstep

end Named

/-! ### What the loop keeps -/

/-- The id of the event of a step. -/
def eventOf (events : List CausalEvent) (step : String) : Option String :=
  (events.find? fun event => event.stepName == step).map CausalEvent.eventId

theorem eventOf_append {events later : List CausalEvent} {step : String}
    (h : step ∈ events.map CausalEvent.stepName) :
    eventOf (events ++ later) step = eventOf events step := by
  obtain ⟨event, hevent, rfl⟩ := List.mem_map.mp h
  have hsome : (events.find? fun other => other.stepName == event.stepName).isSome = true := by
    rw [List.find?_isSome]
    exact ⟨event, hevent, beq_self_eq_true _⟩
  obtain ⟨found, hfound⟩ := Option.isSome_iff_exists.mp hsome
  simp only [eventOf, List.find?_append, hfound, Option.some_or]

theorem eventOf_snoc {events : List CausalEvent} {event : CausalEvent} (step : String)
    (h : event.stepName ∉ events.map CausalEvent.stepName) :
    eventOf (events ++ [event]) step =
      Function.update (eventOf events) event.stepName (some event.eventId) step := by
  by_cases hstep : step = event.stepName
  · subst hstep
    have hnone : (events.find? fun other => other.stepName == event.stepName) = none := by
      apply List.find?_eq_none.mpr
      intro other hother heq
      exact h (List.mem_map.mpr ⟨other, hother, beq_iff_eq.mp heq⟩)
    simp [eventOf, List.find?_append, hnone]
  · have hne : (event.stepName == step) = false := beq_eq_false_iff_ne.mpr (Ne.symm hstep)
    rw [Function.update_of_ne hstep]
    simp [eventOf, List.find?_append, hne]

section Recording
variable {m : Recorder} {pipeline : Pipeline} {pipelineHash environmentHash : String}
  {ledger : Ledger} {st : Recording} {done : List StepResult} {result : StepResult}

/-- The events of the results so far, each with the events of what it needs before it. -/
structure Chained (m : Recorder) (pipeline : Pipeline) (done : List StepResult) (st : Recording) :
    Prop where
  names : st.ordered.map CausalEvent.stepName = done.map StepResult.name
  genuine : ∀ event ∈ st.ordered, Genuine m.crates event
  byStep : ∀ step, st.byStep step = eventOf st.ordered step
  parents : ∀ before event after, st.ordered = before ++ event :: after →
    event.causalParents = (pipeline.needs event.stepName).filterMap (eventOf before)
  stored : (st.ordered.map CausalEvent.eventId).Nodup →
    ∀ event ∈ st.ordered, st.ledger.events event.eventId = some event

/-- What one round adds. -/
theorem recordResult_eq : ∃ event : CausalEvent,
    recordResult m pipeline pipelineHash environmentHash st result =
      { ledger := { st.ledger with
          events := Function.update st.ledger.events event.eventId (some event) }
        byStep := Function.update st.byStep result.name (some event.eventId)
        ordered := st.ordered ++ [event] } ∧
    event.stepName = result.name ∧
    event.causalParents = (pipeline.needs result.name).filterMap st.byStep ∧
    ((∀ key, st.ledger.keypair = some key → SignsCorrectly m key) → Genuine m.crates event) :=
  ⟨_, rfl, stepName_namedEvent, causalParents_namedEvent, genuine_namedEvent rfl⟩

theorem Chained.step (h : Chained m pipeline done st) (hname : result.name ∉ done.map StepResult.name)
    (hkey : ∀ key, st.ledger.keypair = some key → SignsCorrectly m key) :
    Chained m pipeline (done ++ [result])
      (recordResult m pipeline pipelineHash environmentHash st result) := by
  obtain ⟨event, hst, hstep, hparents, hgenuine⟩ := @recordResult_eq m pipeline pipelineHash
    environmentHash st result
  have hbyStep : st.byStep = eventOf st.ordered := funext h.byStep
  rw [hst]
  refine ⟨?_, ?_, ?_, ?_, ?_⟩
  · rw [List.map_append, List.map_append, h.names, List.map_singleton, List.map_singleton, hstep]
  · intro other hother
    rcases List.mem_append.mp hother with hother | hother
    · exact h.genuine other hother
    · rw [List.mem_singleton.mp hother]
      exact hgenuine hkey
  · intro step
    rw [eventOf_snoc step (by rw [h.names, hstep]; exact hname), hstep, hbyStep]
  · intro before other after hsplit
    rcases List.eq_nil_or_concat after with rfl | ⟨init, last, rfl⟩
    · obtain ⟨rfl, hlast⟩ := List.append_inj' hsplit rfl
      cases hlast
      rw [hparents, hstep, hbyStep]
    · rw [List.concat_eq_append, ← List.cons_append, ← List.append_assoc] at hsplit
      obtain ⟨hinit, _⟩ := List.append_inj' hsplit rfl
      exact h.parents before other init hinit
  · intro hnodup other hother
    rw [List.map_append, List.nodup_append] at hnodup
    rcases List.mem_append.mp hother with hother | hother
    · have hne : other.eventId ≠ event.eventId :=
        hnodup.2.2 _ (List.mem_map_of_mem hother) _ (List.mem_singleton.mpr rfl)
      show Function.update st.ledger.events event.eventId (some event) other.eventId = some other
      rw [Function.update_of_ne hne]
      exact h.stored hnodup.1 other hother
    · rw [List.mem_singleton.mp hother]
      exact Function.update_self ..

theorem keypair_recordResult :
    (recordResult m pipeline pipelineHash environmentHash st result).ledger.keypair =
      st.ledger.keypair := rfl

/-- The results one after the other. -/
theorem foldl_recordResult {results : List StepResult}
    (hkey : ∀ key, st.ledger.keypair = some key → SignsCorrectly m key)
    (hnodup : ((done ++ results).map StepResult.name).Nodup) (h : Chained m pipeline done st) :
    Chained m pipeline (done ++ results)
      (results.foldl (recordResult m pipeline pipelineHash environmentHash) st) := by
  induction results generalizing done st with
  | nil =>
    rw [List.append_nil]
    exact h
  | cons result rest ih =>
    have hsplit : done ++ result :: rest = done ++ [result] ++ rest := by
      rw [List.append_assoc, List.singleton_append]
    have hname : result.name ∉ done.map StepResult.name := by
      intro hmem
      rw [List.map_append, List.nodup_append] at hnodup
      exact hnodup.2.2 _ hmem _ (List.mem_cons_self ..) rfl
    rw [hsplit] at hnodup ⊢
    rw [List.foldl_cons]
    exact ih hkey hnodup (h.step hname hkey)

theorem chained_recording {results : List StepResult}
    (hkey : ∀ key, ledger.keypair = some key → SignsCorrectly m key)
    (hnodup : (results.map StepResult.name).Nodup) :
    Chained m pipeline results (recording m pipeline pipelineHash environmentHash ledger results) := by
  have hstart : Chained m pipeline [] ⟨ledger, fun _ => none, []⟩ := by
    refine ⟨rfl, ?_, fun _ => rfl, ?_, ?_⟩
    · intro event hevent
      cases hevent
    · intro before event after hsplit
      simp at hsplit
    · intro _ event hevent
      cases hevent
  have hrun := @foldl_recordResult m pipeline pipelineHash environmentHash _ [] results hkey hnodup hstart
  exact hrun

/-! ### Ids and parents -/

/-- The texts the ids of events are the digests of, and the contents in between. -/
def hashedBy (c : Crates) (events : List CausalEvent) : Set Bytes :=
  {bytes | ∃ event ∈ events, bytes = eventPreimage event ∨ bytes = eventContent c event}

/-- Steps with different names have events with different ids. -/
theorem Chained.nodup (h : Chained m pipeline done st)
    (hnodup : (done.map StepResult.name).Nodup)
    (hcollision : Set.InjOn m.crates.blake3 (hashedBy m.crates st.ordered)) :
    (st.ordered.map CausalEvent.eventId).Nodup := by
  rw [← h.names] at hnodup
  refine List.Nodup.map_on ?_ (List.Nodup.of_map _ hnodup)
  intro event hevent other hother hid
  rw [eventIdIsAuthentic_iff.mp (h.genuine event hevent).authentic,
    eventIdIsAuthentic_iff.mp (h.genuine other hother).authentic] at hid
  have hcontent : eventContent m.crates event = eventContent m.crates other := by
    apply hcollision ⟨event, hevent, .inr rfl⟩ ⟨other, hother, .inr rfl⟩
    exact Vector.toList_inj.mp (Trust.hexEncode_injective hid)
  have hpreimage : eventPreimage event = eventPreimage other := by
    apply hcollision ⟨event, hevent, .inl rfl⟩ ⟨other, hother, .inl rfl⟩
    exact Vector.toList_inj.mp hcontent
  exact List.inj_on_of_nodup_map hnodup hevent hother (stepName_of_eventPreimage hpreimage)

/-- Where every step comes after what it needs, the parents are the events of the needs, and
come before. -/
theorem Chained.parents_eq (h : Chained m pipeline done st)
    (hordered : Ordered pipeline.needs (done.map StepResult.name)) {before after : List CausalEvent}
    {event : CausalEvent} (hsplit : st.ordered = before ++ event :: after) :
    event.causalParents = (pipeline.needs event.stepName).filterMap (eventOf st.ordered) ∧
      ∀ parent ∈ event.causalParents, parent ∈ before.map CausalEvent.eventId := by
  have hneeds : ∀ d ∈ pipeline.needs event.stepName, d ∈ before.map CausalEvent.stepName := by
    apply hordered (before.map CausalEvent.stepName) event.stepName (after.map CausalEvent.stepName)
    rw [← h.names, hsplit, List.map_append, List.map_cons]
  rw [h.parents before event after hsplit]
  refine ⟨?_, ?_⟩
  · apply List.filterMap_congr
    intro d hd
    rw [hsplit, eventOf_append (hneeds d hd)]
  · intro parent hparent
    obtain ⟨d, _, hd⟩ := List.mem_filterMap.mp hparent
    obtain ⟨found, hfound, rfl⟩ := Option.map_eq_some_iff.mp hd
    exact List.mem_map_of_mem (List.mem_of_find?_eq_some hfound)

end Recording

/-! ### The results of a run -/

/-- One round of a run in which the steps come out as they are assigned. -/
def assignResult (pipeline : Pipeline) (outcome : String → StepResult)
    (st : List StepResult × List String) (name : String) : List StepResult × List String :=
  if (pipeline.needs name).any (· ∈ st.2) then (st.1, name :: st.2)
  else
    let result := { outcome name with name := name }
    (st.1 ++ [result], if result.exitCode ≠ 0 then name :: st.2 else st.2)

/-- The results a run records where each step comes out as assigned: with which exit code, from
the cache or not, with which hashes and texts. -/
def assignedResults (pipeline : Pipeline) (outcome : String → StepResult) (order : List String) :
    List StepResult :=
  (order.foldl (assignResult pipeline outcome) ([], [])).1

section Assigned
variable {c : Crates} {host : Host} {config : ExecutorConfig} {pipeline : Pipeline} {world : World}
  {outcome : String → StepResult} {name : String} {done : List String}

theorem foldlM_recorded {rest : List String} {st final : RunState}
    (h : rest.foldlM (runStep c host config pipeline) st = .ok final) :
    st.recorded <+: final.recorded := by
  induction rest generalizing st with
  | nil =>
    cases h
    exact List.prefix_rfl
  | cons name rest ih =>
    rw [List.foldlM_cons] at h
    obtain ⟨next, hstep, h⟩ := except_bind_eq_ok.mp h
    have hnext : st.recorded <+: next.recorded := by
      rcases runStep_eq_ok hstep with ⟨_, rfl⟩ | ⟨_, _, result, _, _, _, rfl⟩
      · exact List.prefix_rfl
      · exact List.prefix_append ..
    exact hnext.trans (ih h)

/-- A run whose results are the assigned ones records what is assigned. -/
theorem foldl_assignResult {rest : List String} {st final : RunState}
    (h : rest.foldlM (runStep c host config pipeline) st = .ok final)
    (houtcome : ∀ entry ∈ final.recorded, { outcome entry.1 with name := entry.1 } = entry.2) :
    rest.foldl (assignResult pipeline outcome) (st.recorded.map Prod.snd, st.unsuccessful) =
      (final.recorded.map Prod.snd, final.unsuccessful) := by
  induction rest generalizing st with
  | nil =>
    cases h
    rfl
  | cons name rest ih =>
    rw [List.foldlM_cons] at h
    obtain ⟨next, hstep, h⟩ := except_bind_eq_ok.mp h
    rw [List.foldl_cons, ← ih h]
    congr 1
    rcases runStep_eq_ok hstep with ⟨hskip, rfl⟩ | ⟨hrun, _, result, _, _, _, rfl⟩
    · have hany : (pipeline.needs name).any (· ∈ st.unsuccessful) = true := by simpa using hskip
      rw [assignResult, if_pos hany]
    · have hany : ¬ (pipeline.needs name).any (· ∈ st.unsuccessful) = true := by simpa using hrun
      have hresult : { outcome name with name := name } = result := by
        apply houtcome (name, result)
        exact (foldlM_recorded h).subset (List.mem_append_right _ (List.mem_singleton.mpr rfl))
      rw [assignResult, if_neg hany, hresult, List.map_append]
      rfl

/-- The results of a run of the executor, where each has the name of its step, are those of an
assignment. -/
theorem runSteps_assigned {order : List String} {st : RunState} (hnodup : (st.recorded.map Prod.fst).Nodup)
    (h : runSteps c host config pipeline world order = .ok st)
    (hnames : ∀ entry ∈ st.recorded, entry.2.name = entry.1) :
    ∃ outcome, st.recorded.map Prod.snd = assignedResults pipeline outcome order := by
  have hchoice : ∀ name, ∃ result : StepResult, ∀ entry ∈ st.recorded, entry.1 = name →
      result = entry.2 := by
    intro name
    by_cases hrecorded : ∃ entry ∈ st.recorded, entry.1 = name
    · obtain ⟨entry, hentry, rfl⟩ := hrecorded
      refine ⟨entry.2, ?_⟩
      intro other hother hname
      rw [List.inj_on_of_nodup_map hnodup hother hentry hname]
    · refine ⟨⟨"", "", "", 0, 0, false, "", "", none⟩, ?_⟩
      intro entry hentry hname
      exact absurd ⟨entry, hentry, hname⟩ hrecorded
  choose outcome houtcome using hchoice
  refine ⟨outcome, ?_⟩
  have hrun := @foldl_assignResult _ _ _ _ outcome _ _ _ h ?_
  · exact (congrArg Prod.fst hrun).symm
  · intro entry hentry
    rw [houtcome entry.1 entry hentry rfl, ← hnames entry hentry]

/-- What the rounds keep: a step that is done is recorded or without success, and a recorded
one comes after what it needs. -/
structure Assigned (pipeline : Pipeline) (done : List String)
    (st : List StepResult × List String) : Prop where
  names : (st.1.map StepResult.name).Sublist done
  ordered : Ordered pipeline.needs (st.1.map StepResult.name)
  covered : ∀ n ∈ done, n ∈ st.1.map StepResult.name ∨ n ∈ st.2
  nonempty : done ≠ [] → st.1 ≠ []

theorem Assigned.step {st : List StepResult × List String} (h : Assigned pipeline done st)
    (hneeds : ∀ d ∈ pipeline.needs name, d ∈ done) :
    Assigned pipeline (done ++ [name]) (assignResult pipeline outcome st name) := by
  unfold assignResult
  split
  next hany =>
    obtain ⟨dep, hdep, _⟩ := List.any_eq_true.mp hany
    refine ⟨h.names.trans (List.sublist_append_left ..), h.ordered, ?_, ?_⟩
    · intro n hn
      rcases List.mem_append.mp hn with hn | hn
      · exact (h.covered n hn).imp_right (List.mem_cons_of_mem name)
      · exact .inr (List.mem_singleton.mp hn ▸ List.mem_cons_self ..)
    · intro _
      exact h.nonempty (List.ne_nil_of_mem (hneeds dep hdep))
  next hany =>
    have hrun : ∀ d ∈ pipeline.needs name, d ∉ st.2 := by simpa using hany
    refine ⟨?_, ?_, ?_, ?_⟩
    · rw [List.map_append]
      exact h.names.append (List.Sublist.refl _)
    · rw [List.map_append]
      apply ordered_snoc h.ordered
      intro d hd
      exact (h.covered d (hneeds d hd)).resolve_right (hrun d hd)
    · intro n hn
      rw [List.map_append, List.mem_append]
      rcases List.mem_append.mp hn with hn | hn
      · rcases h.covered n hn with hn | hn
        · exact .inl (.inl hn)
        · right
          show n ∈ if (outcome name).exitCode ≠ 0 then name :: st.2 else st.2
          split
          next => exact List.mem_cons_of_mem name hn
          next => exact hn
      · exact .inl (.inr hn)
    · intro _
      simp

/-- The steps of an order, each after what it needs. -/
theorem foldl_assigned {rest : List String} {st : List StepResult × List String}
    (hordered : Ordered pipeline.needs (done ++ rest)) (h : Assigned pipeline done st) :
    Assigned pipeline (done ++ rest) (rest.foldl (assignResult pipeline outcome) st) := by
  induction rest generalizing done st with
  | nil =>
    rw [List.append_nil]
    exact h
  | cons name rest ih =>
    have hsplit : done ++ name :: rest = done ++ [name] ++ rest := by
      rw [List.append_assoc, List.singleton_append]
    have hneeds : ∀ d ∈ pipeline.needs name, d ∈ done := hordered done name rest rfl
    rw [hsplit] at hordered ⊢
    exact ih hordered (h.step hneeds)

theorem assigned_results {order : List String} (hordered : Ordered pipeline.needs order)
    (hnodup : order.Nodup) (hne : order ≠ []) (outcome : String → StepResult) :
    ((assignedResults pipeline outcome order).map StepResult.name).Nodup ∧
      Ordered pipeline.needs ((assignedResults pipeline outcome order).map StepResult.name) ∧
      assignedResults pipeline outcome order ≠ [] := by
  have hstart : Assigned pipeline [] ([], []) := by
    refine ⟨List.Sublist.refl _, ?_, ?_, fun h => absurd rfl h⟩
    · intro before n after hsplit
      simp at hsplit
    · intro n hn
      cases hn
  have hrun := @foldl_assigned pipeline outcome [] order ([], []) hordered hstart
  exact ⟨hrun.names.nodup hnodup, hrun.ordered, hrun.nonempty hne⟩

end Assigned

/-! ### The chain of a run -/

/-- An event as it goes into the proofs: its metadata is not authenticated. -/
def cleared (event : CausalEvent) : CausalEvent := { event with metadata := [] }

/-- The files of the events of a ledger, as `collect` puts them into the proofs. -/
def proofFiles (toVec : CausalEvent → Bytes) (ledger : Ledger) (path : String) : Option Bytes := do
  let id ← eventName path
  let event ← ledger.events id
  return toVec (cleared event)

/-- What the code relies on `serde_json` for: the events are read back as they were written,
with no other keys. -/
def ReadsBack (codec : ArchiveCodec) (toVec : CausalEvent → Bytes) (events : List CausalEvent) :
    Prop :=
  ∀ event ∈ events, ∃ keys, (∀ key ∈ keys, key ∈ eventKeys) ∧
    codec.value (toVec event) = .ok ⟨some keys, .ok event⟩

/-- What a run wrote for its receipt is a chain that both verifiers pass. -/
structure VerifiableChain (m : Recorder) (codec : ArchiveCodec) (toVec : CausalEvent → Bytes)
    (pipeline : Pipeline) (results : List StepResult) (ids : List String) (root : Option String)
    (ledger : Ledger) : Prop where
  linkage : ∀ receipt : Receipt, receipt.causalEvents = ids → receipt.causalChainHash = root →
    (chainLinkage m.crates receipt (fun id => (ledger.events id).map cleared) false).status = .pass
  assessed : ∀ receipt : Receipt, receipt.causalEvents = ids → receipt.causalChainHash = root →
    (causalCheck m.crates codec receipt (proofFiles toVec ledger)).status = .pass
  steps : (ids.filterMap ledger.events).map CausalEvent.stepName = results.map StepResult.name
  distinct : ids.Nodup
  parents : ∀ before id after, ids = before ++ id :: after → ∃ event, ledger.events id = some event ∧
    event.causalParents =
      (pipeline.needs event.stepName).filterMap (eventOf (ids.filterMap ledger.events)) ∧
    ∀ parent ∈ event.causalParents, parent ∈ before

section Chain
variable {m : Recorder} {codec : ArchiveCodec} {toVec : CausalEvent → Bytes} {pipeline : Pipeline}
  {results : List StepResult} {st : Recording}

theorem genuine_cleared {c : Crates} {event : CausalEvent} (h : Genuine c event) :
    Genuine c (cleared event) := ⟨h.authentic, h.signature⟩

theorem chainHash_cleared (c : Crates) (events : List CausalEvent) :
    chainHash c (events.map cleared) = chainHash c events := by
  rw [chainHash, chainHash, chainBytes, chainBytes, List.flatMap_map]
  rfl

/-- The stored events, by the ids of the receipt. -/
theorem Chained.filterMap_stored (h : Chained m pipeline results st)
    (hnodup : (st.ordered.map CausalEvent.eventId).Nodup) :
    (st.ordered.map CausalEvent.eventId).filterMap st.ledger.events = st.ordered := by
  rw [List.filterMap_map]
  have hstored : ∀ event ∈ st.ordered, (st.ledger.events ∘ CausalEvent.eventId) event = some event :=
    h.stored hnodup
  rw [List.filterMap_congr hstored, List.filterMap_some]

theorem Chained.linkage (h : Chained m pipeline results st) (hne : results ≠ [])
    (hnodup : (st.ordered.map CausalEvent.eventId).Nodup) {receipt : Receipt}
    (hids : receipt.causalEvents = st.ordered.map CausalEvent.eventId)
    (hroot : receipt.causalChainHash = some (chainHash m.crates st.ordered)) :
    (chainLinkage m.crates receipt (fun id => (st.ledger.events id).map cleared) false).status =
      .pass := by
  rw [chainLinkage_pass_iff]
  refine ⟨?_, ?_, ?_⟩
  · rw [hids]
    intro hnil
    have hlength := congrArg List.length h.names
    rw [List.map_eq_nil_iff.mp hnil, List.map_nil, List.length_nil, List.length_map] at hlength
    exact hne (List.length_eq_zero_iff.mp hlength.symm)
  · intro id hid
    rw [hids] at hid
    obtain ⟨event, hevent, rfl⟩ := List.mem_map.mp hid
    refine ⟨cleared event, ?_, genuine_cleared (h.genuine event hevent)⟩
    rw [h.stored hnodup event hevent]
    rfl
  · rw [hroot, orderedEvents, hids, ← List.map_filterMap, h.filterMap_stored hnodup, chainHash_cleared]

theorem Chained.vouched (h : Chained m pipeline results st)
    (hordered : Ordered pipeline.needs (results.map StepResult.name))
    (hnodup : (st.ordered.map CausalEvent.eventId).Nodup)
    (hjson : ReadsBack codec toVec (st.ordered.map cleared)) {event : CausalEvent}
    (hevent : event ∈ st.ordered) :
    Vouched m.crates codec (proofFiles toVec st.ledger) (st.ordered.map CausalEvent.eventId)
      event.eventId (cleared event) := by
  have hgenuine := genuine_cleared (h.genuine event hevent)
  refine ⟨?_, ?_, rfl, rfl, hgenuine, ?_⟩
  · rw [eventIdIsAuthentic_iff.mp (h.genuine event hevent).authentic]
    exact isDigest_hexEncode _
  · obtain ⟨keys, hkeys, hread⟩ := hjson (cleared event) (List.mem_map_of_mem hevent)
    refine ⟨toVec (cleared event), ?_, event_eq_ok.mpr ⟨_, keys, hread, rfl, hkeys, rfl⟩⟩
    rw [proofFiles, eventName_eq_some_iff.mpr rfl]
    show (st.ledger.events event.eventId >>= fun event => pure (toVec (cleared event))) = _
    rw [h.stored hnodup event hevent]
    rfl
  · intro parent hparent
    obtain ⟨before, after, hsplit⟩ := List.append_of_mem hevent
    have hbefore := (h.parents_eq hordered hsplit).2 parent hparent
    rw [hsplit, List.map_append]
    exact List.mem_append_left _ hbefore

theorem Chained.assessed (h : Chained m pipeline results st) (hne : results ≠ [])
    (hordered : Ordered pipeline.needs (results.map StepResult.name))
    (hnodup : (st.ordered.map CausalEvent.eventId).Nodup)
    (hjson : ReadsBack codec toVec (st.ordered.map cleared)) {receipt : Receipt}
    (hids : receipt.causalEvents = st.ordered.map CausalEvent.eventId)
    (hroot : receipt.causalChainHash = some (chainHash m.crates st.ordered)) :
    (causalCheck m.crates codec receipt (proofFiles toVec st.ledger)).status = .pass := by
  obtain ⟨hlisted, hevents, _⟩ := chainLinkage_pass_iff.mp (h.linkage hne hnodup hids hroot)
  rw [causalCheck_pass_iff, assessCausal_eq_ok_iff hlisted, hids]
  obtain ⟨id, hid⟩ := List.exists_mem_of_ne_nil _ hlisted
  have : Nonempty CausalEvent := (hevents id hid).nonempty
  have hchoice : ∀ id ∈ st.ordered.map CausalEvent.eventId, ∃ event ∈ st.ordered,
      event.eventId = id := fun id hid => List.mem_map.mp hid
  choose! named hnamed hnamedId using hchoice
  refine ⟨hnodup, fun id => cleared (named id), ?_, ?_⟩
  · intro id hid
    have hvouched := h.vouched hordered hnodup hjson (hnamed id hid)
    rw [hnamedId id hid] at hvouched
    exact hvouched
  · have hordered' : (st.ordered.map CausalEvent.eventId).map named = st.ordered := by
      rw [List.map_map]
      conv_rhs => rw [← List.map_id st.ordered]
      apply List.map_congr_left
      intro event hevent
      have hid : event.eventId ∈ st.ordered.map CausalEvent.eventId := List.mem_map_of_mem hevent
      exact List.inj_on_of_nodup_map hnodup (hnamed _ hid) hevent (hnamedId _ hid)
    have hmap : (st.ordered.map CausalEvent.eventId).map (fun id => cleared (named id)) =
        st.ordered.map cleared := by
      conv_rhs => rw [← hordered', List.map_map]
      rfl
    rw [hroot, hmap, chainHash_cleared]

/-- Everything the two verifiers ask of a chain, and what it says of the steps. -/
theorem Chained.verifiable (h : Chained m pipeline results st) (hne : results ≠ [])
    (hordered : Ordered pipeline.needs (results.map StepResult.name))
    (hnodup : (st.ordered.map CausalEvent.eventId).Nodup)
    (hjson : ReadsBack codec toVec (st.ordered.map cleared)) :
    VerifiableChain m codec toVec pipeline results (st.ordered.map CausalEvent.eventId)
      (some (chainHash m.crates st.ordered)) st.ledger := by
  have hstored := h.filterMap_stored hnodup
  refine ⟨?_, ?_, ?_, hnodup, ?_⟩
  · intro receipt hids hroot
    exact h.linkage hne hnodup hids hroot
  · intro receipt hids hroot
    exact h.assessed hne hordered hnodup hjson hids hroot
  · rw [hstored, h.names]
  · intro before id after hsplit
    obtain ⟨events, rest, hevents, rfl, hrest⟩ := List.map_eq_append_iff.mp hsplit
    obtain ⟨event, later, rfl, rfl, _⟩ := List.map_eq_cons_iff.mp hrest
    obtain ⟨hparents, hbefore⟩ := h.parents_eq hordered hevents
    refine ⟨event, h.stored hnodup event ?_, ?_, hbefore⟩
    · rw [hevents]
      exact List.mem_append_right _ (List.mem_cons_self ..)
    · rw [hstored]
      exact hparents

end Chain

theorem steps_of_validate {pipeline : Pipeline} (h : pipeline.validate = .ok ()) :
    pipeline.steps.keys ≠ [] := by
  obtain ⟨_, _, h⟩ := except_bind_eq_ok.mp h
  obtain ⟨_, _, h⟩ := except_bind_eq_ok.mp h
  obtain ⟨_, hsteps, _⟩ := except_bind_eq_ok.mp h
  intro hkeys
  exact refuseIf_eq_ok.mp hsteps (List.map_eq_nil_iff.mp hkeys)

/-- The events that are recorded for results. -/
def runEvents (m : Recorder) (config : ExecutorConfig) (pipeline : Pipeline)
    (results : List StepResult) (pipelineHash : String) (ledger : Ledger) : List CausalEvent :=
  (recording m pipeline pipelineHash (environmentHashOf m config) ledger results).ordered

/-- **The chain of a run.** Whatever the order and whatever comes of the steps, with or without
a key: what is recorded for the receipt of a valid pipeline passes both verifiers, no id comes
twice, and the parents of an event are the events of the steps it needs, all of them before it.
This relies on no two of the hashed texts having one digest, on the key and on `serde_json`. -/
theorem recorded_chain_verifies {m : Recorder} {config : ExecutorConfig} {pipeline : Pipeline}
    {dag : ExecutionDAG} {order : Iteration dag.nodes} {sequence : List String}
    {outcome : String → StepResult} {results : List StepResult} {pipelineHash : String}
    {ledger ledger' : Ledger} {ids : List String} {root : Option String} {codec : ArchiveCodec}
    {toVec : CausalEvent → Bytes}
    (hvalid : pipeline.validate = .ok ()) (hbuild : ExecutionDAG.build pipeline = .ok dag)
    (hsort : dag.topologicalSort order = .ok sequence)
    (hresults : results = assignedResults pipeline outcome sequence)
    (hrecord : recordCausalEvents m config pipeline results pipelineHash ledger =
      (ids, root, ledger'))
    (hkey : ∀ key, ledger.keypair = some key → SignsCorrectly m key)
    (hcollision : Set.InjOn m.crates.blake3
      (hashedBy m.crates (runEvents m config pipeline results pipelineHash ledger)))
    (hjson : ReadsBack codec toVec
      ((runEvents m config pipeline results pipelineHash ledger).map cleared)) :
    VerifiableChain m codec toVec pipeline results ids root ledger' := by
  obtain ⟨hperm, hordered⟩ := topologicalSort_eq_ok hbuild hsort
  have hsequence : sequence ≠ [] := by
    intro hnil
    rw [hnil] at hperm
    exact steps_of_validate hvalid hperm.nil_eq.symm
  obtain ⟨hnodup, hneeds, hne⟩ := assigned_results hordered
    (hperm.nodup_iff.mpr pipeline.steps.nodup_keys) hsequence outcome
  rw [← hresults] at hnodup hneeds hne
  have hchained := @chained_recording m pipeline pipelineHash (environmentHashOf m config) ledger
    results hkey hnodup
  rw [recordCausalEvents, if_neg hne] at hrecord
  cases hrecord
  exact hchained.verifiable hne hneeds (hchained.nodup hnodup hcollision) hjson

/-! ### A run of two steps that is signed -/

/-- The two steps, both with success. -/
def builtResult (name : String) : StepResult :=
  if name = "fetch" then sampleFetch else sampleBuild

def signatureOf (n : Nat) : Vector UInt8 64 :=
  Vector.ofFn fun i => UInt8.ofNat (n / 256 ^ (63 - i.val) % 256)

def fetchSignature : Vector UInt8 64 := signatureOf
  0xcdd91280c3ed20a238ef81ef32c683b4d835f1c1faae520dc8c93aef6073c980f5453331422ec013167b3527960ae1d22d3e6b5c96058c6e4b170127b3da5e0a

def buildSignature : Vector UInt8 64 := signatureOf
  0xa8cd18a66caefa1bc8d7f196a29cac41fddf4b71535ead5b2ae733d33ad5c331508606c260f87d4ba52fea1e1f05dd4530d308fed99cff643f5d3e893a6f0b08

def recordedEvent (result : StepResult) (parents : List String) (id : Nat) (duration : String)
    (signature : Vector UInt8 64) : CausalEvent where
  eventId := hexEncode (hashOf id).toList
  stepName := result.name
  causalParents := parents
  inputHash := result.inputHash
  outputHash := result.outputHash
  timestamp := sampleDate
  exitCode := 0
  pipelineHash := sampleDigest 'a'
  environmentHash := "a3a9eda4f57ad4d5c99a2958e116dbe8c38f2fb3806165944929f0793c4a732d"
  signerPublicKey := some (hexEncode samplePublicA.bytes.toList)
  signature := some (hexEncode signature.toList)
  metadata := [("duration_secs", duration), ("cache_hit", "false")]

def fetchRecord : CausalEvent := recordedEvent sampleFetch []
  0xb6d394b58a2f138b9c2ef031805dae57285f2bff37388a6686d550a0880ea6cf "1" fetchSignature

def buildRecord : CausalEvent := recordedEvent sampleBuild [fetchRecord.eventId]
  0xd3e9457cd56d03353e2d12914edfac65008d93823e5403f337a4c7356e569013 "2" buildSignature

/-- The digests of what is hashed for the two events. -/
def recordedDigests : List (Bytes × Vector UInt8 32) :=
  let fetchContent := hashOf 0x0aaf2859a40b726689fada0ddddc94fd3d0cacbbb4e09bc838661f5f527f1176
  let buildContent := hashOf 0xb6a1a87698a9ced3ab53cae7468a3d14c1ecd7c4a456da946d292332ab14a5de
  [(utf8 "linux:x86_64:false",
      hashOf 0xa3a9eda4f57ad4d5c99a2958e116dbe8c38f2fb3806165944929f0793c4a732d),
    (eventPreimage fetchRecord, fetchContent),
    (fetchContent.toList, hashOf 0xb6d394b58a2f138b9c2ef031805dae57285f2bff37388a6686d550a0880ea6cf),
    (eventPreimage buildRecord, buildContent),
    (buildContent.toList, hashOf 0xd3e9457cd56d03353e2d12914edfac65008d93823e5403f337a4c7356e569013),
    (fetchContent.toList ++ buildContent.toList,
      hashOf 0x52fe3b5160914168fc898d9b8b1eb3d7d4efa9a97ff31ac3eab22b278cc2ba85)]

def recordedSignature (message : Bytes) : Vector UInt8 64 :=
  if message = utf8 (eventSigningData fetchRecord) then fetchSignature
  else if message = utf8 (eventSigningData buildRecord) then buildSignature
  else Vector.replicate 64 0

/-- A machine with the first sample key, as the crates behave on the two events. -/
def sampleRecorder : Recorder where
  crates :=
    { sampleCrates [] with
      blake3 := fun bytes => (recordedDigests.lookup bytes).getD (Vector.replicate 32 0)
      verify := fun key message signature =>
        decide (key = samplePublicA ∧ signature = recordedSignature message) }
  sign _ message := recordedSignature message
  os := "linux"
  arch := "x86_64"
  clock _ := sampleDate

def signedLedger : Ledger := ⟨fun _ => none, some sampleSeedA⟩

/-- An event as it is before it is named. -/
def unnamed (event : CausalEvent) : CausalEvent :=
  { event with eventId := "", signerPublicKey := none, signature := none }

/-- What the run records, in what order, and that the two events differ. -/
theorem facts_fetchBuild :
    assignedResults fetchBuild builtResult ["fetch", "build"] = [sampleFetch, sampleBuild] ∧
      environmentHashOf sampleRecorder localConfig = fetchRecord.environmentHash ∧
      EventFacts.at
        ⟨sampleFetch.name, (fetchBuild.needs sampleFetch.name).filterMap (fun _ => none),
          sampleFetch.inputHash, sampleFetch.outputHash, sampleFetch.exitCode.toInt, sampleDigest 'a',
          fetchRecord.environmentHash, eventMetadata sampleRecorder sampleFetch⟩
        (sampleRecorder.clock 0) = unnamed fetchRecord ∧
      EventFacts.at
        ⟨sampleBuild.name, (fetchBuild.needs sampleBuild.name).filterMap
            (Function.update (fun _ => none) sampleFetch.name (some fetchRecord.eventId)),
          sampleBuild.inputHash, sampleBuild.outputHash, sampleBuild.exitCode.toInt, sampleDigest 'a',
          fetchRecord.environmentHash, eventMetadata sampleRecorder sampleBuild⟩
        (sampleRecorder.clock 1) = unnamed buildRecord ∧
      eventIdOf sampleRecorder.crates fetchRecord = fetchRecord.eventId ∧
      eventIdOf sampleRecorder.crates buildRecord = buildRecord.eventId ∧
      buildRecord.eventId ≠ fetchRecord.eventId ∧
      utf8 (eventSigningData buildRecord) ≠ utf8 (eventSigningData fetchRecord) := by
  decide +kernel

theorem results_fetchBuild :
    assignedResults fetchBuild builtResult ["fetch", "build"] = [sampleFetch, sampleBuild] :=
  facts_fetchBuild.1

theorem eventIdOf_fetchRecord : eventIdOf sampleRecorder.crates fetchRecord = fetchRecord.eventId :=
  facts_fetchBuild.2.2.2.2.1

theorem eventIdOf_buildRecord : eventIdOf sampleRecorder.crates buildRecord = buildRecord.eventId :=
  facts_fetchBuild.2.2.2.2.2.1

theorem signingData_ne : utf8 (eventSigningData buildRecord) ≠ utf8 (eventSigningData fetchRecord) :=
  facts_fetchBuild.2.2.2.2.2.2.2

/-- An event under its own id and with its own signature is the one that is recorded. -/
theorem namedEvent_unnamed {m : Recorder} {key : SigningKey} {event : CausalEvent}
    (hid : eventIdOf m.crates event = event.eventId)
    (hsignature : some (hexEncode (m.sign key (utf8 (eventSigningData event))).toList) =
      event.signature)
    (hkey : some (hexEncode (m.crates.verifyingKey key).bytes.toList) = event.signerPublicKey) :
    namedEvent m (some key) (unnamed event) = event := by
  show ({ event with
    eventId := eventIdOf m.crates event
    signature := some (hexEncode (m.sign key (utf8 (eventSigningData
      { unnamed event with eventId := eventIdOf m.crates event }))).toList)
    signerPublicKey := some (hexEncode (m.crates.verifyingKey key).bytes.toList) } : CausalEvent) =
      event
  rw [hid]
  show ({ event with
    signature := some (hexEncode (m.sign key (utf8 (eventSigningData event))).toList)
    signerPublicKey := some (hexEncode (m.crates.verifyingKey key).bytes.toList) } : CausalEvent) =
      event
  rw [hsignature, hkey]

theorem verifyingKey_sample : sampleRecorder.crates.verifyingKey sampleSeedA = samplePublicA := rfl

theorem sign_sample (key : SigningKey) (message : Bytes) :
    sampleRecorder.sign key message = recordedSignature message := rfl

/-- The recorder names one of the two events as it is, when it signs it so. -/
theorem namedEvent_recordedEvent {result : StepResult} {parents : List String} {id : Nat}
    {duration : String} {signature : Vector UInt8 64}
    (hid : eventIdOf sampleRecorder.crates (recordedEvent result parents id duration signature) =
      hexEncode (hashOf id).toList)
    (hsign : recordedSignature (utf8 (eventSigningData
      (recordedEvent result parents id duration signature))) = signature) :
    namedEvent sampleRecorder (some sampleSeedA)
        (unnamed (recordedEvent result parents id duration signature)) =
      recordedEvent result parents id duration signature := by
  apply namedEvent_unnamed hid
  · rw [sign_sample, hsign]
    rfl
  · rw [verifyingKey_sample]
    rfl

theorem namedEvent_fetchRecord :
    namedEvent sampleRecorder (some sampleSeedA) (unnamed fetchRecord) = fetchRecord :=
  namedEvent_recordedEvent eventIdOf_fetchRecord (if_pos rfl)

theorem namedEvent_buildRecord :
    namedEvent sampleRecorder (some sampleSeedA) (unnamed buildRecord) = buildRecord :=
  namedEvent_recordedEvent eventIdOf_buildRecord ((if_neg signingData_ne).trans (if_pos rfl))

/-- A round whose event is named as it is. -/
theorem recordResult_of_named {m : Recorder} {pipeline : Pipeline}
    {pipelineHash environmentHash : String} {st : Recording} {result : StepResult}
    {event : CausalEvent}
    (hfacts : EventFacts.at
      ⟨result.name, (pipeline.needs result.name).filterMap st.byStep, result.inputHash,
        result.outputHash, result.exitCode.toInt, pipelineHash, environmentHash,
        eventMetadata m result⟩ (m.clock st.ordered.length) = unnamed event)
    (hnamed : namedEvent m st.ledger.keypair (unnamed event) = event) :
    recordResult m pipeline pipelineHash environmentHash st result =
      ⟨⟨Function.update st.ledger.events event.eventId (some event), st.ledger.keypair⟩,
        Function.update st.byStep result.name (some event.eventId), st.ordered ++ [event]⟩ := by
  simp only [recordResult, recordCausalEvent, recordEventLocal, hfacts, hnamed]

theorem runEvents_fetchBuild :
    runEvents sampleRecorder localConfig fetchBuild [sampleFetch, sampleBuild] (sampleDigest 'a')
      signedLedger = [fetchRecord, buildRecord] := by
  obtain ⟨_, henvironment, hfactsFetch, hfactsBuild, _⟩ := facts_fetchBuild
  have hfetch := @recordResult_of_named sampleRecorder fetchBuild (sampleDigest 'a')
    fetchRecord.environmentHash ⟨signedLedger, fun _ => none, []⟩ sampleFetch fetchRecord
    hfactsFetch namedEvent_fetchRecord
  have hbuild := @recordResult_of_named sampleRecorder fetchBuild (sampleDigest 'a')
    fetchRecord.environmentHash
    ⟨⟨Function.update signedLedger.events fetchRecord.eventId (some fetchRecord),
        signedLedger.keypair⟩,
      Function.update (fun _ => none) sampleFetch.name (some fetchRecord.eventId),
      [] ++ [fetchRecord]⟩ sampleBuild buildRecord hfactsBuild namedEvent_buildRecord
  rw [runEvents, recording, henvironment, List.foldl_cons, List.foldl_cons, List.foldl_nil, hfetch,
    hbuild]
  rfl

theorem signsCorrectly_sample : SignsCorrectly sampleRecorder sampleSeedA := by
  refine ⟨rfl, ?_⟩
  intro message
  rw [verifyingKey_sample]
  exact decide_eq_true ⟨rfl, rfl⟩

theorem injOn_fetchBuild :
    Set.InjOn sampleRecorder.crates.blake3
      (hashedBy sampleRecorder.crates [fetchRecord, buildRecord]) := by
  have hnodup : (([fetchRecord, buildRecord].flatMap fun event =>
      [eventPreimage event, eventContent sampleRecorder.crates event]).map
        sampleRecorder.crates.blake3).Nodup := by decide +kernel
  have hmem : ∀ bytes ∈ hashedBy sampleRecorder.crates [fetchRecord, buildRecord],
      bytes ∈ [fetchRecord, buildRecord].flatMap fun event =>
        [eventPreimage event, eventContent sampleRecorder.crates event] := by
    intro bytes hbytes
    obtain ⟨event, hevent, hor⟩ := hbytes
    exact List.mem_flatMap.mpr ⟨event, hevent, by simpa using hor⟩
  intro a ha b hb hab
  exact List.inj_on_of_nodup_map hnodup (hmem a ha) (hmem b hb) hab

/-- `serde_json::to_vec` of an event. -/
def recordText (event : CausalEvent) : Bytes := utf8 (Json.compact (.object
  [("event_id", .text event.eventId), ("step_name", .text event.stepName),
    ("causal_parents", .array (event.causalParents.map .text)),
    ("input_hash", .text event.inputHash), ("output_hash", .text event.outputHash),
    ("timestamp", .text event.timestamp.rfc3339), ("exit_code", .number event.exitCode.toNat),
    ("pipeline_hash", .text event.pipelineHash), ("environment_hash", .text event.environmentHash),
    ("signer_public_key", .text (event.signerPublicKey.getD "")),
    ("signature", .text (event.signature.getD "")), ("metadata", .object [])]))

def recordCodec : ArchiveCodec :=
  codecOf linkedManifest recordText (cleared fetchRecord) (cleared buildRecord)

theorem recordText_ne : recordText (cleared buildRecord) ≠ recordText (cleared fetchRecord) := by
  decide +kernel

theorem value_codecOf {manifest : Bytes} {text : CausalEvent → Bytes} {first second : CausalEvent}
    (hne : text second ≠ text first) :
    (codecOf manifest text first second).value (text first) = .ok ⟨some eventKeys, .ok first⟩ ∧
      (codecOf manifest text first second).value (text second) =
        .ok ⟨some eventKeys, .ok second⟩ := by
  simp [codecOf, hne]

theorem readsBack_fetchBuild :
    ReadsBack recordCodec recordText ([fetchRecord, buildRecord].map cleared) := by
  obtain ⟨hfetch, hbuild⟩ := @value_codecOf linkedManifest recordText _ _ recordText_ne
  intro event hevent
  refine ⟨eventKeys, fun key hkey => hkey, ?_⟩
  rcases List.mem_cons.mp hevent with rfl | hevent
  · exact hfetch
  · rw [List.mem_singleton.mp hevent]
    exact hbuild

/-- The graph of the two steps. -/
def fetchBuildDag : ExecutionDAG :=
  match ExecutionDAG.build fetchBuild with
  | .ok dag => dag
  | .error _ => ⟨[], fun _ => []⟩

theorem fetchBuild_perm : ["build", "fetch"].Perm fetchBuildDag.nodes := .refl _

def fetchBuildOrder : Iteration fetchBuildDag.nodes :=
  ⟨["build", "fetch"], ["build", "fetch"], fetchBuild_perm, fetchBuild_perm⟩

theorem recorded_chain_fetchBuild :
    VerifiableChain sampleRecorder recordCodec recordText fetchBuild [sampleFetch, sampleBuild]
      (recordCausalEvents sampleRecorder localConfig fetchBuild [sampleFetch, sampleBuild]
        (sampleDigest 'a') signedLedger).1
      (recordCausalEvents sampleRecorder localConfig fetchBuild [sampleFetch, sampleBuild]
        (sampleDigest 'a') signedLedger).2.1
      (recordCausalEvents sampleRecorder localConfig fetchBuild [sampleFetch, sampleBuild]
        (sampleDigest 'a') signedLedger).2.2 := by
  have hvalid : fetchBuild.validate = .ok () := rfl
  have hsort : fetchBuildDag.topologicalSort fetchBuildOrder = .ok ["fetch", "build"] := rfl
  refine @recorded_chain_verifies sampleRecorder localConfig fetchBuild fetchBuildDag fetchBuildOrder
    _ builtResult _ (sampleDigest 'a') signedLedger _ _ _ recordCodec recordText hvalid rfl hsort
    results_fetchBuild.symm rfl ?_ ?_ ?_
  · intro key hkey
    cases hkey
    exact signsCorrectly_sample
  · rw [runEvents_fetchBuild]
    exact injOn_fetchBuild
  · rw [runEvents_fetchBuild]
    exact readsBack_fetchBuild

end Attest.Executor
