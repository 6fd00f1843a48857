import Attest.Archive.Export
import Attest.Executor.Causal
import Attest.Executor.Receipt

/-! The two commands that write receipts, as `core.rs` drives the executor.

A plain run records its events in the ledger of the directory it runs in, which is where its
receipt goes. A check of reproducibility runs twice in copies of the workspace, each with a
ledger of its own, removes the copies, and writes the receipt of the first run beside the
ledger of the workspace. `written_stands_iff` says which of the receipts can be exported. -/
namespace Attest.Executor
open Library Library.Fallible Library.TopologicalSort Hashing Evidence Archive
open Trust (Bytes Crates DateTime SigningKey utf8 hexEncode)
open Storage
open Sandbox (Platform ContainerRuntime)

/-! ### One run -/

/-- What a directory holds that a run reads or leaves: its files and its cache, the events of
its ledger, and the receipts. -/
structure Workspace where
  world : World
  events : String → Option CausalEvent
  receipts : List Bytes

/-- What one run takes from the machine and from the time it is made. -/
structure Machine where
  host : Host
  recorder : Recorder
  platform : Platform
  detected : ContainerRuntime
  /-- The orders of the hash maps of the sort. -/
  order : (dag : ExecutionDAG) → Iteration dag.nodes
  provenance : ExecutionProvenance
  timestamp : DateTime
  totalDurationSecs : UInt64
  attestVersion : String
  /-- `serde_yaml::to_string::<Pipeline>`. -/
  pipelineYaml : Pipeline → Except String String
  /-- `serde_json::to_string::<Receipt>`. -/
  receiptJson : Receipt → Except String String
  /-- `serde_yaml::to_string::<Receipt>`. -/
  receiptYaml : Receipt → Except String Bytes
  /-- `timestamp::request_token` of an authority for a signed receipt. -/
  requestToken : String → Receipt → Except String String

def stopWith (text : String) : Stop := .failed (.message text)

section Run
variable (m : Machine) (config : ExecutorConfig)

def computePipelineHash (pipeline : Pipeline) : Except String String := do
  let serialized ← m.pipelineYaml pipeline
  return hexEncode (m.recorder.crates.blake3 (utf8 serialized)).toList

def shouldSignReceipt : Bool :=
  match config.mode with
  | some mode => mode.signaturesEnabled
  | none => config.signResults

/-- `Storage::sign_receipt`: with no key the receipt stays as it is. -/
def signReceipt (keypair : Option SigningKey) (receipt : Receipt) : Except String Receipt :=
  match keypair with
  | none => .ok receipt
  | some key => do
    let signingData ← receiptSigningBytes m.receiptJson receipt
    return { receipt with
      signature := some (hexEncode (m.recorder.sign key (utf8 signingData)).toList)
      signerPublicKey := some (hexEncode (m.recorder.crates.verifyingKey key).bytes.toList) }

/-- `load_signing_key`, by the loader the run was given. -/
def loadSigningKey : Option (Except String SigningKey) → Except String (Option SigningKey)
  | none => .ok none
  | some loaded => loaded.map some

/-- What the receipt of a run records beside the steps. -/
def factsOf (pipelineHash : String) (ids : List String) (root : Option String) : ReceiptFacts where
  pipelineHash := pipelineHash
  timestamp := m.timestamp
  totalDurationSecs := m.totalDurationSecs
  attestVersion := m.attestVersion
  provenance := m.provenance
  causalEvents := ids
  causalChainHash := root

/-- `Executor::run`, in a directory. The key is loaded when every command has ended, and the
events are recorded before the receipt is made. -/
def run (loader : Option (Except String SigningKey)) (pipeline : Pipeline) (w : Workspace) :
    Except Stop (Receipt × Workspace) := do
  let dag ← (ExecutionDAG.build pipeline).mapError stopWith
  let sequence ← (dag.topologicalSort (m.order dag)).mapError stopWith
  let st ← runSteps m.recorder.crates m.host config pipeline w.world sequence
  let keypair ← (loadSigningKey loader).mapError stopWith
  let pipelineHash ← (computePipelineHash m pipeline).mapError stopWith
  let (ids, root, ledger) := recordCausalEvents m.recorder config pipeline
    (st.recorded.map Prod.snd) pipelineHash ⟨w.events, keypair⟩
  let receipt := receiptOf m.platform m.detected config (factsOf m pipelineHash ids root) st
  let signed ←
    (if shouldSignReceipt config then signReceipt m keypair receipt else .ok receipt).mapError stopWith
  return (signed, { w with world := st.progress.world, events := ledger.events })

/-! ### The commands -/

/-- How a command ends: its exit code, the receipt it wrote with the file, and the directory. -/
structure Drive where
  exitCode : Int
  written : Option (Receipt × Bytes)
  workspace : Workspace

def timestampIfRequested (tsa : Option String) (receipt : Receipt) : Except Int Receipt :=
  match tsa with
  | none => .ok receipt
  | some url =>
    if receipt.signature.isNone then .error 2
    else
      match m.requestToken url receipt with
      | .ok token => .ok { receipt with timestampToken := some token }
      | .error _ => .error 2

/-- `write_receipt_unique`: no receipt there is overwritten. -/
def writeReceipt (w : Workspace) (receipt : Receipt) (exitCode : Int) : Except Stop Drive := do
  let content ← (m.receiptYaml receipt).mapError stopWith
  return ⟨exitCode, some (receipt, content), { w with receipts := w.receipts ++ [content] }⟩

/-- A declared path that is missing is an answer, not a failure of the program. -/
def missingPath : Stop → Bool
  | .failed (.hashing (.missingInput ..)) => true
  | .failed (.hashing (.missingOutput ..)) => true
  | _ => false

def stopped (w : Workspace) (stop : Stop) : Except Stop Drive :=
  if missingPath stop then .ok ⟨1, none, w⟩ else .error stop

def anyFailed (steps : List StepResult) : Bool := steps.any fun step => step.exitCode != 0

section Commands
variable (loadKey : Except String SigningKey) (tsa : Option String) (pipeline : Pipeline)
  (w : Workspace)

/-- The receipt of a plain run, once it is there. -/
def finishRun (receipt : Receipt) (w : Workspace) : Except Stop Drive :=
  match timestampIfRequested m tsa receipt with
  | .error code => .ok ⟨code, none, w⟩
  | .ok receipt => writeReceipt m w receipt (if anyFailed receipt.steps then 1 else 0)

/-- `run_pipeline`, once the file is read. -/
def runPipeline : Except Stop Drive := do
  pipeline.validate.mapError stopWith
  match run m config (if config.signResults then some loadKey else none) pipeline w with
  | .error stop => stopped w stop
  | .ok (receipt, w) => finishRun m tsa receipt w

/-! ### Copies of the workspace -/

def isLink : Tree → Bool
  | .link _ => true
  | _ => false

/-- `copy_tree`: what is under `.attest` or `.git` stays behind, and so does every link. -/
def copyTree : Tree → Tree
  | .dir names child =>
    .dir (names.filter fun name =>
        decide (name.bytes ≠ utf8 ".attest" ∧ name.bytes ≠ utf8 ".git") && !isLink (child name))
      fun name => copyTree (child name)
  | tree => tree

/-- The two temporary directories: the machine in each, and the file system with the copy put
there as its working directory. -/
structure Copies where
  a : Machine
  b : Machine
  placeA : FileSystem → Tree → Except String FileSystem
  placeB : FileSystem → Tree → Except String FileSystem

def copied (place : FileSystem → Tree → Except String FileSystem) (files : FileSystem) :
    Except Stop FileSystem :=
  match files.root.descend files.cwd with
  | some tree => (place files (copyTree tree)).mapError stopWith
  | none => .error (stopWith "No such file or directory")

/-- One run in a copy: hermetic, unsigned, with an empty cache and an empty ledger. -/
def reproRun (files : FileSystem) : Except Stop (Receipt × Workspace) :=
  run m { config with signResults := false, hermeticEnv := true } none pipeline
    ⟨⟨files, fun _ => none⟩, fun _ => none, []⟩

variable (x : Copies)

/-- The two runs, one after the other. -/
def reproRuns : Except Stop (Receipt × Receipt) := do
  let filesA ← copied x.placeA w.world.files
  let filesB ← copied x.placeB w.world.files
  let a ← reproRun x.a config pipeline filesA
  let b ← reproRun x.b config pipeline filesB
  return (a.1, b.1)

/-- The last of the results of a name, as a `HashMap` holds it. -/
def outputOf (steps : List StepResult) (name : String) : Option String :=
  (steps.reverse.find? fun step => step.name == name).map StepResult.outputHash

def divergent (a b : List StepResult) : List StepResult :=
  a.filter fun step => (outputOf b step.name).any fun hash => step.outputHash != hash

/-- The receipt of the first run, with what came of the comparison. -/
def reproduced (a b : Receipt) : Receipt :=
  { a with reproducibility := some ⟨(divergent a.steps b.steps).isEmpty, 2, "double-build/v1"⟩ }

/-- What the check does with the two receipts, when the copies are gone. -/
def finishCheck (a b : Receipt) : Except Stop Drive :=
  let exitCode := if anyFailed a.steps || anyFailed b.steps ||
    !(divergent a.steps b.steps).isEmpty then 1 else 0
  if config.signResults then do
    let key ← loadKey.mapError stopWith
    let signed ← (signReceipt m (some key) (reproduced a b)).mapError stopWith
    match timestampIfRequested m tsa signed with
    | .error code => .ok ⟨code, none, w⟩
    | .ok receipt => writeReceipt m w receipt exitCode
  else if tsa.isSome then .ok ⟨2, none, w⟩
  else writeReceipt m w (reproduced a b) exitCode

def runPipelineCheckReproducibility : Except Stop Drive := do
  pipeline.validate.mapError stopWith
  match reproRuns config pipeline w x with
  | .error stop => stopped w stop
  | .ok (a, b) => finishCheck m config loadKey tsa w a b

/-- `attest run`, with or without `--check-reproducibility`. -/
def attestRun (check : Bool) : Except Stop Drive :=
  if check then runPipelineCheckReproducibility m config loadKey tsa pipeline w x
  else runPipeline m config loadKey tsa pipeline w

end Commands

end Run

/-! ### The events of a run are in its ledger -/

/-- The ledger after some rounds: it holds the listed events, and what is new in it is named by
its content and dated by the clock. -/
structure Stored (m : Recorder) (ledger : Ledger) (st : Recording) : Prop where
  listed : ∀ event ∈ st.ordered, st.ledger.events event.eventId ≠ none
  added : ∀ id event, st.ledger.events id = some event → ledger.events id = some event ∨
    id = eventIdOf m.crates event ∧ ∃ n, event.timestamp = m.clock n

section Recording
variable {m : Recorder} {pipeline : Pipeline} {pipelineHash environmentHash : String}
  {ledger : Ledger} {st : Recording} {result : StepResult} {results : List StepResult}

theorem timestamp_namedEvent {keypair : Option SigningKey} {event : CausalEvent} :
    (namedEvent m keypair event).timestamp = event.timestamp := by
  cases keypair with
  | none => rfl
  | some key => rfl

theorem eventIdOf_namedEvent {keypair : Option SigningKey} {event : CausalEvent} :
    eventIdOf m.crates (namedEvent m keypair event) = eventIdOf m.crates event := by
  rw [eventIdOf, eventIdOf, eventContent_namedEvent]

theorem Stored.step (h : Stored m ledger st) :
    Stored m ledger (recordResult m pipeline pipelineHash environmentHash st result) := by
  constructor
  · intro event hevent
    show Function.update st.ledger.events _ _ event.eventId ≠ none
    rw [Function.update_apply]
    split
    next => exact Option.some_ne_none _
    next hne =>
      rcases List.mem_append.mp hevent with hevent | hevent
      · exact h.listed event hevent
      · rw [List.mem_singleton.mp hevent] at hne
        exact absurd rfl hne
  · intro id event hevent
    have hupdate : Function.update st.ledger.events _ _ id = some event := hevent
    rw [Function.update_apply] at hupdate
    split at hupdate
    next hid =>
      cases hupdate
      refine .inr ⟨?_, st.ordered.length, timestamp_namedEvent⟩
      rw [hid, eventId_namedEvent, eventIdOf_namedEvent]
    next => exact h.added id event hupdate

theorem length_recording :
    (recording m pipeline pipelineHash environmentHash ledger results).ordered.length =
      results.length := by
  have hfold : ∀ st : Recording,
      (results.foldl (recordResult m pipeline pipelineHash environmentHash) st).ordered.length =
        st.ordered.length + results.length := by
    induction results with
    | nil => exact fun st => rfl
    | cons result rest ih =>
      intro st
      rw [List.foldl_cons, ih, List.length_cons]
      show (st.ordered ++ [_]).length + rest.length = _
      rw [List.length_append, List.length_singleton]
      omega
  rw [recording, hfold]
  exact Nat.zero_add _

theorem stored_recording :
    Stored m ledger (recording m pipeline pipelineHash environmentHash ledger results) := by
  have hstart : Stored m ledger ⟨ledger, fun _ => none, []⟩ := by
    constructor
    · intro event hevent
      cases hevent
    · intro id event hevent
      exact .inl hevent
  rw [recording]
  generalize (⟨ledger, fun _ => none, []⟩ : Recording) = st at hstart ⊢
  induction results generalizing st with
  | nil => exact hstart
  | cons result rest ih => exact ih _ hstart.step

end Recording

section Records
variable {m : Machine} {config : ExecutorConfig} {loader : Option (Except String SigningKey)}
  {pipeline : Pipeline} {w w' : Workspace} {receipt : Receipt}

theorem causalEvents_signReceipt {keypair : Option SigningKey} {signed : Receipt}
    (h : signReceipt m keypair receipt = .ok signed) : signed.causalEvents = receipt.causalEvents := by
  cases keypair with
  | none =>
    cases h
    rfl
  | some key =>
    obtain ⟨_, _, h⟩ := except_bind_eq_ok.mp h
    cases h
    rfl

/-- A run of a pipeline with steps performs one. -/
theorem recorded_ne_nil {dag : ExecutionDAG} {order : Iteration dag.nodes} {sequence : List String}
    {c : Crates} {host : Host} {world : World} {st : RunState} (hvalid : pipeline.validate = .ok ())
    (hbuild : ExecutionDAG.build pipeline = .ok dag)
    (hsort : dag.topologicalSort order = .ok sequence)
    (hrun : runSteps c host config pipeline world sequence = .ok st) : st.recorded ≠ [] := by
  obtain ⟨hperm, hordered⟩ := topologicalSort_eq_ok hbuild hsort
  have hright := rightSteps_of_run c host config pipeline world hbuild hsort hrun
  cases sequence with
  | nil => exact absurd hperm.nil_eq.symm (steps_of_validate hvalid)
  | cons first rest =>
    have hneeds : ∀ d, d ∉ pipeline.needs first := by
      intro d hd
      have hbefore := hordered [] first rest rfl d hd
      cases hbefore
    have hfirst : first ∈ st.recorded.map Prod.fst := by
      rw [hright.recorded]
      refine ⟨hperm.mem_iff.mp (List.mem_cons_self ..), ?_⟩
      intro d hd
      obtain ⟨e, _, he⟩ := Relation.TransGen.tail'_iff.mp hd
      exact absurd he (hneeds e)
    intro hnil
    rw [hnil] at hfirst
    cases hfirst

/-- What a run lists and leaves: events, all of them in its ledger, and the new ones under the
names of their contents. -/
theorem run_eq_ok (hvalid : pipeline.validate = .ok ())
    (h : run m config loader pipeline w = .ok (receipt, w')) :
    receipt.causalEvents ≠ [] ∧ (∀ id ∈ receipt.causalEvents, w'.events id ≠ none) ∧
      ∀ id event, w'.events id = some event → w.events id = some event ∨
        id = eventIdOf m.recorder.crates event ∧ ∃ n, event.timestamp = m.recorder.clock n := by
  obtain ⟨dag, hbuild, h⟩ := except_bind_eq_ok.mp h
  obtain ⟨sequence, hsort, h⟩ := except_bind_eq_ok.mp h
  obtain ⟨st, hrun, h⟩ := except_bind_eq_ok.mp h
  obtain ⟨keypair, _, h⟩ := except_bind_eq_ok.mp h
  obtain ⟨pipelineHash, _, h⟩ := except_bind_eq_ok.mp h
  have hne := recorded_ne_nil hvalid (mapError_eq_ok.mp hbuild) (mapError_eq_ok.mp hsort) hrun
  have hresults : st.recorded.map Prod.snd ≠ [] := fun hnil => hne (List.map_eq_nil_iff.mp hnil)
  rw [recordCausalEvents, if_neg hresults] at h
  obtain ⟨signed, hsigned, h⟩ := except_bind_eq_ok.mp h
  obtain ⟨rfl, rfl⟩ := Prod.mk.inj (Except.ok.inj h)
  have hstored := @stored_recording m.recorder pipeline pipelineHash
    (environmentHashOf m.recorder config) ⟨w.events, keypair⟩ (st.recorded.map Prod.snd)
  have hids : signed.causalEvents = (recording m.recorder pipeline pipelineHash
      (environmentHashOf m.recorder config) ⟨w.events, keypair⟩
      (st.recorded.map Prod.snd)).ordered.map CausalEvent.eventId := by
    have hsigned := mapError_eq_ok.mp hsigned
    split at hsigned
    next => exact causalEvents_signReceipt hsigned
    next =>
      cases hsigned
      rfl
  rw [hids]
  refine ⟨?_, ?_, hstored.added⟩
  · intro hnil
    have hlength := congrArg List.length hnil
    rw [List.length_map, length_recording, List.length_map] at hlength
    exact hne (List.length_eq_zero_iff.mp hlength)
  · intro id hid
    obtain ⟨event, hevent, rfl⟩ := List.mem_map.mp hid
    exact hstored.listed event hevent

end Records

/-! ### What the commands write -/

section Written
variable {m : Machine} {config : ExecutorConfig} {loadKey : Except String SigningKey}
  {tsa : Option String} {pipeline : Pipeline} {w : Workspace} {x : Copies} {check : Bool}
  {d : Drive} {receipt written : Receipt} {bytes : Bytes}

theorem causalEvents_timestampIfRequested (h : timestampIfRequested m tsa receipt = .ok written) :
    written.causalEvents = receipt.causalEvents := by
  unfold timestampIfRequested at h
  cases tsa with
  | none =>
    cases h
    rfl
  | some url =>
    simp only at h
    split at h
    next => cases h
    next =>
      split at h
      next =>
        cases h
        rfl
      next => cases h

theorem writeReceipt_eq_ok {exitCode : Int} (h : writeReceipt m w receipt exitCode = .ok d)
    (hwritten : d.written = some (written, bytes)) :
    written = receipt ∧ d.workspace.events = w.events := by
  obtain ⟨content, _, h⟩ := except_bind_eq_ok.mp h
  cases h
  cases hwritten
  exact ⟨rfl, rfl⟩

theorem finishRun_written (h : finishRun m tsa receipt w = .ok d)
    (hwritten : d.written = some (written, bytes)) :
    written.causalEvents = receipt.causalEvents ∧ d.workspace.events = w.events := by
  unfold finishRun at h
  split at h
  next =>
    cases h
    cases hwritten
  next stamped hstamped =>
    obtain ⟨rfl, hevents⟩ := writeReceipt_eq_ok h hwritten
    exact ⟨causalEvents_timestampIfRequested hstamped, hevents⟩

theorem finishCheck_written {a b : Receipt} (h : finishCheck m config loadKey tsa w a b = .ok d)
    (hwritten : d.written = some (written, bytes)) :
    written.causalEvents = a.causalEvents ∧ d.workspace.events = w.events := by
  unfold finishCheck at h
  simp only at h
  split at h
  next =>
    obtain ⟨key, _, h⟩ := except_bind_eq_ok.mp h
    obtain ⟨signed, hsigned, h⟩ := except_bind_eq_ok.mp h
    have hids := causalEvents_signReceipt (mapError_eq_ok.mp hsigned)
    split at h
    next =>
      cases h
      cases hwritten
    next stamped hstamped =>
      obtain ⟨rfl, hevents⟩ := writeReceipt_eq_ok h hwritten
      exact ⟨(causalEvents_timestampIfRequested hstamped).trans hids, hevents⟩
  next =>
    split at h
    next =>
      cases h
      cases hwritten
    next =>
      obtain ⟨rfl, hevents⟩ := writeReceipt_eq_ok h hwritten
      exact ⟨rfl, hevents⟩

theorem not_written_stopped {stop : Stop} (h : stopped w stop = .ok d) : d.written = none := by
  unfold stopped at h
  split at h
  next =>
    cases h
    rfl
  next => cases h

/-- The receipt of a plain run is that of the run in the workspace. -/
theorem runPipeline_written (h : runPipeline m config loadKey tsa pipeline w = .ok d)
    (hwritten : d.written = some (written, bytes)) :
    ∃ loader receipt w', pipeline.validate = .ok () ∧
      run m config loader pipeline w = .ok (receipt, w') ∧
      written.causalEvents = receipt.causalEvents ∧ d.workspace.events = w'.events := by
  obtain ⟨_, hvalid, h⟩ := except_bind_eq_ok.mp h
  split at h
  next =>
    rw [not_written_stopped h] at hwritten
    cases hwritten
  next receipt w' hrun =>
    exact ⟨_, receipt, w', mapError_eq_ok.mp hvalid, hrun, finishRun_written h hwritten⟩

/-- The receipt of a check is that of the run in the first copy, and the ledger of the workspace
is as it was. -/
theorem runPipelineCheckReproducibility_written
    (h : runPipelineCheckReproducibility m config loadKey tsa pipeline w x = .ok d)
    (hwritten : d.written = some (written, bytes)) :
    ∃ files receipt copy, pipeline.validate = .ok () ∧ copied x.placeA w.world.files = .ok files ∧
      reproRun x.a config pipeline files = .ok (receipt, copy) ∧
      written.causalEvents = receipt.causalEvents ∧ d.workspace.events = w.events := by
  obtain ⟨_, hvalid, h⟩ := except_bind_eq_ok.mp h
  split at h
  next =>
    rw [not_written_stopped h] at hwritten
    cases hwritten
  next a b hruns =>
    obtain ⟨filesA, hfilesA, hruns⟩ := except_bind_eq_ok.mp hruns
    obtain ⟨filesB, _, hruns⟩ := except_bind_eq_ok.mp hruns
    obtain ⟨⟨receiptA, copyA⟩, hrunA, hruns⟩ := except_bind_eq_ok.mp hruns
    obtain ⟨⟨receiptB, copyB⟩, _, hruns⟩ := except_bind_eq_ok.mp hruns
    cases hruns
    exact ⟨filesA, receiptA, copyA, mapError_eq_ok.mp hvalid, hfilesA, hrunA, finishCheck_written h hwritten⟩

/-! ### Which receipts can be exported -/

/-- The receipt stands by itself: each event it lists is in the ledger beside it, and an export
that allows no gap is written, unless the writing fails. -/
structure Stands (e : Exporter) (eventBytes : CausalEvent → Bytes)
    (events : String → Option CausalEvent) (receipt : Receipt) (bytes : Bytes) : Prop where
  stored : ∀ id ∈ receipt.causalEvents, events id ≠ none
  exported : ∃ entries, exportArchive e (fun id => (events id).map eventBytes) bytes false =
    (e.writeArchive entries).map fun _ => .written false

theorem stands_iff {e : Exporter} {eventBytes : CausalEvent → Bytes}
    {events : String → Option CausalEvent} (hread : e.readReceipt bytes = .ok receipt) :
    Stands e eventBytes events receipt bytes ↔ ∀ id ∈ receipt.causalEvents, events id ≠ none := by
  constructor
  · exact Stands.stored
  · intro h
    refine ⟨h, _, exportArchive_of_stored hread ?_⟩
    intro id hid hnone
    exact h id hid (Option.map_eq_none_iff.mp hnone)

/-- The texts that are hashed for the events of a ledger. -/
def hashedIn (c : Crates) (events : String → Option CausalEvent) : Set Bytes :=
  {bytes | ∃ id event, events id = some event ∧
    (bytes = eventPreimage event ∨ bytes = eventContent c event)}

/-- What the ledger of the first copy holds after its run. -/
def copyEvents (x : Copies) (config : ExecutorConfig) (pipeline : Pipeline) (w : Workspace) :
    String → Option CausalEvent :=
  match copied x.placeA w.world.files >>= reproRun x.a config pipeline with
  | .ok (_, copy) => copy.events
  | .error _ => fun _ => none

/-- The events of a ledger are named by their contents, none of them is of a time of the run, and
no two of the texts that are hashed have one digest. -/
structure FreshLedger (m : Recorder) (events later : String → Option CausalEvent) : Prop where
  named : ∀ id event, events id = some event → id = eventIdOf m.crates event
  earlier : ∀ id event n, events id = some event →
    event.timestamp.toRfc3339 ≠ (m.clock n).toRfc3339
  distinct : Set.InjOn m.crates.blake3 (hashedIn m.crates events ∪ hashedIn m.crates later)

/-- The text behind an event's content has its time in it. -/
theorem timestamp_of_eventPreimage {event event' : CausalEvent}
    (h : eventPreimage event = eventPreimage event') :
    event.timestamp.toRfc3339 = event'.timestamp.toRfc3339 := by
  simp only [eventPreimage, eventFields, List.cons_append, List.flatMap_cons] at h
  obtain ⟨_, h⟩ := hashField_append_inj h
  obtain ⟨_, h⟩ := hashField_append_inj h
  obtain ⟨_, h⟩ := hashField_append_inj h
  obtain ⟨_, h⟩ := hashField_append_inj h
  obtain ⟨_, h⟩ := hashField_append_inj h
  obtain ⟨_, h⟩ := hashField_append_inj h
  obtain ⟨_, h⟩ := hashField_append_inj h
  obtain ⟨htimestamp, _⟩ := hashField_append_inj h
  exact Trust.utf8_injective htimestamp

/-- An event of the run is under a name that the ledger does not have. -/
theorem FreshLedger.absent {m : Recorder} {events later : String → Option CausalEvent}
    (h : FreshLedger m events later) {id : String} {event : CausalEvent} {n : Nat}
    (hlater : later id = some event) (hid : id = eventIdOf m.crates event)
    (htime : event.timestamp = m.clock n) : events id = none := by
  cases hold : events id with
  | none => rfl
  | some old =>
    have hcontent := digest_inj h.distinct (.inl ⟨id, old, hold, .inr rfl⟩)
      (.inr ⟨id, event, hlater, .inr rfl⟩) ((h.named id old hold).symm.trans hid)
    have hpreimage : eventPreimage old = eventPreimage event :=
      h.distinct (.inl ⟨id, old, hold, .inl rfl⟩) (.inr ⟨id, event, hlater, .inl rfl⟩)
        (Vector.toList_inj.mp hcontent)
    have hsame := timestamp_of_eventPreimage hpreimage
    rw [htime] at hsame
    exact absurd hsame (h.earlier id old n hold)

/-- **Which receipts stand by themselves.** The receipt of a plain run always does. That of a
check of reproducibility never does, where the ledger has no event of the time of its first run:
its events were recorded in a copy that is gone. -/
theorem written_stands_iff {e : Exporter} {eventBytes : CausalEvent → Bytes}
    (hdrive : attestRun m config loadKey tsa pipeline w x check = .ok d)
    (hwritten : d.written = some (receipt, bytes)) (hread : e.readReceipt bytes = .ok receipt) :
    (check = false → Stands e eventBytes d.workspace.events receipt bytes) ∧
    (FreshLedger x.a.recorder w.events (copyEvents x config pipeline w) →
      (Stands e eventBytes d.workspace.events receipt bytes ↔ check = false)) := by
  rw [stands_iff hread]
  have hplain : check = false → ∀ id ∈ receipt.causalEvents, d.workspace.events id ≠ none := by
    intro hcheck
    rw [attestRun, hcheck] at hdrive
    obtain ⟨loader, made, w', hvalid, hrun, hids, hevents⟩ := runPipeline_written hdrive hwritten
    rw [hids, hevents]
    exact (run_eq_ok hvalid hrun).2.1
  refine ⟨hplain, ?_⟩
  intro hfresh
  refine ⟨?_, hplain⟩
  intro hstored
  by_contra hcheck
  rw [attestRun, if_pos (Bool.not_eq_false _ ▸ hcheck)] at hdrive
  obtain ⟨files, made, copy, hvalid, hfiles, hrun, hids, hevents⟩ :=
    runPipelineCheckReproducibility_written hdrive hwritten
  obtain ⟨hne, hcopied, hadded⟩ := run_eq_ok hvalid hrun
  have hcopy : copyEvents x config pipeline w = copy.events := by
    simp only [copyEvents, hfiles, bind, Except.bind, hrun]
  obtain ⟨id, hid⟩ := List.exists_mem_of_ne_nil _ hne
  obtain ⟨event, hevent⟩ := Option.ne_none_iff_exists'.mp (hcopied id hid)
  rcases hadded id event hevent with hbefore | ⟨hname, n, htime⟩
  · cases hbefore
  · have habsent := hfresh.absent (hcopy ▸ hevent) hname htime
    rw [hevents] at hstored
    exact hstored id (hids ▸ hid) habsent

end Written

/-! ### One step, run and checked -/

def helloStep : Step := { commandStep "true" [] with needs := none, cache := false }

def helloPipeline : Pipeline where
  schemaVersion := some 1
  version := "1.0"
  name := none
  steps := ⟨[("hello", helloStep)], List.pairwise_singleton ..⟩
  env := []

/-- The pipeline as it is hashed. -/
def helloYaml : String :=
  "schema_version: 1\nversion: '1.0'\nname: null\nsteps:\n  hello:\n    run: 'true'\n" ++
  "    inputs: []\n    outputs: []\n    needs: null\n    env: null\n    working_dir: null\n" ++
  "    image: null\n    capsule: null\n    cache: false\n    timeout_secs: null\n" ++
  "    attestation: null\nenv: \x7b\x7d\nattestation:\n  sign_all_steps: false\n" ++
  "  verify_dependencies: false\n  require_reproducible: false\n"

def helloResult : StepResult :=
  ⟨"hello", "5da7d8e2f345944662807c3160ae954d6a6ffb2564f22242004f68fde1532f7f",
    "95aba9c3ec14d9c6acb31a2dd401aff1b5fb3a913a0dbd59ec602fc683a6732d", 0, 0, false, "", "", none⟩

def helloHash : String := "13a8bb553d760136cf4580b93b9534106f967ae0a80d6cb09709e26efdcd55ea"
def plainEnvironment : String := "a3a9eda4f57ad4d5c99a2958e116dbe8c38f2fb3806165944929f0793c4a732d"
def hermeticEnvironment : String := "0682eb9b033741cbca40155664ceea286a890aa80d753952fce85c21830a4627"

/-- The event of the step, at a time. -/
def helloEvent (environment : String) (date : DateTime) (id : Vector UInt8 32) : CausalEvent where
  eventId := hexEncode id.toList
  stepName := "hello"
  causalParents := []
  inputHash := helloResult.inputHash
  outputHash := helloResult.outputHash
  timestamp := date
  exitCode := 0
  pipelineHash := helloHash
  environmentHash := environment
  signerPublicKey := none
  signature := none
  metadata := [("duration_secs", "0"), ("cache_hit", "false")]

theorem secondDate_inRange : Trust.minSecs ≤ 1785542401 ∧ 1785542401 ≤ Trust.maxSecs := by decide

def secondDate : DateTime := ⟨1785542401, 0, secondDate_inRange, Trust.DateTime.zero_nanos_lt⟩

def plainEvent : CausalEvent := helloEvent plainEnvironment sampleDate
  (digestOf 0x50e109f9f80e99d3a6e13d8852243bef2d7de41e798b5270edfa0f2a466a76cf)
def firstEvent : CausalEvent := helloEvent hermeticEnvironment sampleDate
  (digestOf 0xd8184f538b2d34c16840cbb4fbc0193a8671698ae206fcb88d5cfa4f87e7ac0f)
def secondEvent : CausalEvent := helloEvent hermeticEnvironment secondDate
  (digestOf 0xe20b337f49d19513fe433ceadd6ee6084c5386e95512b2fca857e264d1940119)

/-- The digests of what is hashed for an event. -/
def eventDigests (event : CausalEvent) (content id : Nat) : List (Bytes × Vector UInt8 32) :=
  [(eventPreimage event, digestOf content), ((digestOf content).toList, digestOf id)]

def helloCrates : Crates := tableCrates
  ([(utf8 "true", digestTrue),
    (utf8 (inputText digestTrue .empty),
      digestOf 0x5da7d8e2f345944662807c3160ae954d6a6ffb2564f22242004f68fde1532f7f),
    (utf8 (outputText .empty),
      digestOf 0x95aba9c3ec14d9c6acb31a2dd401aff1b5fb3a913a0dbd59ec602fc683a6732d),
    (utf8 helloYaml, digestOf 0x13a8bb553d760136cf4580b93b9534106f967ae0a80d6cb09709e26efdcd55ea),
    (utf8 "linux:x86_64:false",
      digestOf 0xa3a9eda4f57ad4d5c99a2958e116dbe8c38f2fb3806165944929f0793c4a732d),
    (utf8 "linux:x86_64:true",
      digestOf 0x0682eb9b033741cbca40155664ceea286a890aa80d753952fce85c21830a4627)] ++
  eventDigests plainEvent 0x4c91fb8238c017082317b89b400c1194ff5624a636f8f7c44561f7267dcc8adc
    0x50e109f9f80e99d3a6e13d8852243bef2d7de41e798b5270edfa0f2a466a76cf ++
  eventDigests firstEvent 0x761be73489f4da9b08b4f3c7ee0e3bfa3b0e90ac34d4472135c3a68e406db923
    0xd8184f538b2d34c16840cbb4fbc0193a8671698ae206fcb88d5cfa4f87e7ac0f ++
  eventDigests secondEvent 0x55a4d88acaf824b5fb445aa7bad560c8beab7cbb403b89fea872341a88d0e427
    0xe20b337f49d19513fe433ceadd6ee6084c5386e95512b2fca857e264d1940119)

/-- The fields of a receipt that an export reads, as `serde_yaml` writes them. -/
def helloText (receipt : Receipt) : Bytes :=
  utf8 ("schema_version: 1\npipeline_hash: " ++ receipt.pipelineHash ++ "\ncausal_events:\n" ++
    String.join (receipt.causalEvents.map fun id => "- " ++ id ++ "\n") ++
    "causal_chain_hash: " ++ receipt.causalChainHash.getD "null" ++ "\n")

/-- A machine at a time; nothing here is signed or timestamped. -/
def helloMachine (date : DateTime) : Machine where
  host := { exitingHost 0 with
    shape := fun _ => "41af41457bca10463b270316e8afcf96f17464e3fdf84c611f60080c1b1902c5" }
  recorder := ⟨helloCrates, fun _ _ => Vector.replicate 64 0, "linux", "x86_64", fun _ => date⟩
  platform := Sandbox.linux
  detected := .docker
  order dag := ⟨dag.nodes, dag.nodes, .refl _, .refl _⟩
  provenance := ⟨none, none, none, none, "linux", "x86_64", none, [], [], none⟩
  timestamp := sampleDate
  totalDurationSecs := 0
  attestVersion := "0.4.0"
  pipelineYaml _ := .ok helloYaml
  receiptJson _ := .error "unused"
  receiptYaml receipt := .ok (helloText receipt)
  requestToken _ _ := .error "unused"

def helloState (world : World) : RunState :=
  ⟨⟨world, ⟨1, 0, false⟩, []⟩, [("hello", helloResult)], ["hello"], []⟩

def helloReceipt (config : ExecutorConfig) (event : CausalEvent) (world : World) : Receipt :=
  receiptOf Sandbox.linux .docker config
    (factsOf (helloMachine sampleDate) helloHash [event.eventId] (some event.eventId))
    (helloState world)

/-- The directory with one more event in its ledger. -/
def withEvent (w : Workspace) (event : CausalEvent) : Workspace :=
  { w with events := Function.update w.events event.eventId (some event) }

theorem performStep_hello {config : ExecutorConfig} {date : DateTime} {progress : Progress} :
    performStep helloCrates (helloMachine date).host config helloPipeline "hello" helloStep progress =
      .ok (helloResult, { progress with held := progress.held.add false false }) := by
  have hinput : ∀ files, computeInputHash helloCrates (helloMachine date).host files "hello" helloStep =
      .ok helloResult.inputHash := fun _ => rfl
  have houtputs : outputsWithArtifacts helloCrates progress.world.files
      (helloMachine date).host.workspace "hello" (helloStep.outputs.map .ofString) =
        .ok (helloResult.outputHash, []) := rfl
  rw [performStep_of_key rfl (hinput _) rfl]
  show executeStep helloCrates (helloMachine date).host config helloPipeline "hello" helloStep none
    helloResult.inputHash progress = _
  rw [executeStep_of_key rfl rfl (hinput _) houtputs rfl rfl, List.append_nil]
  rfl

theorem runSteps_hello {config : ExecutorConfig} {date : DateTime} {world : World} :
    runSteps helloCrates (helloMachine date).host config helloPipeline world ["hello"] =
      .ok (helloState world) := by
  have hstep := @runStep_of_performStep _ _ _ _ (startState world) _ _ _ _
    (rfl : helloPipeline.steps.lookup "hello" = some helloStep)
    (fun dep hdep => absurd hdep (List.not_mem_nil))
    (@performStep_hello config date (startState world).progress)
  rw [runSteps, List.foldlM_cons, hstep]
  rfl

/-- The graph of the one step. -/
def helloDag : ExecutionDAG :=
  match ExecutionDAG.build helloPipeline with
  | .ok dag => dag
  | .error _ => ⟨[], fun _ => []⟩

theorem chainHash_singleton (c : Crates) (event : CausalEvent) :
    chainHash c [event] = eventIdOf c event := by
  rw [chainHash, chainBytes, List.flatMap_singleton, eventIdOf]

/-- The step is recorded as its event. -/
theorem recordCausalEvents_hello {config : ExecutorConfig} {date : DateTime} {id : Vector UInt8 32}
    {environment : String} {events : String → Option CausalEvent}
    (henvironment : environmentHashOf (helloMachine date).recorder config = environment)
    (hid : eventIdOf helloCrates (helloEvent environment date id) = hexEncode id.toList) :
    recordCausalEvents (helloMachine date).recorder config helloPipeline [helloResult] helloHash
        ⟨events, none⟩ =
      ([hexEncode id.toList], some (hexEncode id.toList),
        ⟨Function.update events (hexEncode id.toList) (some (helloEvent environment date id)), none⟩) := by
  have hevent : namedEvent (helloMachine date).recorder none
      (unnamed (helloEvent environment date id)) = helloEvent environment date id := by
    show ({ helloEvent environment date id with
      eventId := eventIdOf helloCrates (helloEvent environment date id) } : CausalEvent) = _
    rw [hid]
    rfl
  have hrecord := @recordResult_of_named (helloMachine date).recorder helloPipeline helloHash
    environment ⟨⟨events, none⟩, fun _ => none, []⟩ helloResult (helloEvent environment date id)
    rfl hevent
  rw [recordCausalEvents, if_neg (List.cons_ne_nil _ _), henvironment, recording, List.foldl_cons,
    hrecord]
  show ([hexEncode id.toList], some (chainHash helloCrates [helloEvent environment date id]), _) = _
  rw [chainHash_singleton, hid]
  rfl

/-- The digests of the texts that the runs hash. -/
theorem digests_hello :
    hexEncode (helloCrates.blake3 (utf8 helloYaml)).toList = helloHash ∧
      hexEncode (helloCrates.blake3 (utf8 "linux:x86_64:false")).toList = plainEnvironment ∧
      hexEncode (helloCrates.blake3 (utf8 "linux:x86_64:true")).toList = hermeticEnvironment ∧
      eventIdOf helloCrates plainEvent = plainEvent.eventId ∧
      eventIdOf helloCrates firstEvent = firstEvent.eventId ∧
      eventIdOf helloCrates secondEvent = secondEvent.eventId := by
  decide +kernel

/-- The run of the step in any directory. -/
theorem run_hello {config : ExecutorConfig} {date : DateTime} {id : Vector UInt8 32}
    {environment : String} {w : Workspace} (hsign : shouldSignReceipt config = false)
    (henvironment : environmentHashOf (helloMachine date).recorder config = environment)
    (hid : eventIdOf helloCrates (helloEvent environment date id) = hexEncode id.toList) :
    run (helloMachine date) config none helloPipeline w =
      .ok (helloReceipt config (helloEvent environment date id) w.world,
        withEvent w (helloEvent environment date id)) := by
  have hhash : computePipelineHash (helloMachine date) helloPipeline = .ok helloHash :=
    congrArg Except.ok digests_hello.1
  have hrecord := @recordCausalEvents_hello config date id environment w.events henvironment hid
  have hsteps := @runSteps_hello config date w.world
  have hresults : (helloState w.world).recorded.map Prod.snd = [helloResult] := rfl
  unfold run
  rw [show ExecutionDAG.build helloPipeline = .ok helloDag from rfl]
  simp only [mapError_ok, bind, Except.bind]
  rw [show helloDag.topologicalSort ((helloMachine date).order helloDag) = .ok ["hello"] from rfl]
  simp only [loadSigningKey, hhash, mapError_ok]
  rw [show runSteps (helloMachine date).recorder.crates (helloMachine date).host config helloPipeline
    w.world ["hello"] = .ok (helloState w.world) from hsteps]
  simp only [hresults, hrecord, hsign]
  rfl

def hermeticConfig : ExecutorConfig := { localConfig with signResults := false, hermeticEnv := true }

theorem environment_plain {date : DateTime} :
    environmentHashOf (helloMachine date).recorder localConfig = plainEnvironment := by
  exact digests_hello.2.1

theorem environment_hermetic {date : DateTime} :
    environmentHashOf (helloMachine date).recorder hermeticConfig = hermeticEnvironment := by
  exact digests_hello.2.2.1

/-- A directory at a location, with nothing else on the way. -/
def nested : Location → Tree → Tree
  | [], tree => tree
  | name :: rest, tree => .dir [name] fun _ => nested rest tree

def placeAt (name : Name) (_ : FileSystem) (tree : Tree) : Except String FileSystem :=
  .ok ⟨nested [name] tree, [name]⟩

def nameOf (text : String) (h : Name.WellFormed (utf8 text) := by decide +kernel) : Name := ⟨utf8 text, h⟩

/-- The first copy is run at one second, the second at the next. -/
def helloCopies : Copies where
  a := helloMachine sampleDate
  b := helloMachine secondDate
  placeA := placeAt (nameOf "attest-repro-1-a")
  placeB := placeAt (nameOf "attest-repro-1-b")

/-- A workspace with an empty ledger. -/
def helloWorkspace : Workspace := ⟨⟨filesOfX [], fun _ => none⟩, fun _ => none, []⟩

/-- An exporter that reads one receipt, and writes every archive. -/
def helloExporter (receipt : Receipt) : Exporter where
  readReceipt bytes := if bytes = helloText receipt then .ok receipt else .error "missing field"
  publicKeyPem _ := .error "invalid public key hex"
  manifestBytes _ _ := linkedManifest
  writeArchive _ := .ok ()

theorem read_helloExporter (receipt : Receipt) :
    (helloExporter receipt).readReceipt (helloText receipt) = .ok receipt :=
  if_pos rfl

def plainReceipt : Receipt := helloReceipt localConfig plainEvent helloWorkspace.world

def plainDrive : Drive where
  exitCode := 0
  written := some (plainReceipt, helloText plainReceipt)
  workspace := { withEvent helloWorkspace plainEvent with receipts := [helloText plainReceipt] }

theorem attestRun_plain :
    attestRun (helloMachine sampleDate) localConfig (.error "no key") none helloPipeline
      helloWorkspace helloCopies false = .ok plainDrive := by
  have hrun := @run_hello localConfig sampleDate _ _ helloWorkspace rfl environment_plain digests_hello.2.2.2.1
  have hvalid : helloPipeline.validate = .ok () := rfl
  unfold attestRun runPipeline
  rw [hvalid]
  show (match run (helloMachine sampleDate) localConfig none helloPipeline helloWorkspace with
    | .error stop => stopped helloWorkspace stop
    | .ok (receipt, w) => finishRun (helloMachine sampleDate) none receipt w) = _
  rw [hrun]
  rfl

/-- The files of a copy. -/
def copyWorld (name : Name) : World :=
  match copied (placeAt name) helloWorkspace.world.files with
  | .ok files => ⟨files, fun _ => none⟩
  | .error _ => helloWorkspace.world

def checkedReceipt : Receipt :=
  reproduced (helloReceipt hermeticConfig firstEvent (copyWorld (nameOf "attest-repro-1-a")))
    (helloReceipt hermeticConfig secondEvent (copyWorld (nameOf "attest-repro-1-b")))

def checkedDrive : Drive where
  exitCode := 0
  written := some (checkedReceipt, helloText checkedReceipt)
  workspace := { helloWorkspace with receipts := [helloText checkedReceipt] }

theorem run_first :
    run (helloMachine sampleDate) hermeticConfig none helloPipeline
        ⟨copyWorld (nameOf "attest-repro-1-a"), fun _ => none, []⟩ =
      .ok (helloReceipt hermeticConfig firstEvent (copyWorld (nameOf "attest-repro-1-a")),
        withEvent ⟨copyWorld (nameOf "attest-repro-1-a"), fun _ => none, []⟩ firstEvent) :=
  run_hello rfl environment_hermetic digests_hello.2.2.2.2.1

theorem attestRun_check :
    attestRun (helloMachine sampleDate) localConfig (.error "no key") none helloPipeline
      helloWorkspace helloCopies true = .ok checkedDrive := by
  have hsecond := @run_hello hermeticConfig secondDate _ _
    ⟨copyWorld (nameOf "attest-repro-1-b"), fun _ => none, []⟩ rfl environment_hermetic
    digests_hello.2.2.2.2.2
  have hvalid : helloPipeline.validate = .ok () := rfl
  have hruns : reproRuns localConfig helloPipeline helloWorkspace helloCopies =
      .ok (helloReceipt hermeticConfig firstEvent (copyWorld (nameOf "attest-repro-1-a")),
        helloReceipt hermeticConfig secondEvent (copyWorld (nameOf "attest-repro-1-b"))) := by
    have hfilesA : copied helloCopies.placeA helloWorkspace.world.files =
        .ok (copyWorld (nameOf "attest-repro-1-a")).files := rfl
    have hfilesB : copied helloCopies.placeB helloWorkspace.world.files =
        .ok (copyWorld (nameOf "attest-repro-1-b")).files := rfl
    have hrunA : reproRun helloCopies.a localConfig helloPipeline
        (copyWorld (nameOf "attest-repro-1-a")).files = _ := run_first
    have hrunB : reproRun helloCopies.b localConfig helloPipeline
        (copyWorld (nameOf "attest-repro-1-b")).files = _ := hsecond
    simp only [reproRuns, hfilesA, hfilesB, hrunA, hrunB, bind, Except.bind]
    rfl
  unfold attestRun runPipelineCheckReproducibility
  rw [hvalid, hruns]
  rfl

/-- The ledger is empty, and the two texts behind the event of the first copy have two digests. -/
theorem freshLedger_hello :
    FreshLedger helloCopies.a.recorder helloWorkspace.events
      (copyEvents helloCopies localConfig helloPipeline helloWorkspace) := by
  have hcopy : copyEvents helloCopies localConfig helloPipeline helloWorkspace =
      Function.update (fun _ => none) firstEvent.eventId (some firstEvent) := by
    have hfiles : copied helloCopies.placeA helloWorkspace.world.files =
        .ok (copyWorld (nameOf "attest-repro-1-a")).files := rfl
    have hrun : reproRun helloCopies.a localConfig helloPipeline
        (copyWorld (nameOf "attest-repro-1-a")).files = _ := run_first
    simp only [copyEvents, hfiles, hrun, bind, Except.bind]
    rfl
  have hne : helloCrates.blake3 (eventPreimage firstEvent) ≠
      helloCrates.blake3 (eventContent helloCrates firstEvent) := by
    decide +kernel
  have htexts : ∀ bytes ∈ hashedIn helloCrates helloWorkspace.events ∪
      hashedIn helloCrates (Function.update (fun _ => none) firstEvent.eventId (some firstEvent)),
      bytes = eventPreimage firstEvent ∨ bytes = eventContent helloCrates firstEvent := by
    intro bytes hbytes
    rcases hbytes with ⟨id, event, hevent, _⟩ | ⟨id, event, hevent, htext⟩
    · cases hevent
    · rw [Function.update_apply] at hevent
      split at hevent
      next =>
        cases hevent
        exact htext
      next => cases hevent
  refine ⟨?_, ?_, ?_⟩
  · intro id event hevent
    cases hevent
  · intro id event n hevent
    cases hevent
  · rw [hcopy]
    exact injOn_of_pair htexts hne

theorem written_stands_hello :
    Stands (helloExporter plainReceipt) recordText plainDrive.workspace.events plainReceipt
        (helloText plainReceipt) ∧
      ¬ Stands (helloExporter checkedReceipt) recordText checkedDrive.workspace.events checkedReceipt
        (helloText checkedReceipt) := by
  have hplain : plainDrive.written = some (plainReceipt, helloText plainReceipt) := rfl
  have hchecked : checkedDrive.written = some (checkedReceipt, helloText checkedReceipt) := rfl
  constructor
  · exact (written_stands_iff attestRun_plain hplain (read_helloExporter plainReceipt)).1 rfl
  · intro hstands
    have hcheck := ((written_stands_iff attestRun_check hchecked
      (read_helloExporter checkedReceipt)).2 freshLedger_hello).mp hstands
    cases hcheck

/-- The receipt of a check lists an event that is nowhere, and is not exported. -/
theorem checked_receipt_not_exported :
    attestRun (helloMachine sampleDate) localConfig (.error "no key") none helloPipeline
        helloWorkspace helloCopies true = .ok checkedDrive ∧
      checkedDrive.written = some (checkedReceipt, helloText checkedReceipt) ∧
      checkedReceipt.causalEvents = [firstEvent.eventId] ∧
      checkedDrive.workspace.events firstEvent.eventId = none ∧
      exportArchive (helloExporter checkedReceipt)
        (fun id => (checkedDrive.workspace.events id).map recordText) (helloText checkedReceipt) false =
          .ok (.incompleteChain [firstEvent.eventId]) := by
  refine ⟨attestRun_check, rfl, rfl, rfl, ?_⟩
  have hmissing : ∃ id ∈ checkedReceipt.causalEvents,
      (checkedDrive.workspace.events id).map recordText = none :=
    ⟨firstEvent.eventId, List.mem_singleton.mpr rfl, rfl⟩
  rw [exportArchive_of_missing (read_helloExporter checkedReceipt) hmissing]
  rfl

end Attest.Executor
