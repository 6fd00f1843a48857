import Attest.Executor.Drivers
import Attest.Library.Lossy
import Attest.Library.Process

/-! A command of an existing job, as `wrap.rs` runs and attests it.

The program is the calls it makes, each of which can fail: what it does with the replies is
its own, and what they are is up to the machine. Between two calls anything may happen to
the files. Of each stream the receipt holds the first bytes, and says where there were more
(`tee_eq`). -/
namespace Attest.Executor.Wrap
open Library Library.Fallible Library.Process Hashing
open Trust (Bytes Crates DateTime SigningKey utf8 hexEncode)
open Trust.DateTime (padded civil yearText)
open Storage
open Sandbox (unisolatedReport)

/-! ### What is wrapped -/

structure WrapOptions where
  name : String
  inputs : List Bytes
  outputs : List Bytes
  sign : Bool
  key : Option String
  tsa : Option String
  workspace : Bytes

def WrapOptions.root (options : WrapOptions) : Path := .ofBytes options.workspace

def WrapOptions.declaredInputs (options : WrapOptions) : List Path := options.inputs.map .ofBytes

def WrapOptions.declaredOutputs (options : WrapOptions) : List Path := options.outputs.map .ofBytes

/-- The two texts of `evidence_status`. -/
inductive EvidenceStatus
  | failed
  | produced
deriving DecidableEq

/-- What the build and what its evidence came to. -/
structure WrapReport where
  buildExitCode : Option Int32
  evidenceStatus : EvidenceStatus
  receipt : Option Bytes
  error : Option String

/-- `std::process::ExitStatus` on Unix. -/
structure ExitStatus where
  code : Option Int32
  signal : Option (Fin 128)

def exitCodeOf (status : ExitStatus) : Int32 :=
  match status.code with
  | some code => code
  | none =>
    match status.signal with
    | some signal => 128 + Int32.ofNat signal
    | none => 1

theorem exitCodeOf_eq_zero_iff {status : ExitStatus} :
    exitCodeOf status = 0 ↔ status.code = some 0 := by
  cases status with
  | mk code signal =>
    cases code with
    | some code => simp [exitCodeOf]
    | none =>
      cases signal with
      | some signal =>
        have hne : ∀ signal : Fin 128, 128 + Int32.ofNat signal ≠ 0 := by decide
        simp [exitCodeOf, hne]
      | none => simp [exitCodeOf]

/-! ### Captured streams -/

def captureLimit : Nat := 64 * 1024

def truncationMarker : String := "\n[truncated by attest run --wrap]"

structure Captured where
  bytes : Bytes
  truncated : Bool

/-- One read of a stream. -/
def Captured.add (captured : Captured) (chunk : Bytes) : Captured :=
  if captured.bytes.length < captureLimit then
    let take := min chunk.length (captureLimit - captured.bytes.length)
    ⟨captured.bytes ++ chunk.take take, captured.truncated || decide (take < chunk.length)⟩
  else ⟨captured.bytes, true⟩

/-- The loop over what a stream gives: an empty read is its end, and so is a failed one. -/
def capture (captured : Captured) : List Bytes → Captured
  | [] => captured
  | chunk :: rest => if chunk = [] then captured else capture (captured.add chunk) rest

def tee (chunks : List Bytes) : String :=
  let captured := capture ⟨[], false⟩ chunks
  Lossy.text captured.bytes ++ if captured.truncated then truncationMarker else ""

/-- What a stream gave up to its end. -/
def streamed (chunks : List Bytes) : Bytes := (chunks.takeWhile (· ≠ [])).flatten

/-- What has been captured of some bytes. -/
def capturedOf (bytes : Bytes) : Captured :=
  ⟨bytes.take captureLimit, decide (captureLimit < bytes.length)⟩

theorem capturedOf_add {bytes chunk : Bytes} (h : chunk ≠ []) :
    (capturedOf bytes).add chunk = capturedOf (bytes ++ chunk) := by
  have hchunk := List.length_pos_iff.mpr h
  unfold Captured.add capturedOf
  simp only [List.length_take, List.length_append, List.take_append]
  split
  next hlt =>
    have hshort : bytes.length < captureLimit := by omega
    simp only [Captured.mk.injEq, Nat.min_eq_right (Nat.le_of_lt hshort)]
    constructor
    · rw [Nat.min_comm, ← List.take_take, List.take_length]
    · rw [← Bool.decide_or, decide_eq_decide]
      omega
  next hle =>
    have hlong : captureLimit ≤ bytes.length := by omega
    simp only [Captured.mk.injEq, Nat.sub_eq_zero_of_le hlong, List.take_zero, List.append_nil,
      true_and]
    exact (decide_eq_true (by omega)).symm

/-- The text of a stream is its first bytes up to the limit, and marked where there are more. -/
theorem tee_eq (chunks : List Bytes) :
    tee chunks = Lossy.text ((streamed chunks).take captureLimit) ++
      if captureLimit < (streamed chunks).length then truncationMarker else "" := by
  have hcapture : ∀ bytes, capture (capturedOf bytes) chunks =
      capturedOf (bytes ++ streamed chunks) := by
    induction chunks with
    | nil =>
      intro bytes
      rw [capture, streamed, List.takeWhile_nil, List.flatten_nil, List.append_nil]
    | cons chunk rest ih =>
      intro bytes
      unfold capture streamed
      split
      next hempty => simp [hempty]
      next hne =>
        rw [capturedOf_add hne, ih, List.takeWhile_cons_of_pos (by simpa using hne),
          List.flatten_cons, List.append_assoc, streamed]
  have hstart := hcapture []
  rw [List.nil_append] at hstart
  rw [tee, show (⟨[], false⟩ : Captured) = capturedOf [] from rfl, hstart]
  simp [capturedOf]

/-! ### Calls -/

/-- What `wait` and the two threads on the streams give. -/
structure Waited where
  status : ExitStatus
  /-- What the reads gave; nothing where the thread panicked. -/
  stdout : Option (List Bytes)
  stderr : Option (List Bytes)
  elapsed : UInt64

inductive Call
  /-- `InputGuard::hold`, and whether the guard is enforced. -/
  | hold
  /-- `hashing::hash_inputs` of the declared inputs. -/
  | hashInputs (run : String)
  /-- `Command::spawn`, with both streams piped. -/
  | spawn (program : String) (args : List String)
  | wait
  /-- `hashing::outputs_with_artifacts` of the declared outputs. -/
  | outputs
  | now
  /-- `CausalLedger::init_local`. -/
  | initLedger
  /-- `CausalLedger::store_event_local`. -/
  | storeEvent (event : CausalEvent)
  /-- `Storage::new`. -/
  | openStorage
  /-- `KeyStore::select_signing_key`. -/
  | selectSigningKey (key : Option String)
  /-- `AttestKeypair::load_or_generate`. -/
  | loadOrGenerate
  /-- `timestamp::request_token`, in Base64. -/
  | requestToken (url : String) (receipt : Receipt)
  /-- `fs::create_dir_all` of the directory of receipts. -/
  | createReceiptsDir
  /-- `write_receipt_unique`, and the path of the file that is there when it returns one. -/
  | writeReceipt (stamp label : String) (content : Bytes)
  /-- `fs::write` of the report. -/
  | writeReport (path bytes : Bytes)

def Reply : Call → Type
  | .hold => Except String Bool
  | .hashInputs _ => Except String String
  | .spawn _ _ => Except String Unit
  | .wait => Except String Waited
  | .outputs => Except String (String × List ArtifactInfo)
  | .now => DateTime
  | .initLedger => Except String Unit
  | .storeEvent _ => Except String Unit
  | .openStorage => Except String Unit
  | .selectSigningKey _ => Except String (Option SigningKey)
  | .loadOrGenerate => Except String SigningKey
  | .requestToken _ _ => Except String String
  | .createReceiptsDir => Except String Unit
  | .writeReceipt _ _ _ => Except String Bytes
  | .writeReport _ _ => Except String Unit

/-- What is outside the program. -/
structure Scene where
  files : FileSystem
  /-- How the command ended. -/
  ended : Option ExitStatus
  /-- How the command ended, as `wait` has told. -/
  told : Option ExitStatus
  /-- The files the declared inputs were last hashed in, since the end of the command was
  told. -/
  rehashed : Option FileSystem
  /-- The receipts that were written, by their paths. -/
  receipts : List (Bytes × Bytes)
  /-- The report, with its path. -/
  report : Option (Bytes × Bytes)

def start (files : FileSystem) : Scene := ⟨files, none, none, none, [], none⟩

/-- Only files have changed. -/
def Scene.Beside (w w' : Scene) : Prop := w' = { w with files := w'.files }

section Answers
variable (m : Machine) (options : WrapOptions)

/-- What a call can be answered, and what becomes of the scene. A hash that is given is that of
the files as they are; everything else may fail as it likes. -/
def Answers (w : Scene) : (c : Call) → Reply c → Scene → Prop
  | .hashInputs run, r, w' =>
    (∀ hash, r = .ok hash → Hashing.hashInputs m.recorder.crates w.files options.root options.name
      run options.declaredInputs = .ok hash) ∧
    w' = { w with rehashed := w.told.map fun _ => w.files }
  | .wait, r, w' =>
    match r with
    | .ok waited => w' = { w with
        files := w'.files
        ended := some waited.status
        told := some waited.status
        rehashed := none }
    | .error _ => w' = { w with files := w'.files, ended := w'.ended }
  | .outputs, r, w' => w' = w ∧ ∀ found, r = .ok found →
    outputsWithArtifacts m.recorder.crates w.files options.root options.name
      options.declaredOutputs = .ok found
  | .writeReceipt _ _ content, r, w' =>
    match r with
    | .ok path => w' = { w with files := w'.files, receipts := w.receipts ++ [(path, content)] }
    | .error _ => w.Beside w'
  | .writeReport path bytes, r, w' =>
    match r with
    | .ok () => w' = { w with files := w'.files, report := some (path, bytes) }
    | .error _ => w' = { w with files := w'.files, report := w'.report }
  | _, _, w' => w.Beside w'

end Answers

/-! ### The program -/

abbrev Wrapping := Script Call Reply String WrapReport

/-- `?` on a result. -/
def orFail {α : Type} (x : Except String α) : Wrapping α :=
  match x with
  | .ok a => pure a
  | .error e => throw e

/-- `report.error = Some(text)`. -/
def note (text : String) : Wrapping Unit := modify fun report => { report with error := some text }

def encodeCommand (command : List String) : String := Json.compact (.array (command.map .text))

/-- The digest of a text, in hex. -/
def digestText (c : Crates) (text : String) : String := hexEncode (c.blake3 (utf8 text)).toList

def pipelineHash (c : Crates) (canonicalCommand : String) : String :=
  digestText c ("attest-wrap/v1" ++ "\n" ++ canonicalCommand)

/-- `provenance::step`. -/
def provenanceStep (c : Crates) (name run : String) (needs : List String)
    (inputs outputs : List Bytes) : StepProvenance where
  name := name
  needs := needs
  commandHash := digestText c run
  inputs := inputs.map Lossy.text
  outputs := outputs.map Lossy.text

def inputsControl (held : Bool) : IsolationControl where
  name := "inputs"
  status := .notEnforced
  detail := if held then
      "declared inputs held read-only and rehashed after execution; the same user can restore " ++
        "write permissions, so transient changes are not prevented"
    else
      "declared inputs rehashed after execution; permission guard unavailable or ineffective " ++
        "for root, so transient changes are not prevented"

def wrappedIsolation (platform : Sandbox.Platform) (held : Bool) : IsolationReport :=
  let report := unisolatedReport platform false
  { report with controls := report.controls ++ [inputsControl held] }

/-- `%Y%m%dT%H%M%SZ`. -/
def stampText (t : DateTime) : String :=
  let (year, month, day) := civil (t.secs / 86400)
  let second := (t.secs % 86400).toNat
  yearText year ++ padded 2 month ++ padded 2 day ++ "T" ++ padded 2 (second / 3600) ++
    padded 2 (second / 60 % 60) ++ padded 2 (second % 60 + t.nanos / 1000000000) ++ "Z"

def sanitizeLabel (name : String) : String :=
  String.ofList (name.toList.map fun c => if c.isAlphanum || c ∈ ['.', '_', '-'] then c else '-')

section Program
variable (m : Machine) (options : WrapOptions) (command : List String)

/-- The receipt as it is first made. -/
def wrapReceipt (held : Bool) (inputHash outputHash : String) (artifacts : List ArtifactInfo)
    (waited : Waited) (now : DateTime) : Receipt where
  schemaVersion := some receiptSchemaVersion
  pipelineHash := pipelineHash m.recorder.crates (encodeCommand command)
  steps := [{
    name := options.name
    inputHash := inputHash
    outputHash := outputHash
    durationSecs := waited.elapsed
    exitCode := exitCodeOf waited.status
    cacheHit := false
    stdout := (waited.stdout.map tee).getD "[capture failed]"
    stderr := (waited.stderr.map tee).getD "[capture failed]"
    capsuleHash := none }]
  timestamp := now
  totalDurationSecs := waited.elapsed
  signature := none
  signerPublicKey := none
  attestVersion := m.attestVersion
  causalEvents := []
  causalChainHash := none
  reproducibility := none
  provenance := some { m.provenance with
    pipelineName := some options.name
    steps := m.provenance.steps ++ [provenanceStep m.recorder.crates options.name
      (encodeCommand command) [] options.inputs options.outputs]
    artifacts := artifacts
    execution := some (.wrapped command) }
  timestampToken := none
  isolation := some (wrappedIsolation m.platform held)

/-- What the event of the command records. -/
def wrapFacts (receipt : Receipt) (inputHash outputHash : String) (exitCode : Int32) :
    EventFacts where
  stepName := options.name
  causalParents := []
  inputHash := inputHash
  outputHash := outputHash
  exitCode := exitCode.toInt
  pipelineHash := receipt.pipelineHash
  environmentHash := digestText m.recorder.crates
    (m.recorder.os ++ ":" ++ m.recorder.arch ++ ":wrapped")
  metadata := []

/-- The event of the command, in a ledger without a key. -/
def recordEvent (receipt : Receipt) (inputHash outputHash : String) (exitCode : Int32) :
    Wrapping Receipt := do
  let opened : Except String Unit ← request Call.initLedger
  orFail opened
  let now : DateTime ← request Call.now
  let event := namedEvent m.recorder none
    ((wrapFacts m options receipt inputHash outputHash exitCode).at now)
  let stored : Except String Unit ← request (Call.storeEvent event)
  orFail stored
  return { receipt with
    causalEvents := [event.eventId]
    causalChainHash := some (chainHash m.recorder.crates [event]) }

/-- `Storage::timestamp_receipt`. -/
def timestampReceipt (receipt : Receipt) (url : String) : Wrapping Receipt := do
  if receipt.signature = none then
    throw "cannot timestamp an unsigned receipt"
  let reply : Except String String ← request (Call.requestToken url receipt)
  let token ← orFail reply
  return { receipt with timestampToken := some token }

/-- The managed key, or the raw one under `.attest/keys`. -/
def signingKey : Wrapping SigningKey := do
  let selected : Except String (Option SigningKey) ← request (Call.selectSigningKey options.key)
  match ← orFail selected with
  | some key => return key
  | none =>
    let loaded : Except String SigningKey ← request Call.loadOrGenerate
    orFail loaded

def signIfAsked (receipt : Receipt) : Wrapping Receipt := do
  if options.sign then
    let opened : Except String Unit ← request Call.openStorage
    orFail opened
    let key ← signingKey options
    let signed ← orFail (signReceipt m (some key) receipt)
    match options.tsa with
    | some url => timestampReceipt signed url
    | none => return signed
  else if options.tsa.isSome then
    throw "--timestamp requires --sign; there is no signature to timestamp"
  else return receipt

/-- The receipt in its directory, and in the report. -/
def writeUp (receipt : Receipt) (exitCode : Int32) : Wrapping Int32 := do
  let created : Except String Unit ← request Call.createReceiptsDir
  orFail created
  let now : DateTime ← request Call.now
  let content ← orFail (m.receiptYaml receipt)
  let written : Except String Bytes ←
    request (Call.writeReceipt (stampText now) (sanitizeLabel options.name) content)
  let path ← orFail written
  modify fun report => { report with receipt := some path, evidenceStatus := .produced }
  return exitCode

/-- A failure to attest that is not passed on as an error: a success of the command does not
stay one. -/
def giveUp (text : String) (exitCode : Int32) : Wrapping Int32 := do
  note text
  return if exitCode = 0 then 1 else exitCode

/-- Whether the declared inputs are as they were. -/
def changed (inputHash : String) : Except String String → Option String
  | .error text => some text
  | .ok after => if after ≠ inputHash then
      some "wrapped command modified its own declared inputs while running" else none

/-- From the start of the command on. -/
def attestChild (held : Bool) (inputHash : String) : Wrapping Int32 := do
  let reply : Except String Waited ← request Call.wait
  let waited ← orFail reply
  let exitCode := exitCodeOf waited.status
  modify fun report => { report with buildExitCode := some exitCode }
  let after : Except String String ← request (Call.hashInputs (encodeCommand command))
  match changed inputHash after with
  | some text => giveUp text exitCode
  | none =>
    let found : Except String (String × List ArtifactInfo) ← request Call.outputs
    match found with
    | .error text => giveUp text exitCode
    | .ok (outputHash, artifacts) =>
      let now : DateTime ← request Call.now
      let receipt := wrapReceipt m options command held inputHash outputHash artifacts waited now
      let recorded ← recordEvent m options receipt inputHash outputHash exitCode
      let signed ← signIfAsked m options recorded
      writeUp m options signed exitCode

def runWrapInner : Wrapping Int32 := do
  match command with
  | [] => throw "--wrap requires a command after `--`"
  | first :: rest =>
    let guard : Except String Bool ← request Call.hold
    let held ← orFail guard
    let before : Except String String ← request (Call.hashInputs (encodeCommand command))
    match before with
    | .error text =>
      note text
      return 1
    | .ok inputHash =>
      let spawned : Except String Unit ← request (Call.spawn first rest)
      match spawned with
      | .error text =>
        note ("failed to execute command: " ++ text)
        return 127
      | .ok () => attestChild m options command held inputHash

/-- The report as it is written. -/
def settled (result : Except String Int32) (report : WrapReport) : WrapReport :=
  let report := match result with
    | .error e => { report with error := some e }
    | .ok _ => report
  if report.evidenceStatus = .failed ∧ report.error = none then
    { report with error := some "attestation incomplete; see stderr" }
  else report

variable (reportJson : WrapReport → Except String Bytes) (reportPath : Option Bytes)

def writeReport (report : WrapReport) : Process Call Reply (Except String Unit) :=
  match reportPath with
  | none => pure (.ok ())
  | some path =>
    match reportJson report with
    | .error e => pure (.error e)
    | .ok bytes => Process.ask (Call.writeReport path bytes)

/-- The code of a build that failed, before anything else. -/
def concluded (result : Except String Int32) (report : WrapReport) (reporting : Except String Unit) :
    Except String Int32 :=
  match report.buildExitCode.filter (· ≠ 0) with
  | some code => .ok code
  | none => do
    reporting
    result

/-- `run_wrap_with_report`, with the report as it is left. -/
def runWrapWithReport : Process Call Reply (Except String Int32 × WrapReport) := do
  let ended ← (runWrapInner m options command).run.run ⟨none, .failed, none, none⟩
  let report := settled ended.1 ended.2
  let reporting ← writeReport reportJson reportPath report
  return (concluded ended.1 report reporting, report)

/-- A run to its end. -/
def Runs (files : FileSystem) (result : Except String Int32) (report : WrapReport) (w : Scene) :
    Prop :=
  Relation.ReflTransGen (Goes (Answers m options))
    (runWrapWithReport m options command reportJson reportPath, start files)
    (.done (result, report), w)

end Program

end Attest.Executor.Wrap
