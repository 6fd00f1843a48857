import Attest.Library.Fallible
import Attest.Library.StableSort
import Attest.Trust.Time
import Mathlib.Data.Set.Function

/-! Receipts and the bytes their signature covers, as `storage/receipt_format.rs` has
them.

A receipt is signed with the three fields that only exist after signing left out, its
steps in the order of their names and its causal events in order. Sorting the steps is
stable, so the bytes tell apart everything else a receipt records: two receipts have
the same bytes exactly when they record the same facts. -/
namespace Attest.Storage
open Library.StableSort
open Trust (DateTime)

/-- The latest receipt schema this binary reads. -/
def receiptSchemaVersion : UInt32 := 3

/-! ### What a receipt records -/

structure StepResult where
  name : String
  inputHash : String
  outputHash : String
  durationSecs : UInt64
  exitCode : Int32
  cacheHit : Bool
  stdout : String
  stderr : String
  capsuleHash : Option String
deriving DecidableEq

/-- The result of building twice. -/
structure ReproducibilityInfo where
  verified : Bool
  runs : UInt32
  method : String
deriving DecidableEq

/-- How the execution was declared. -/
inductive ExecutionDescriptor
  | native
  | wrapped (command : List String)
deriving DecidableEq

structure SourceInfo where
  repository : Option String
  commit : String
  branch : Option String
  trackedDirty : Bool
deriving DecidableEq

structure CiInfo where
  provider : String
  runId : Option String
  jobId : Option String
deriving DecidableEq

structure StepProvenance where
  name : String
  needs : List String
  commandHash : String
  inputs : List String
  outputs : List String
deriving DecidableEq

structure ArtifactInfo where
  step : String
  path : String
  kind : String
  digest : String
  algorithm : String
deriving DecidableEq

structure ExecutionProvenance where
  invocationId : Option String
  startedAt : Option DateTime
  pipelineName : Option String
  source : Option SourceInfo
  runnerOs : String
  runnerArch : String
  ci : Option CiInfo
  steps : List StepProvenance
  artifacts : List ArtifactInfo
  execution : Option ExecutionDescriptor
deriving DecidableEq

inductive ControlStatus
  | enforced
  | notEnforced
  | notAvailable
deriving DecidableEq

structure IsolationControl where
  name : String
  status : ControlStatus
  detail : String
deriving DecidableEq

/-- Which isolation controls were in force. -/
structure IsolationReport where
  mode : String
  platform : String
  controls : List IsolationControl
  capsuleSteps : List String
deriving DecidableEq

structure Receipt where
  schemaVersion : Option UInt32
  pipelineHash : String
  steps : List StepResult
  timestamp : DateTime
  totalDurationSecs : UInt64
  signature : Option String
  signerPublicKey : Option String
  attestVersion : String
  causalEvents : List String
  causalChainHash : Option String
  reproducibility : Option ReproducibilityInfo
  provenance : Option ExecutionProvenance
  timestampToken : Option String
  isolation : Option IsolationReport
deriving DecidableEq

/-! ### The signed bytes -/

/-- The receipt as it is written for signing. -/
def Receipt.signingForm (receipt : Receipt) : Receipt :=
  { receipt with
    signature := none
    signerPublicKey := none
    timestampToken := none
    steps := sortByKey StepResult.name receipt.steps
    causalEvents := sortByKey id receipt.causalEvents }

/-- `receipt_signing_bytes`, by the JSON writer of a receipt. -/
def receiptSigningBytes (toJson : Receipt → Except String String) (receipt : Receipt) :
    Except String String :=
  (toJson receipt.signingForm).mapError fun _ => "Failed to serialize receipt for signing"

/-- What the JSON writer does on the receipts of a set: it writes each, and no two alike. -/
structure Distinguishes (toJson : Receipt → Except String String) (receipts : Set Receipt) :
    Prop where
  writes : ∀ r ∈ receipts, ∃ text, toJson r = .ok text
  injOn : Set.InjOn toJson receipts

/-- Two receipts record the same facts: all fields but the three that signing adds, up to the
order of steps with different names and the order of the causal events. -/
structure SameFacts (a b : Receipt) : Prop where
  schemaVersion : a.schemaVersion = b.schemaVersion
  pipelineHash : a.pipelineHash = b.pipelineHash
  steps : Reordered StepResult.name a.steps b.steps
  timestamp : a.timestamp = b.timestamp
  totalDurationSecs : a.totalDurationSecs = b.totalDurationSecs
  attestVersion : a.attestVersion = b.attestVersion
  causalEvents : a.causalEvents.Perm b.causalEvents
  causalChainHash : a.causalChainHash = b.causalChainHash
  reproducibility : a.reproducibility = b.reproducibility
  provenance : a.provenance = b.provenance
  isolation : a.isolation = b.isolation

theorem signingForm_eq_iff {a b : Receipt} : a.signingForm = b.signingForm ↔ SameFacts a b := by
  constructor
  · intro h
    unfold Receipt.signingForm at h
    injection h with hschema hpipeline hsteps htime htotal _ _ hversion hevents hchain hrepro hprov _
      hisolation
    exact ⟨hschema, hpipeline, reordered_iff.mpr hsteps, htime, htotal, hversion,
      sortByKey_id_eq_iff.mp hevents, hchain, hrepro, hprov, hisolation⟩
  · intro h
    unfold Receipt.signingForm
    rw [reordered_iff.mp h.steps, sortByKey_id_eq_iff.mpr h.causalEvents, h.schemaVersion,
      h.pipelineHash, h.timestamp, h.totalDurationSecs, h.attestVersion, h.causalChainHash,
      h.reproducibility, h.provenance, h.isolation]

section Bytes
variable {toJson : Receipt → Except String String} {a b : Receipt}

theorem receiptSigningBytes_eq_ok {text : String} :
    receiptSigningBytes toJson a = .ok text ↔ toJson a.signingForm = .ok text := by
  exact Library.Fallible.mapError_eq_ok

/-- A token is attached after signing and leaves the bytes alone. -/
theorem receiptSigningBytes_withToken (token : Option String) :
    receiptSigningBytes toJson { a with timestampToken := token } = receiptSigningBytes toJson a :=
  rfl

/-- **Two receipts have the same signing bytes exactly when they record the same facts**, and a
token changes no bytes. -/
theorem receiptSigningBytes_eq_iff (h : Distinguishes toJson {a.signingForm, b.signingForm}) :
    ((∃ text, receiptSigningBytes toJson a = .ok text ∧ receiptSigningBytes toJson b = .ok text) ↔
      SameFacts a b) ∧
    ∀ token, receiptSigningBytes toJson { a with timestampToken := token } =
      receiptSigningBytes toJson a := by
  refine ⟨?_, receiptSigningBytes_withToken⟩
  rw [← signingForm_eq_iff]
  constructor
  · intro ⟨text, ha, hb⟩
    rw [receiptSigningBytes_eq_ok] at ha hb
    exact h.injOn (by simp) (by simp) (ha.trans hb.symm)
  · intro hsame
    obtain ⟨text, htext⟩ := h.writes a.signingForm (by simp)
    exact ⟨text, receiptSigningBytes_eq_ok.mpr htext,
      receiptSigningBytes_eq_ok.mpr (hsame ▸ htext)⟩

end Bytes

/-! ### A sample receipt

Two steps and two causal events, neither in order, as a run leaves them. -/

def sampleDigest (c : Char) : String := String.ofList (List.replicate 64 c)

def sampleFetch : StepResult :=
  ⟨"fetch", sampleDigest 'b', sampleDigest 'c', 1, 0, false, "", "", none⟩

def sampleBuild : StepResult :=
  ⟨"build", sampleDigest 'c', sampleDigest 'b', 2, 0, false, "", "", none⟩

def sampleReceipt (timestamp : DateTime) : Receipt where
  schemaVersion := some 3
  pipelineHash := sampleDigest 'a'
  steps := [sampleFetch, sampleBuild]
  timestamp := timestamp
  totalDurationSecs := 3
  signature := none
  signerPublicKey := none
  attestVersion := "0.3.1"
  causalEvents := [sampleDigest 'e', sampleDigest 'd']
  causalChainHash := some (sampleDigest 'f')
  reproducibility := none
  provenance := none
  timestampToken := none
  isolation := none

def sampleStepText (name inputHash outputHash duration : String) : String :=
  "\x7b\"name\":\"" ++ name ++ "\",\"input_hash\":\"" ++ inputHash ++ "\",\"output_hash\":\"" ++
    outputHash ++ "\",\"duration_secs\":" ++ duration ++
    ",\"exit_code\":0,\"cache_hit\":false,\"stdout\":\"\",\"stderr\":\"\"\x7d"

/-- The JSON text of the sample receipt as it is signed. -/
def sampleText (timestamp : DateTime) : String :=
  "\x7b\"schema_version\":3,\"pipeline_hash\":\"" ++ sampleDigest 'a' ++ "\",\"steps\":[" ++
    sampleStepText "build" (sampleDigest 'c') (sampleDigest 'b') "2" ++ "," ++
    sampleStepText "fetch" (sampleDigest 'b') (sampleDigest 'c') "1" ++ "],\"timestamp\":\"" ++
    timestamp.rfc3339 ++ "\",\"total_duration_secs\":3,\"signature\":null," ++
    "\"signer_public_key\":null,\"attest_version\":\"0.3.1\",\"causal_events\":[\"" ++
    sampleDigest 'd' ++ "\",\"" ++ sampleDigest 'e' ++ "\"],\"causal_chain_hash\":\"" ++
    sampleDigest 'f' ++ "\"\x7d"

/-- The JSON writer, as it writes sample receipts for signing. -/
def sampleJson (receipt : Receipt) : Except String String := .ok (sampleText receipt.timestamp)

theorem sampleDate_inRange : Trust.minSecs ≤ 1785542400 ∧ 1785542400 ≤ Trust.maxSecs := by decide

def sampleDate : DateTime := ⟨1785542400, 0, sampleDate_inRange, Trust.DateTime.zero_nanos_lt⟩

/-- The receipt in another order, signed and with a token. -/
def sampleReordered : Receipt :=
  { sampleReceipt sampleDate with
    steps := [sampleBuild, sampleFetch]
    causalEvents := [sampleDigest 'd', sampleDigest 'e']
    signature := some "00"
    signerPublicKey := some "01"
    timestampToken := some "MIIBogYJKoZIhvcNAQcCoIIBkz==" }

theorem sameFacts_sample : SameFacts (sampleReceipt sampleDate) sampleReordered where
  schemaVersion := rfl
  pipelineHash := rfl
  steps := by
    refine reordered_iff.mpr ?_
    rw [show (sampleReceipt sampleDate).steps = [sampleFetch, sampleBuild] from rfl,
      sortByKey_swap (show sampleBuild.name < sampleFetch.name by decide)]
    exact (List.mergeSort_of_pairwise (by decide)).symm
  timestamp := rfl
  totalDurationSecs := rfl
  attestVersion := rfl
  causalEvents := List.Perm.swap _ _ _
  causalChainHash := rfl
  reproducibility := rfl
  provenance := rfl
  isolation := rfl

theorem receiptSigningBytes_eq_sample :
    SameFacts (sampleReceipt sampleDate) sampleReordered ∧
      ∃ text, receiptSigningBytes sampleJson (sampleReceipt sampleDate) = .ok text ∧
        receiptSigningBytes sampleJson sampleReordered = .ok text := by
  have hform := signingForm_eq_iff.mpr sameFacts_sample
  have hdistinguishes : Distinguishes sampleJson
      {(sampleReceipt sampleDate).signingForm, sampleReordered.signingForm} := by
    refine ⟨fun r _ => ⟨_, rfl⟩, ?_⟩
    rw [hform, Set.pair_eq_singleton]
    exact Set.injOn_singleton _ _
  exact ⟨sameFacts_sample,
    (receiptSigningBytes_eq_iff hdistinguishes).1.mpr sameFacts_sample⟩

end Attest.Storage
