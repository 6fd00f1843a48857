import Attest.Library.Process
import Attest.Publication.Record
import Attest.Publication.Tiles

/-! The publisher, as `publication/client.rs` has it.

`publish` checks the receipt and the destination, takes the lock beside the record and
works on the record: it writes down what it is about to disclose, submits, and polls until
the log's own tree shows the entry. Every file operation and every request is a call, and
what it can be answered is `Answers`: the disk may fail at each operation, also after the
record has been renamed into place, and a request may be answered by anything, by nothing,
or not before the deadline. `serde_json` is a parameter, with the rest of what the record
and the log are read with. -/
namespace Attest.Publication.Client
open Merkle Note Record Library Library.Text Library.Fallible Library.Process
open Trust (hexEncode utf8 DateTime)
open Verify (Backend Files VerifyOptions verifyReceiptBytes)

def maxRequests : Nat := 2048
def maxCheckpointPolls : Nat := 30

/-! ### Failures -/

inductive TransportFault
  | unavailable
  | rejected (status : Nat)
  | oversize
  | budget

/-- An error of a request, an error of the tile reader by its text, or another. -/
inductive Failure
  | transport (fault : TransportFault)
  | tiles (text : String)
  | message (text : String)

/-- A transport fault keeps its kind through the tile reader: its text is no other error's. -/
def reason : Failure → UnconfirmedReason
  | .transport .unavailable => .requestFailed
  | .transport (.rejected _) => .serviceRefused
  | .transport .oversize => .invalidProof
  | .transport .budget => .invalidProof
  | .tiles text =>
    if text = "log request failed" then .requestFailed
    else if "log returned HTTP ".toList.isPrefixOf text.toList then .serviceRefused
    else .invalidProof
  | .message _ => .invalidProof

/-- `Rejected(code) if !(500..600).contains(code) && *code != 429`. -/
def Failure.isFinal : Failure → Bool
  | .transport (.rejected status) => !(decide (500 ≤ status ∧ status < 600)) && status != 429
  | _ => false

/-! ### Calls -/

/-- A response, with its body as it arrives; `broken` when the connection ends before it does. -/
structure Response where
  status : Nat
  contentLength : Option Nat
  chunks : List Bytes
  broken : Bool

/-- What an `await` gives under the deadline. -/
inductive Awaited (α : Type)
  | ready (a : α)
  | deadline

structure Metadata where
  isFile : Bool
  isSymlink : Bool
  mode : Nat

/-- The places `save` is called from. -/
inductive SavePoint
  | prepared
  | intent
  | reply
  | confirmation
  | closing
deriving DecidableEq

inductive Call
  /-- `symlink_metadata` of the record. -/
  | metadata
  | read
  /-- The staged file: created, made private, written and synced. -/
  | stage (bytes : Bytes)
  /-- The staged file renamed to the record; `noclobber` refuses to replace one. -/
  | persist (bytes : Bytes) (noclobber : Bool)
  /-- The parent directory opened and synced. -/
  | syncParent (point : SavePoint)
  | randomness
  | now
  | post (body : Bytes)
  | get (path : String)
  /-- The tiles, as `HttpLog::tile` answers for each while one reader is at work. -/
  | tiles
  | sleep

def Reply : Call → Type
  | .metadata => Except String (Option Metadata)
  | .read => Except String Bytes
  | .stage _ => Except String Unit
  | .persist _ _ => Except String Unit
  | .syncParent _ => Except String Unit
  | .randomness => Option Hash
  | .now => DateTime
  | .post _ => Awaited (Option Response)
  | .get _ => Awaited (Option Response)
  | .tiles => Awaited Tiles.TileSource
  | .sleep => Awaited Unit

/-- The record's file, and what was ever sent for it. -/
structure World where
  record : Option Bytes
  posts : List Bytes

/-- What a call can be answered, and what it does. With `calm` the directory does not fail
after a confirmed record has been put in place. -/
def Answers (calm : Prop) (w : World) : (c : Call) → Reply c → World → Prop
  | .metadata, r, w' => w' = w ∧
    match r with
    | .ok none => w.record = none
    | .ok (some _) => w.record ≠ none
    | .error _ => True
  | .read, r, w' => w' = w ∧ ∀ bytes, r = .ok bytes → w.record = some bytes
  | .stage _, _, w' => w' = w
  | .persist bytes noclobber, r, w' =>
    match r with
    | .ok () => (noclobber = true → w.record = none) ∧ w' = { w with record := some bytes }
    | .error _ => w' = w
  | .syncParent point, r, w' => w' = w ∧ (calm → point = .confirmation → r = .ok ())
  | .randomness, _, w' => w' = w
  | .now, _, w' => w' = w
  -- a request that got no response may have been sent all the same
  | .post body, r, w' => w' = { w with posts := w.posts ++ [body] } ∨
    w' = w ∧ ∀ response, r ≠ .ready (some response)
  | .get _, _, w' => w' = w
  | .tiles, _, w' => w' = w
  | .sleep, _, w' => w' = w

/-! ### The record's file -/

/-- `serde_json` on records, both ways. -/
structure RecordCodec extends Codec where
  /-- `serde_json::to_vec_pretty`. -/
  toVecPretty : PublicationRecord → Except String Bytes

section Store
variable {α ε σ : Type} (codec : RecordCodec) (fail : String → ε)

/-- `?` on a result. -/
def orFail (x : Except String α) : Script Call Reply ε σ α :=
  match x with
  | .ok a => pure a
  | .error e => throw (fail e)

def load : Script Call Reply ε σ (Option PublicationRecord) := do
  let found : Except String (Option Metadata) ← request Call.metadata
  match ← orFail fail found with
  | none => return none
  | some metadata =>
    orFail fail (refuseIf (¬ (metadata.isFile = true ∧ metadata.isSymlink = false))
      "publication record is not a regular file")
    orFail fail (refuseIf (metadata.mode &&& 0o077 ≠ 0)
      "publication record must be private to its owner")
    let content : Except String Bytes ← request Call.read
    let bytes ← orFail fail content
    orFail fail (refuseIf (maxRecordBytes < bytes.length) "publication record is too large")
    let record ← orFail fail (decodeRecord codec.toCodec bytes)
    return some record

def save (record : PublicationRecord) (initial : Bool) (point : SavePoint) :
    Script Call Reply ε σ Unit := do
  let bytes ← orFail fail (codec.toVecPretty record)
  orFail fail (refuseIf (maxRecordBytes ≤ bytes.length) "publication record exceeds its size limit")
  let staged : Except String Unit ← request (Call.stage (bytes ++ [10]))
  orFail fail staged
  let renamed : Except String Unit ← request (Call.persist (bytes ++ [10]) initial)
  orFail fail renamed
  let synced : Except String Unit ← request (Call.syncParent point)
  orFail fail synced

end Store

/-! ### The log -/

/-- Why `obtain_inclusion` ends early: an error, or the deadline that drops it. -/
inductive Stop
  | failed (failure : Failure)
  | deadline

/-- The record in memory, and how many requests were made. -/
structure Progress where
  record : PublicationRecord
  requests : Nat

abbrev Obtaining := Script Call Reply Stop Progress

def stopWith (text : String) : Stop := .failed (.message text)

def await {α : Type} (x : Awaited α) : Obtaining α :=
  match x with
  | .ready a => pure a
  | .deadline => throw .deadline

def pause : Obtaining Unit := do
  let reply : Awaited Unit ← request Call.sleep
  await reply

def setOutcome (outcome : PublicationState) : Obtaining Unit :=
  modify fun p => { p with record := { p.record with outcome := outcome } }

/-- `HttpLog::budget`: whether one more request may be made. -/
def budget : Obtaining Bool := do
  let requests := (← get).requests
  modify fun p => { p with requests := p.requests + 1 }
  return decide (requests < maxRequests)

/-- The loop over the chunks of a body. -/
def collectBody (maximum : Nat) (broken : Bool) (bytes : Bytes) :
    List Bytes → Except TransportFault Bytes
  | [] => if broken then .error .unavailable else .ok bytes
  | chunk :: rest =>
    if maximum < bytes.length + chunk.length then .error .oversize
    else collectBody maximum broken (bytes ++ chunk) rest

def body (response : Response) (maximum : Nat) : Except TransportFault Bytes :=
  if response.contentLength.any (fun length => decide (maximum < length)) then .error .oversize
  else collectBody maximum response.broken [] response.chunks

def isSuccess (status : Nat) : Bool := decide (200 ≤ status ∧ status < 300)

/-- What one attempt of `HttpLog::read` decides: a fault, the resource or its absence, or
that there is another attempt. -/
def judgeRead (last : Bool) (maximum : Nat) :
    Option Response → Except TransportFault (Option (Option Bytes))
  | none => if last then .error .unavailable else .ok none
  | some response =>
    if response.status = 404 then .ok (some none)
    else if isSuccess response.status then (body response maximum).map fun bytes => some (some bytes)
    else if last || !(decide (500 ≤ response.status ∧ response.status < 600) ||
        response.status == 429) then .error (.rejected response.status)
    else .ok none

/-- The attempts of `HttpLog::read` that are left. -/
def readResource (path : String) (maximum : Nat) : Nat → Obtaining (Option Bytes)
  | 0 => throw (.failed (.transport .unavailable))
  | left + 1 => do
    if ← budget then
      let reply : Awaited (Option Response) ← request (Call.get path)
      match judgeRead (left == 0) maximum (← await reply) with
      | .error fault => throw (.failed (.transport fault))
      | .ok (some found) => return found
      | .ok none =>
        pause
        readResource path maximum left
    else throw (.failed (.transport .budget))

def parseIndex (bytes : Bytes) : Except Failure Nat :=
  match String.fromUTF8? ⟨bytes.toArray⟩ with
  | none => .error (.message "invalid publication index encoding")
  | some text => do
    let digits := if text.toList.getLast? = some '\n' then text.toList.dropLast else text.toList
    refuseIf (¬ Canonical digits) (.message "invalid publication index")
    refuseIf (2 ^ 64 ≤ Nat.ofDigitChars 10 digits 0) (.message "publication index overflows")
    refuseIf (Nat.ofDigitChars 10 digits 0 = 2 ^ 64 - 1)
      (.message "publication index cannot fit a checkpoint")
    .ok (Nat.ofDigitChars 10 digits 0)

def judgeSubmission : Option Response → Except Failure Nat
  | none => .error (.transport .unavailable)
  | some response =>
    if !isSuccess response.status then .error (.transport (.rejected response.status))
    else
      match body response 32 with
      | .error fault => .error (.transport fault)
      | .ok bytes => parseIndex bytes

/-- What a submission is answered; the deadline goes past the caller. -/
def submit (entry : Bytes) : Obtaining (Except Failure Nat) := do
  if ← budget then
    let reply : Awaited (Option Response) ← request (Call.post entry)
    return judgeSubmission (← await reply)
  else return .error (.transport .budget)

/-! ### Inclusion -/

section Obtain
variable (s : Suite) (codec : RecordCodec) (trust : LogConfig)

def checkpoint : Obtaining (Option Checkpoint) := do
  match ← readResource "checkpoint" maxNoteBytes 3 with
  | none => return none
  | some bytes =>
    match String.fromUTF8? ⟨bytes.toArray⟩ with
    | none => throw (stopWith "invalid checkpoint text encoding")
    | some text =>
      let checkpoint ← orFail stopWith (Checkpoint.verify s text trust)
      return some checkpoint

/-- One submission: its intent on disk, the request, and what came of it. The result is
the index, or whether to try again. -/
def attempt (entry : Bytes) : Obtaining (Nat ⊕ Bool) := do
  let startedAt : DateTime ← request Call.now
  modify fun p => { p with
    record := { p.record with submissions := p.record.submissions ++ [⟨startedAt, none⟩] } }
  -- This is the disclosure boundary: record exact intent before POST.
  save codec stopWith (← get).record false .intent
  match ← submit entry with
  | .ok returned =>
    modify fun p => { p with record := { p.record with
      submissions := p.record.submissions.modifyLast fun a => { a with returnedIndex := some returned }
      outcome := .unconfirmed .awaitingInclusion } }
    save codec stopWith (← get).record false .reply
    return .inl returned
  | .error failure =>
    setOutcome (.unconfirmed (reason failure))
    save codec stopWith (← get).record false .reply
    if failure.isFinal then return .inr false
    else
      pause
      return .inr true

/-- The submission loop, with a bound it does not reach: each round adds a submission. -/
def submitUntilIndexed (entry : Bytes) : Nat → Option Nat → Obtaining (Option Nat)
  | 0, index => return index
  | rounds + 1, index => do
    if index.isNone ∧ (← get).record.submissions.length < maxSubmissions then
      match ← attempt codec entry with
      | .inl returned => submitUntilIndexed entry rounds (some returned)
      | .inr true => submitUntilIndexed entry rounds none
      | .inr false => return none
    else return index

/-- The proof from the tiles, checked as a recipient would, and written down. -/
def confirm (entry : Bytes) (index : Nat) (checkpoint : Checkpoint) : Obtaining Unit := do
  let reply : Awaited Tiles.TileSource ← request Call.tiles
  let source ← await reply
  match (Tiles.inclusion s.sha256 source checkpoint.treeSize index).run' ∅ with
  | .error text => throw (.failed (.tiles text))
  | .ok path =>
    orFail stopWith (verifyInclusion s.sha256 entry index checkpoint.treeSize path checkpoint.root)
    let record := (← get).record
    let confirmed := { record with
      outcome := .confirmed index checkpoint.signedNote (path.map fun h => hexEncode h.toList) }
    let _ ← orFail stopWith (confirmed.verify s record.causalRoot trust)
    save codec stopWith confirmed false .confirmation
    modify fun p => { p with record := confirmed }

/-- The polls that are left. -/
def poll (entry : Bytes) (index : Nat) : Nat → Obtaining Unit
  | 0 => return ()
  | polls + 1 => do
    match (← checkpoint s trust).filter (fun c => decide (index < c.treeSize)) with
    | some checkpoint => confirm s codec trust entry index checkpoint
    | none =>
      pause
      poll entry index polls

/-- The last index a submission returned. -/
def returnedIndex (record : PublicationRecord) : Option Nat :=
  record.submissions.reverse.findSome? Submission.returnedIndex

def obtainInclusion : Obtaining Unit := do
  let record := (← get).record
  let entry ← orFail stopWith (record.entryBytes s record.causalRoot)
  match ← submitUntilIndexed codec entry maxSubmissions (returnedIndex record) with
  | none => return ()
  | some index => poll s codec trust entry index maxCheckpointPolls

end Obtain

/-! ### The publisher under the lock -/

/-- What becomes of the record when `obtain_inclusion` has ended in one way or another. -/
def settle (result : Except Stop Unit) (record : PublicationRecord) : PublicationRecord :=
  let record :=
    match result with
    | .ok () => record
    | .error (.failed failure) => { record with outcome := .unconfirmed (reason failure) }
    | .error .deadline => { record with outcome := .unconfirmed .deadline }
  if record.outcome = .unconfirmed .prepared ∧ maxSubmissions ≤ record.submissions.length ∧
      record.submissions.all (fun a => a.returnedIndex.isNone) then
    { record with outcome := .unconfirmed .attemptLimit }
  else record

section Publish
variable (s : Suite) (codec : RecordCodec) (config : LogConfig) (root : String)

/-- The script of a publisher: its errors are texts, and it keeps nothing but the record. -/
abbrev Publishing := Script Call Reply String Unit

/-- `tokio::time::timeout` around a script with its own progress. -/
def timeout {α : Type} (x : Obtaining α) (p : Progress) : Publishing (Except Stop α × Progress) :=
  ExceptT.lift (StateT.lift (x.run.run p))

/-- The checks on a record that is there already. -/
def resume (record : PublicationRecord) : Except String Unit := do
  let _ ← record.entryBytes s root
  let logId ← config.logId s
  refuseIf (¬ (record.logId = logId ∧ record.submitUrl = config.submitUrl.getD ""))
    "existing record targets a different configured log"

def isConfirmed (record : PublicationRecord) : Bool :=
  match record.outcome with
  | .confirmed _ _ _ => true
  | .unconfirmed _ => false

/-- A record that discloses nothing yet. -/
def prepareNew : Publishing PublicationRecord := do
  let filled : Option Hash ← request Call.randomness
  match filled with
  | none => throw "operating-system randomness unavailable"
  | some nonce =>
    let openingNonce := hexEncode nonce.toList
    let entry ← orFail id (entryForRoot s.sha256 root openingNonce)
    let logId ← orFail id (config.logId s)
    match config.submitUrl with
    | none => throw "missing submission URL"
    | some submitUrl =>
      let createdAt : DateTime ← request Call.now
      let record : PublicationRecord :=
        { format := recordFormat
          causalRoot := root
          openingNonce := openingNonce
          entry := hexEncode entry
          logId := logId
          submitUrl := submitUrl
          createdAt := createdAt
          submissions := []
          outcome := .unconfirmed .prepared }
      save codec id record true .prepared
      return record

/-- From an unconfirmed record to the last write. -/
def pursue (record : PublicationRecord) : Publishing PublicationRecord := do
  let (result, progress) ← timeout (obtainInclusion s codec config) ⟨record, 0⟩
  let record := settle result progress.record
  save codec id record false .closing
  return record

/-- `publish`, once the receipt has been admitted and the lock is held. -/
def publishLocked : Publishing PublicationRecord := do
  match ← load codec id with
  | some record =>
    orFail id (resume s config root record)
    if isConfirmed record then
      let _ ← orFail id (record.verify s root config)
      return record
    else pursue s codec config record
  | none =>
    let record ← prepareNew s codec config root
    pursue s codec config record

/-- What stands before the lock: the deadline, the configured log, the receipt and its verdict.
`newLog` sets up the HTTP client. The result is the root to publish. -/
def admitReceipt (b : Backend) (newLog : LogConfig → Except String Unit) (files : Files)
    (timeoutMillis : Nat) (receipt : Except String Bytes) (label workspace receiptTrust : String)
    (now : DateTime) : Except String String := do
  refuseIf (¬ (timeoutMillis ≠ 0 ∧ timeoutMillis ≤ 120000))
    "publication deadline must be positive and at most 120 seconds"
  config.validate s
  refuseIf (config.readUrl = none) "log read URL is required"
  refuseIf (config.submitUrl = none) "log submission URL is required"
  newLog config
  let receiptBytes ← receipt
  let verdict ← verifyReceiptBytes b files receiptBytes label
    { checkSignatures := true
      recompute := false
      workspace := workspace
      trustStore := some receiptTrust
      trustReceiptTimestamp := false
      required := [.signature] } now
  refuseIf (verdict.passed = false) "receipt verification refused publication"
  let document ← b.readYaml receiptBytes
  let receipt ← document.receipt
  match receipt.causalChainHash with
  | none => .error "receipt has no causal root to publish"
  | some root =>
    let _ ← hashBytes root
    .ok root

end Publish

/-! ### The system -/

section System
variable (s : Suite) (codec : RecordCodec) (configs : Set LogConfig) (b : Backend)
  (newLog : LogConfig → Except String Unit)

/-- A publisher that may take the lock: some receipt was admitted under a configuration in use. -/
def Starts (p : Process Call Reply (Except String PublicationRecord × Unit)) : Prop :=
  ∃ config ∈ configs, ∃ root files timeoutMillis receipt label workspace receiptTrust now,
    admitReceipt s config b newLog files timeoutMillis receipt label workspace receiptTrust now =
      .ok root ∧ p = (publishLocked s codec config root).run.run ()

abbrev System := Held Call Reply World (Except String PublicationRecord × Unit)

/-- Nothing there, nothing sent. -/
def System.initial : System := ⟨false, [], ⟨none, []⟩⟩

/-- Any number of steps of any number of publishers on the record. -/
def Runs (calm : Prop) : System → System → Prop :=
  Relation.ReflTransGen (Held.Moves (Answers calm) (Starts s codec configs b newLog))

end System

end Attest.Publication.Client
