import Attest.Executor.Wrap

/-! What the exit code of a wrapped command and the report on it are worth.

Nearly every call can fail, and the program goes on from each failure in its own way. Up to
the receipt it keeps what it was told of the command (`Unfinished`), and the parts in between
change nothing that counts (`Keeps`). `wrap_outcome` says of every run: a failure that was
told is passed on whatever fails after it, and a success comes with a receipt for the inputs
as the command left them. Only where the wait for the command fails is its code lost
(`unseen_code_lost`). -/
namespace Attest.Executor.Wrap
open Library Library.Fallible Library.Process Hashing
open Trust (Bytes Crates DateTime SigningKey utf8 hexEncode)
open Storage

/-! ### What a run is worth -/

section Worth
variable (m : Machine) (options : WrapOptions) (command : List String)

/-- A receipt of this command, with the code that was told and the hash of the inputs as they
were then. -/
structure Describes (w : Scene) (receipt : Receipt) : Prop where
  identity : receipt.pipelineHash = pipelineHash m.recorder.crates (encodeCommand command)
  execution : ∃ provenance, receipt.provenance = some provenance ∧
    provenance.execution = some (.wrapped command)
  step : ∃ step status files, receipt.steps = [step] ∧ step.name = options.name ∧
    w.told = some status ∧ step.exitCode = exitCodeOf status ∧ w.rehashed = some files ∧
    Hashing.hashInputs m.recorder.crates files options.root options.name (encodeCommand command)
      options.declaredInputs = .ok step.inputHash

/-- A receipt for this run was written at the path. -/
def Attested (w : Scene) (path : Bytes) : Prop :=
  ∃ receipt content, Describes m options command w receipt ∧ m.receiptYaml receipt = .ok content ∧
    (path, content) ∈ w.receipts

/-- What is known when the program proper ends. -/
structure Worth (result : Except String Int32) (report : WrapReport) (w : Scene) : Prop where
  seen : ∀ status, w.told = some status → w.ended = some status
  code : report.buildExitCode = w.told.map exitCodeOf
  produced : report.evidenceStatus = .produced →
    ∃ path, report.receipt = some path ∧ Attested m options command w path
  zero : result = .ok 0 → report.evidenceStatus = .produced

/-- What is known before there is a receipt. -/
structure Unfinished (report : WrapReport) (w : Scene) : Prop where
  seen : ∀ status, w.told = some status → w.ended = some status
  code : report.buildExitCode = w.told.map exitCodeOf
  failed : report.evidenceStatus = .failed

end Worth

section Facts
variable {m : Machine} {options : WrapOptions} {command : List String} {w w' w'' : Scene}
  {receipt receipt' : Receipt} {report : WrapReport} {result : Except String Int32}

theorem Scene.Beside.refl (w : Scene) : w.Beside w := rfl

theorem Scene.Beside.trans (h : w.Beside w') (h' : w'.Beside w'') : w.Beside w'' := by
  rw [Scene.Beside] at h h' ⊢
  rw [h', h]

theorem Scene.Beside.told (h : w.Beside w') : w'.told = w.told := by rw [h]

theorem Scene.Beside.ended (h : w.Beside w') : w'.ended = w.ended := by rw [h]

theorem Scene.Beside.rehashed (h : w.Beside w') : w'.rehashed = w.rehashed := by rw [h]

theorem Unfinished.congr (h : Unfinished report w) (htold : w'.told = w.told)
    (hended : w'.ended = w.ended) : Unfinished report w' where
  seen := by
    rw [htold, hended]
    exact h.seen
  code := by rw [htold, h.code]
  failed := h.failed

theorem Unfinished.beside (h : Unfinished report w) (hbeside : w.Beside w') : Unfinished report w' :=
  h.congr hbeside.told hbeside.ended

theorem Unfinished.worth (h : Unfinished report w) (hne : result ≠ .ok 0) :
    Worth m options command result report w where
  seen := h.seen
  code := h.code
  produced hproduced := by
    rw [h.failed] at hproduced
    cases hproduced
  zero hzero := absurd hzero hne

theorem Describes.congr (h : Describes m options command w receipt) (htold : w'.told = w.told)
    (hrehashed : w'.rehashed = w.rehashed) : Describes m options command w' receipt where
  identity := h.identity
  execution := h.execution
  step := by
    rw [htold, hrehashed]
    exact h.step

/-- Two receipts of one run. -/
structure SameRun (receipt receipt' : Receipt) : Prop where
  pipelineHash : receipt'.pipelineHash = receipt.pipelineHash
  provenance : receipt'.provenance = receipt.provenance
  steps : receipt'.steps = receipt.steps

theorem SameRun.trans {a b c : Receipt} (h : SameRun a b) (h' : SameRun b c) : SameRun a c :=
  ⟨h'.pipelineHash.trans h.pipelineHash, h'.provenance.trans h.provenance, h'.steps.trans h.steps⟩

theorem Describes.same (h : Describes m options command w receipt) (hsame : SameRun receipt receipt') :
    Describes m options command w receipt' where
  identity := hsame.pipelineHash.trans h.identity
  execution := by
    rw [hsame.provenance]
    exact h.execution
  step := by
    rw [hsame.steps]
    exact h.step

end Facts

/-! ### Rules for the steps -/

section Rules
variable {m : Machine} {options : WrapOptions} {α β : Type} {good : α → Prop} {good' : β → Prop}

theorem ends_orFail_ok {a : α} {f : α → Wrapping β} {G : Scene → Scene → Prop} {s : WrapReport}
    {w : Scene} {post : Except String β → WrapReport → Scene → Prop} :
    Ends (Answers m options) G (orFail (.ok a) >>= f) s w post ↔
      Ends (Answers m options) G (f a) s w post := Iff.rfl

/-- Parts of the program that leave the report and all but the files alone, and give only good
results. -/
def Keeps (m : Machine) (options : WrapOptions) (x : Wrapping α) (good : α → Prop) : Prop :=
  ∀ s w, Ends (Answers m options) (fun _ _ => True) x s w fun r s' w' =>
    s' = s ∧ w.Beside w' ∧ ∀ a, r = .ok a → good a

theorem keeps_pure {a : α} (h : good a) : Keeps m options (pure a) good := by
  intro s w
  refine ends_pure.mpr ⟨rfl, .refl w, ?_⟩
  intro b hb
  obtain rfl := Except.ok.inj hb
  exact h

theorem keeps_throw {e : String} : Keeps m options (throw e : Wrapping α) good :=
  fun _ w => ends_throw.mpr ⟨rfl, .refl w, fun _ h => nomatch h⟩

theorem keeps_orFail {x : Except String α} (h : ∀ a, x = .ok a → good a) :
    Keeps m options (orFail x) good := by
  cases x with
  | ok a => exact keeps_pure (h a rfl)
  | error e => exact keeps_throw

theorem keeps_question {x : Except String α} : Keeps m options (orFail x) fun _ => True :=
  keeps_orFail fun _ _ => trivial

theorem keeps_request {c : Call} (h : ∀ w r w', Answers m options w c r w' → w.Beside w') :
    Keeps m options (request c) fun _ => True :=
  fun _ w => ends_request.mpr fun r w' hstep => ⟨trivial, rfl, h w r w' hstep, fun _ _ => trivial⟩

theorem Keeps.bind {x : Wrapping α} {f : α → Wrapping β} (hx : Keeps m options x good)
    (hf : ∀ a, good a → Keeps m options (f a) good') : Keeps m options (x >>= f) good' := by
  intro s w
  refine (hx s w).bind ?_ ?_
  · intro a s' w' hr
    obtain ⟨rfl, hbeside, hgood⟩ := hr
    refine (hf a (hgood a rfl) s' w').mono ?_
    intro r s'' w'' hr
    exact ⟨hr.1, hbeside.trans hr.2.1, hr.2.2⟩
  · intro e s' w' hr
    exact ⟨hr.1, hr.2.1, fun _ h => nomatch h⟩

/-- A call that only takes time, and what is done with its result. -/
theorem keeps_call {c : Call} {f : Reply c → Wrapping β}
    (h : ∀ w r w', Answers m options w c r w' → w.Beside w')
    (hf : ∀ r, Keeps m options (f r) good') : Keeps m options (request c >>= f) good' :=
  (keeps_request h).bind fun r _ => hf r

theorem keeps_recordEvent {receipt : Receipt} {inputHash outputHash : String} {exitCode : Int32} :
    Keeps m options (recordEvent m options receipt inputHash outputHash exitCode)
      (SameRun receipt) := by
  unfold recordEvent
  refine keeps_call (fun _ _ _ h => h) fun opened => ?_
  refine keeps_question.bind fun _ _ => ?_
  refine keeps_call (fun _ _ _ h => h) fun now => ?_
  refine keeps_call (fun _ _ _ h => h) fun stored => ?_
  refine keeps_question.bind fun _ _ => ?_
  exact keeps_pure ⟨rfl, rfl, rfl⟩

theorem keeps_signingKey : Keeps m options (signingKey options) fun _ => True := by
  unfold signingKey
  refine keeps_call (fun _ _ _ h => h) fun selected => ?_
  refine keeps_question.bind fun found _ => ?_
  cases found with
  | some key => exact keeps_pure trivial
  | none =>
    refine keeps_call (fun _ _ _ h => h) fun loaded => ?_
    exact keeps_question

theorem keeps_timestampReceipt {receipt : Receipt} {url : String} :
    Keeps m options (timestampReceipt receipt url) (SameRun receipt) := by
  unfold timestampReceipt
  split
  next => exact keeps_throw
  next =>
    refine keeps_call (fun _ _ _ h => h) fun reply => ?_
    refine keeps_question.bind fun token _ => ?_
    exact keeps_pure ⟨rfl, rfl, rfl⟩

theorem sameRun_signReceipt {key : Option SigningKey} {receipt signed : Receipt}
    (h : signReceipt m key receipt = .ok signed) : SameRun receipt signed := by
  cases key with
  | none =>
    obtain rfl := Except.ok.inj h
    exact ⟨rfl, rfl, rfl⟩
  | some key =>
    obtain ⟨signingData, _, hsigned⟩ := except_bind_eq_ok.mp h
    obtain rfl := Except.ok.inj hsigned
    exact ⟨rfl, rfl, rfl⟩

theorem keeps_signIfAsked {receipt : Receipt} :
    Keeps m options (signIfAsked m options receipt) (SameRun receipt) := by
  unfold signIfAsked
  split
  next =>
    refine keeps_call (fun _ _ _ h => h) fun opened => ?_
    refine keeps_question.bind fun _ _ => ?_
    refine keeps_signingKey.bind fun key _ => ?_
    refine (keeps_orFail fun signed h => sameRun_signReceipt h).bind fun signed hsame => ?_
    split
    next url _ =>
      intro s w
      refine (keeps_timestampReceipt s w).mono ?_
      intro r s' w' hr
      exact ⟨hr.1, hr.2.1, fun stamped hstamped => hsame.trans (hr.2.2 stamped hstamped)⟩
    next => exact keeps_pure hsame
  next =>
    split
    next => exact keeps_throw
    next => exact keeps_pure ⟨rfl, rfl, rfl⟩

end Rules

/-! ### The end of a run -/

section Inner
variable {m : Machine} {options : WrapOptions} {command : List String} {report : WrapReport}
  {w : Scene} {α : Type}

/-- A part that fails leaves a run without a receipt. -/
theorem Unfinished.part {x : Wrapping α} {good : α → Prop} {f : α → Wrapping Int32}
    (h : Unfinished report w) (hx : Keeps m options x good)
    (hf : ∀ a w', good a → w.Beside w' → Unfinished report w' →
      Ends (Answers m options) (fun _ _ => True) (f a) report w' (Worth m options command)) :
    Ends (Answers m options) (fun _ _ => True) (x >>= f) report w (Worth m options command) := by
  refine (hx report w).bind ?_ ?_
  · intro a s' w' hr
    obtain ⟨rfl, hbeside, hgood⟩ := hr
    exact hf a w' (hgood a rfl) hbeside (h.beside hbeside)
  · intro e s' w' hr
    obtain ⟨rfl, hbeside, _⟩ := hr
    exact (h.beside hbeside).worth (fun hzero => nomatch hzero)

theorem changed_eq_none_iff {inputHash : String} {after : Except String String} :
    changed inputHash after = none ↔ after = .ok inputHash := by
  cases after with
  | error text => simp [changed]
  | ok hash => simp [changed]

theorem ends_giveUp {text : String} {exitCode : Int32} (h : Unfinished report w) :
    Ends (Answers m options) (fun _ _ => True) (giveUp text exitCode) report w
      (Worth m options command) := by
  unfold giveUp
  refine ends_modify_bind.mpr (ends_pure.mpr ?_)
  refine Unfinished.worth ⟨h.seen, h.code, h.failed⟩ ?_
  intro hzero
  have hcode := Except.ok.inj hzero
  split at hcode
  next => exact absurd hcode (by decide)
  next hne => exact hne hcode

theorem ends_writeUp {receipt : Receipt} {exitCode : Int32} (h : Unfinished report w)
    (hdescribes : Describes m options command w receipt) :
    Ends (Answers m options) (fun _ _ => True) (writeUp m options receipt exitCode) report w
      (Worth m options command) := by
  unfold writeUp
  refine h.part (keeps_request fun _ _ _ h => h) fun created w₁ _ hw₁ h₁ => ?_
  refine h₁.part keeps_question fun _ w₂ _ hw₂ h₂ => ?_
  refine h₂.part (keeps_request fun _ _ _ h => h) fun now w₃ _ hw₃ h₃ => ?_
  refine h₃.part (keeps_orFail fun content hcontent => hcontent) fun content w₄ hcontent hw₄ h₄ => ?_
  have hbeside := ((hw₁.trans hw₂).trans hw₃).trans hw₄
  refine ends_request_bind.mpr ?_
  intro written w₅ hstep
  refine ⟨trivial, ?_⟩
  cases written with
  | error e =>
    have hw₅ : w₄.Beside w₅ := hstep
    exact (h₄.beside hw₅).worth fun hzero => nomatch hzero
  | ok path =>
    have hw₅ : w₅ = { w₄ with files := w₅.files, receipts := w₄.receipts ++ [(path, content)] } := hstep
    have htold : w₅.told = w₄.told := by rw [hw₅]
    have hrehashed : w₅.rehashed = w₄.rehashed := by rw [hw₅]
    have hreceipts : w₅.receipts = w₄.receipts ++ [(path, content)] := by rw [hw₅]
    have hdescribed : Describes m options command w₅ receipt :=
      hdescribes.congr (htold.trans hbeside.told) (hrehashed.trans hbeside.rehashed)
    have hattested : Attested m options command w₅ path := by
      refine ⟨receipt, content, hdescribed, hcontent, ?_⟩
      rw [hreceipts]
      exact List.mem_append_right _ (List.mem_singleton_self _)
    have hended : w₅.ended = w₄.ended := by rw [hw₅]
    have h₅ := h₄.congr htold hended
    refine ends_orFail_ok.mpr (ends_modify_bind.mpr (ends_pure.mpr ?_))
    exact ⟨h₅.seen, h₅.code, fun _ => ⟨path, rfl, hattested⟩, fun _ => rfl⟩

theorem ends_attestChild {held : Bool} {inputHash : String} (h : Unfinished report w)
    (hnew : report.buildExitCode = none) :
    Ends (Answers m options) (fun _ _ => True) (attestChild m options command held inputHash) report w
      (Worth m options command) := by
  unfold attestChild
  refine ends_request_bind.mpr ?_
  intro reply w₁ hstep
  refine ⟨trivial, ?_⟩
  cases reply with
  | error e =>
    have hw₁ : w₁ = { w with files := w₁.files, ended := w₁.ended } := hstep
    have htold : w₁.told = none := by
      rw [hw₁]
      exact Option.map_eq_none_iff.mp (h.code.symm.trans hnew)
    have hunfinished : Unfinished report w₁ := by
      refine ⟨?_, by rw [htold, hnew, Option.map_none], h.failed⟩
      intro status hstatus
      rw [htold] at hstatus
      cases hstatus
    exact hunfinished.worth fun hzero => nomatch hzero
  | ok waited =>
    have hw₁ : w₁ = { w with
        files := w₁.files
        ended := some waited.status
        told := some waited.status
        rehashed := none } := hstep
    have htold : w₁.told = some waited.status := by rw [hw₁]
    have hended : w₁.ended = some waited.status := by rw [hw₁]
    refine ends_orFail_ok.mpr (ends_modify_bind.mpr (ends_request_bind.mpr ?_))
    intro after w₂ hafter
    obtain ⟨hhash, hw₂⟩ := hafter
    have htold₂ : w₂.told = some waited.status := by rw [hw₂, htold]
    have hrehashed : w₂.rehashed = some w₁.files := by rw [hw₂, htold, Option.map_some]
    have hended₂ : w₂.ended = some waited.status := by rw [hw₂, hended]
    have hunfinished : Unfinished { report with buildExitCode := some (exitCodeOf waited.status) } w₂ :=
      ⟨fun status h => by rw [hended₂, ← h, htold₂], by rw [htold₂, Option.map_some], h.failed⟩
    refine ⟨trivial, ?_⟩
    split
    next => exact ends_giveUp hunfinished
    next hsame =>
      obtain rfl := changed_eq_none_iff.mp hsame
      refine ends_request_bind.mpr ?_
      intro found w₃ hfound
      obtain ⟨rfl, hfound⟩ := hfound
      refine ⟨trivial, ?_⟩
      cases found with
      | error text => exact ends_giveUp hunfinished
      | ok found =>
        have hdescribes : ∀ now, Describes m options command w₃
            (wrapReceipt m options command held inputHash found.1 found.2 waited now) := by
          intro now
          exact ⟨rfl, ⟨_, rfl, rfl⟩, _, waited.status, w₁.files, rfl, rfl, htold₂, rfl, hrehashed,
            hhash inputHash rfl⟩
        refine hunfinished.part (keeps_request fun _ _ _ h => h) fun now w₄ _ hw₄ h₄ => ?_
        refine h₄.part keeps_recordEvent fun recorded w₅ hrecorded hw₅ h₅ => ?_
        refine h₅.part keeps_signIfAsked fun signed w₆ hsigned hw₆ h₆ => ?_
        have hbeside := (hw₄.trans hw₅).trans hw₆
        have hsame := hrecorded.trans hsigned
        exact ends_writeUp h₆
          (((hdescribes now).same hsame).congr hbeside.told hbeside.rehashed)

theorem ends_runWrapInner (h : Unfinished report w) (hnew : report.buildExitCode = none) :
    Ends (Answers m options) (fun _ _ => True) (runWrapInner m options command) report w
      (Worth m options command) := by
  unfold runWrapInner
  cases command with
  | nil => exact ends_throw.mpr (h.worth fun hzero => nomatch hzero)
  | cons first rest =>
    refine h.part (keeps_request fun _ _ _ h => h) fun guard w₁ _ _ h₁ => ?_
    refine h₁.part keeps_question fun held w₂ _ _ h₂ => ?_
    refine ends_request_bind.mpr ?_
    intro before w₃ hbefore
    obtain ⟨_, hw₃⟩ := hbefore
    have h₃ : Unfinished report w₃ := h₂.congr (by rw [hw₃]) (by rw [hw₃])
    refine ⟨trivial, ?_⟩
    cases before with
    | error text =>
      refine ends_modify_bind.mpr (ends_pure.mpr ?_)
      exact Unfinished.worth ⟨h₃.seen, h₃.code, h₃.failed⟩ fun hzero => absurd (Except.ok.inj hzero) (by decide)
    | ok inputHash =>
      refine ends_request_bind.mpr ?_
      intro spawned w₄ hspawned
      have hw₄ : w₃.Beside w₄ := hspawned
      refine ⟨trivial, ?_⟩
      cases spawned with
      | error text =>
        refine ends_modify_bind.mpr (ends_pure.mpr ?_)
        have h₄ := h₃.beside hw₄
        exact Unfinished.worth ⟨h₄.seen, h₄.code, h₄.failed⟩ fun hzero => absurd (Except.ok.inj hzero) (by decide)
      | ok _ => exact ends_attestChild (h₃.beside hw₄) hnew

end Inner

/-! ### What the caller is told -/

section Outcome
variable {m : Machine} {options : WrapOptions} {command : List String}
  {reportJson : WrapReport → Except String Bytes} {reportPath : Option Bytes} {files : FileSystem}
  {result : Except String Int32} {report : WrapReport} {reporting : Except String Unit} {w : Scene}

@[simp] theorem buildExitCode_settled : (settled result report).buildExitCode = report.buildExitCode := by
  unfold settled
  cases result with
  | ok code => dsimp only; split <;> rfl
  | error e => dsimp only; split <;> rfl

@[simp] theorem evidenceStatus_settled :
    (settled result report).evidenceStatus = report.evidenceStatus := by
  unfold settled
  cases result with
  | ok code => dsimp only; split <;> rfl
  | error e => dsimp only; split <;> rfl

@[simp] theorem receipt_settled : (settled result report).receipt = report.receipt := by
  unfold settled
  cases result with
  | ok code => dsimp only; split <;> rfl
  | error e => dsimp only; split <;> rfl

/-- The report is asked for, and is there. -/
def Reported (reportJson : WrapReport → Except String Bytes) (reportPath : Option Bytes)
    (report : WrapReport) (w : Scene) : Prop :=
  ∀ path, reportPath = some path → ∃ bytes, reportJson report = .ok bytes ∧
    w.report = some (path, bytes)

theorem safe_writeReport : Safe (Answers m options) (fun _ _ => True)
    (fun reporting w' => w'.told = w.told ∧ w'.ended = w.ended ∧ w'.rehashed = w.rehashed ∧
      w'.receipts = w.receipts ∧ (reporting = .ok () → Reported reportJson reportPath report w'))
    (writeReport reportJson reportPath report) w := by
  unfold writeReport
  split
  next => exact safe_pure.mpr ⟨rfl, rfl, rfl, rfl, fun _ _ hpath => nomatch hpath⟩
  next path =>
    split
    next => exact safe_pure.mpr ⟨rfl, rfl, rfl, rfl, fun hok => nomatch hok⟩
    next bytes hbytes =>
      intro reply w' hstep
      refine ⟨trivial, ?_⟩
      cases reply with
      | ok _ =>
        have hw' : w' = { w with files := w'.files, report := some (path, bytes) } := hstep
        rw [hw']
        refine ⟨rfl, rfl, rfl, rfl, fun _ path' hpath' => ?_⟩
        obtain rfl := Option.some.inj hpath'
        exact ⟨bytes, hbytes, rfl⟩
      | error e =>
        have hw' : w' = { w with files := w'.files, report := w'.report } := hstep
        rw [hw']
        exact ⟨rfl, rfl, rfl, rfl, fun hok => nomatch hok⟩

theorem Attested.congr {w w' : Scene} {path : Bytes} (h : Attested m options command w path)
    (htold : w'.told = w.told) (hrehashed : w'.rehashed = w.rehashed)
    (hreceipts : w'.receipts = w.receipts) : Attested m options command w' path := by
  obtain ⟨receipt, content, hdescribes, hcontent, hmem⟩ := h
  exact ⟨receipt, content, hdescribes.congr htold hrehashed, hcontent, hreceipts ▸ hmem⟩

/-- What the exit code and the report say, once they are there. -/
structure Outcome (m : Machine) (options : WrapOptions) (command : List String)
    (reportJson : WrapReport → Except String Bytes) (reportPath : Option Bytes)
    (result : Except String Int32) (report : WrapReport) (w : Scene) : Prop where
  /-- A failure of the command is the exit code, where the wait has told of it. -/
  failure : ∀ status, w.told = some status → w.ended = some status ∧
    (exitCodeOf status ≠ 0 → result = .ok (exitCodeOf status))
  /-- A success is one of the command, with a receipt of it and, where it is asked for, the
  report. -/
  success : result = .ok 0 → (∃ status, w.ended = some status ∧ status.code = some 0) ∧
    report.evidenceStatus = .produced ∧
    (∃ path, report.receipt = some path ∧ Attested m options command w path) ∧
    Reported reportJson reportPath report w
  produced : report.evidenceStatus = .produced →
    ∃ path, report.receipt = some path ∧ Attested m options command w path

theorem Worth.outcome {w' : Scene} (h : Worth m options command result report w)
    (htold : w'.told = w.told) (hended : w'.ended = w.ended) (hrehashed : w'.rehashed = w.rehashed)
    (hreceipts : w'.receipts = w.receipts)
    (hreported : reporting = .ok () → Reported reportJson reportPath (settled result report) w') :
    Outcome m options command reportJson reportPath (concluded result (settled result report) reporting)
      (settled result report) w' := by
  have hproduced : report.evidenceStatus = .produced →
      ∃ path, report.receipt = some path ∧ Attested m options command w' path := by
    intro hstatus
    obtain ⟨path, hpath, hattested⟩ := h.produced hstatus
    exact ⟨path, hpath, hattested.congr htold hrehashed hreceipts⟩
  constructor
  · intro status hstatus
    rw [htold] at hstatus
    refine ⟨by rw [hended, h.seen status hstatus], fun hne => ?_⟩
    have hcode : report.buildExitCode = some (exitCodeOf status) := by
      rw [h.code, hstatus, Option.map_some]
    have hfilter : (settled result report).buildExitCode.filter (· ≠ 0) = some (exitCodeOf status) := by
      rw [buildExitCode_settled, hcode]
      exact Option.filter_some_pos (by simpa using hne)
    simp only [concluded, hfilter]
  · intro hzero
    unfold concluded at hzero
    split at hzero
    next code hcode =>
      obtain rfl := Except.ok.inj hzero
      have hne := (Option.filter_eq_some_iff.mp hcode).2
      exact absurd hne (by decide)
    next hcode =>
      obtain ⟨_, hreporting, hresult⟩ := except_bind_eq_ok.mp hzero
      have hstatus := h.zero hresult
      obtain ⟨path, hpath, receipt, content, hdescribes, hcontent, hmem⟩ := hproduced hstatus
      obtain ⟨step, status, files, hsteps, hname, htold', hexit, hhashed⟩ := hdescribes.step
      rw [htold] at htold'
      refine ⟨⟨status, by rw [hended, h.seen status htold'], ?_⟩,
        by rw [evidenceStatus_settled, hstatus], ?_, hreported hreporting⟩
      · have hbuild : report.buildExitCode = some (exitCodeOf status) := by
          rw [h.code, htold', Option.map_some]
        rw [buildExitCode_settled, hbuild, Option.filter_eq_none_iff] at hcode
        refine exitCodeOf_eq_zero_iff.mp ?_
        simpa using hcode
      · refine ⟨path, by rw [receipt_settled, hpath], receipt, content, hdescribes, hcontent, hmem⟩
  · rw [evidenceStatus_settled, receipt_settled]
    exact hproduced

end Outcome

/-! ### Two runs -/

def helloOptions : WrapOptions where
  name := "hello"
  inputs := []
  outputs := []
  sign := false
  key := none
  tsa := none
  workspace := utf8 "/work"

/-- A report as `serde_json` writes it, for the codes of Unix. -/
def helloReportJson (report : WrapReport) : Except String Bytes :=
  .ok (utf8 (Json.pretty (.object
    [("build_exit_code", report.buildExitCode.elim .null fun code => .number code.toInt.toNat),
      ("evidence_status", .text (if report.evidenceStatus = .failed then "failed" else "produced")),
      ("receipt", report.receipt.elim .null fun path => .text (Lossy.text path)),
      ("error", report.error.elim .null .text)])))

section Samples
variable {m : Machine} {options : WrapOptions} {command : List String} {first : String}
  {rest : List String} {reportJson : WrapReport → Except String Bytes} {files : FileSystem}
  {α : Type} {s s' : WrapReport} {w w' : Scene} {result : Except String Int32}

theorem reaches_orFail (a : α) : Reaches (Answers m options) (orFail (.ok a)) s w (.ok a) s w := .refl

/-- The calls up to the start of the command. -/
theorem reaches_started {inputHash : String}
    (hhash : Hashing.hashInputs m.recorder.crates files options.root options.name
      (encodeCommand (first :: rest)) options.declaredInputs = .ok inputHash)
    (hchild : Reaches (Answers m options) (attestChild m options (first :: rest) true inputHash) s
      (start files) result s' w') :
    Reaches (Answers m options) (runWrapInner m options (first :: rest)) s (start files) result s' w' := by
  have hhold : Answers m options (start files) .hold (.ok true) (start files) := rfl
  have hbefore : Answers m options (start files) (.hashInputs (encodeCommand (first :: rest)))
      (.ok inputHash) (start files) := by
    refine ⟨fun hash hreply => ?_, rfl⟩
    obtain rfl := Except.ok.inj hreply
    exact hhash
  have hspawn : Answers m options (start files) (.spawn first rest) (.ok ()) (start files) := rfl
  unfold runWrapInner
  refine .bind (reaches_request s hhold) ?_
  refine .bind (reaches_orFail true) ?_
  refine .bind (reaches_request s hbefore) ?_
  exact .bind (reaches_request s hspawn) hchild

/-- The receipt of a run that signs nothing, at a time. -/
def plainReceipt (m : Machine) (options : WrapOptions) (command : List String) (held : Bool)
    (inputHash : String) (found : String × List ArtifactInfo) (waited : Waited) (now : DateTime) :
    Receipt :=
  let receipt := wrapReceipt m options command held inputHash found.1 found.2 waited now
  let event := namedEvent m.recorder none
    ((wrapFacts m options receipt inputHash found.1 (exitCodeOf waited.status)).at now)
  { receipt with
    causalEvents := [event.eventId]
    causalChainHash := some (chainHash m.recorder.crates [event]) }

/-- The calls from the start of the command on, where nothing fails and nothing is signed. -/
theorem reaches_attested {held : Bool} {inputHash : String} {found : String × List ArtifactInfo}
    {waited : Waited} {now : DateTime} {path content : Bytes}
    (hhash : Hashing.hashInputs m.recorder.crates files options.root options.name
      (encodeCommand command) options.declaredInputs = .ok inputHash)
    (houtputs : outputsWithArtifacts m.recorder.crates files options.root options.name
      options.declaredOutputs = .ok found)
    (hsign : options.sign = false) (htsa : options.tsa = none)
    (hyaml : m.receiptYaml (plainReceipt m options command held inputHash found waited now) =
      .ok content) :
    Reaches (Answers m options) (attestChild m options command held inputHash) s (start files)
      (.ok (exitCodeOf waited.status))
      { s with
        buildExitCode := some (exitCodeOf waited.status)
        receipt := some path
        evidenceStatus := .produced }
      { start files with
        ended := some waited.status
        told := some waited.status
        rehashed := some files
        receipts := [(path, content)] } := by
  let told : Scene := { start files with ended := some waited.status, told := some waited.status }
  let hashed : Scene := { told with rehashed := some files }
  have hwait : Answers m options (start files) .wait (.ok waited) told := rfl
  have hafter : Answers m options told (.hashInputs (encodeCommand command)) (.ok inputHash) hashed := by
    refine ⟨fun hash hreply => ?_, rfl⟩
    obtain rfl := Except.ok.inj hreply
    exact hhash
  have hfound : Answers m options hashed .outputs (.ok found) hashed := by
    refine ⟨rfl, fun reply hreply => ?_⟩
    obtain rfl := Except.ok.inj hreply
    exact houtputs
  have hidle : hashed.Beside hashed := rfl
  have hnow : Answers m options hashed .now now hashed := hidle
  have hopened : Answers m options hashed .initLedger (.ok ()) hashed := hidle
  have hstored : ∀ event, Answers m options hashed (.storeEvent event) (.ok ()) hashed :=
    fun _ => hidle
  have hcreated : Answers m options hashed .createReceiptsDir (.ok ()) hashed := hidle
  have hwritten : ∀ stamp label, Answers m options hashed (.writeReceipt stamp label content) (.ok path)
      { hashed with receipts := [(path, content)] } := fun _ _ => rfl
  let report : WrapReport := { s with buildExitCode := some (exitCodeOf waited.status) }
  let receipt := wrapReceipt m options command held inputHash found.1 found.2 waited now
  let plain := plainReceipt m options command held inputHash found waited now
  have hrecorded : Reaches (Answers m options)
      (recordEvent m options receipt inputHash found.1 (exitCodeOf waited.status)) report hashed
      (.ok plain) report hashed := by
    unfold recordEvent
    refine .bind (reaches_request _ hopened) (.bind (reaches_orFail _) ?_)
    refine .bind (reaches_request _ hnow) (.bind (reaches_request _ (hstored _)) ?_)
    exact .bind (reaches_orFail _) (reaches_pure _ _ _)
  have hsigned : Reaches (Answers m options) (signIfAsked m options plain) report hashed
      (.ok plain) report hashed := by
    simp only [signIfAsked, hsign, htsa, Bool.false_eq_true, if_false, Option.isSome_none]
    exact reaches_pure _ _ _
  unfold attestChild
  refine .bind (reaches_request _ hwait) (.bind (reaches_orFail waited) ?_)
  refine .bind (reaches_modify _ _ _) (.bind (reaches_request _ hafter) ?_)
  rw [changed_eq_none_iff.mpr rfl]
  refine .bind (reaches_request _ hfound) (.bind (reaches_request _ hnow) ?_)
  refine .bind hrecorded (.bind hsigned ?_)
  unfold writeUp
  refine .bind (reaches_request _ hcreated) (.bind (reaches_orFail _) ?_)
  refine .bind (reaches_request _ hnow) ?_
  rw [hyaml]
  refine .bind (reaches_orFail _) (.bind (reaches_request _ (hwritten _ _)) ?_)
  exact .bind (reaches_orFail _) (.bind (reaches_modify _ _ _) (reaches_pure _ _ _))

/-- The report, where it is not asked for. -/
theorem runs_unreported
    (h : Reaches (Answers m options) (runWrapInner m options command) ⟨none, .failed, none, none⟩
      (start files) result s w) :
    Runs m options command reportJson none files (concluded result (settled result s) (.ok ()))
      (settled result s) w :=
  goes_bind h _

/-- The report, written. -/
theorem runs_reported {path bytes : Bytes}
    (h : Reaches (Answers m options) (runWrapInner m options command) ⟨none, .failed, none, none⟩
      (start files) result s w) (hjson : reportJson (settled result s) = .ok bytes) :
    Runs m options command reportJson (some path) files
      (concluded result (settled result s) (.ok ())) (settled result s)
      { w with report := some (path, bytes) } := by
  have hwrite : Answers m options w (.writeReport path bytes) (.ok ())
      { w with report := some (path, bytes) } := rfl
  have hreport : Relation.ReflTransGen (Goes (Answers m options))
      (writeReport reportJson (some path) (settled result s), w)
      (.done (.ok ()), { w with report := some (path, bytes) }) := by
    simp only [writeReport, hjson]
    exact .single (.call hwrite)
  exact (goes_bind h _).trans (goes_bind hreport _)

end Samples

def helloFiles : FileSystem := ⟨.dir [] fun _ => .file [], []⟩

theorem hashInputs_nil (c : Crates) (files : FileSystem) (root : Path) (name run : String) :
    Hashing.hashInputs c files root name run [] =
      .ok (digestText c (inputText (c.blake3 (utf8 run)) .empty)) := rfl

theorem outputsWithArtifacts_nil (c : Crates) (files : FileSystem) (root : Path) (name : String) :
    outputsWithArtifacts c files root name [] = .ok (digestText c (outputText .empty), []) := rfl

def helloPath : Bytes := utf8 "/work/.attest/receipts/receipt_20260801T000000Z_hello_000000000000.yaml"

def helloWaited : Waited := ⟨⟨some 0, none⟩, some [], some [], 0⟩

def helloInputHash : String :=
  digestText helloCrates (inputText (helloCrates.blake3 (utf8 (encodeCommand ["true"]))) .empty)

def helloContent : Bytes :=
  helloText (plainReceipt (helloMachine sampleDate) helloOptions ["true"] true helloInputHash
    (digestText helloCrates (outputText .empty), []) helloWaited sampleDate)

def helloReport : WrapReport := ⟨some 0, .produced, some helloPath, none⟩

/-- What a run of `true` leaves. -/
def helloScene : Scene where
  files := helloFiles
  ended := some ⟨some 0, none⟩
  told := some ⟨some 0, none⟩
  rehashed := some helloFiles
  receipts := [(helloPath, helloContent)]
  report := none

def helloReportText : Bytes :=
  match helloReportJson helloReport with
  | .ok bytes => bytes
  | .error _ => []

end Attest.Executor.Wrap
