import Attest.Executor.WrapOutcome
import Attest.Verify.Recompute

/-! Recomputing what a wrapped command left.

A receipt is written last, from the hashes of the files as the command left them
(`ends_inner`). Where its paths are texts, the recomputation hashes the same declarations again:
`wrap_recomputes` says in which workspaces it passes. -/
namespace Attest.Verify.Recompute
open Library Library.Fallible Library.Process Storage Hashing Executor Executor.Wrap
open Trust (Bytes Crates DateTime utf8)

section Written
variable {m : Machine} {options : WrapOptions} {command : List String} {w w' : Scene}
  {receipt receipt' : Receipt} {report : WrapReport} {files : FileSystem}

/-- A receipt of this command, with the hashes of these files. -/
structure Recorded (m : Machine) (options : WrapOptions) (command : List String) (files : FileSystem)
    (receipt : Receipt) : Prop where
  pipelineHash : receipt.pipelineHash = Wrap.pipelineHash m.recorder.crates (encodeCommand command)
  described : ∃ step provenance, receipt.steps = [step] ∧ receipt.provenance = some provenance ∧
    provenance.execution = some (.wrapped command) ∧
    provenance.steps = m.provenance.steps ++ [provenanceStep m.recorder.crates options.name
      (encodeCommand command) [] options.inputs options.outputs] ∧
    step.name = options.name ∧ step.capsuleHash = none ∧
    Hashing.hashInputs m.recorder.crates files options.root options.name (encodeCommand command)
      options.declaredInputs = .ok step.inputHash ∧
    hashOutputs m.recorder.crates files options.root options.name options.declaredOutputs =
      .ok step.outputHash

/-- Every receipt there is has the hashes of the files the command left. -/
def AllRecorded (m : Machine) (options : WrapOptions) (command : List String) (w : Scene) : Prop :=
  ∀ entry ∈ w.receipts, ∃ receipt left, w.rehashed = some left ∧
    m.receiptYaml receipt = .ok entry.2 ∧ Recorded m options command left receipt

theorem Recorded.same (h : Recorded m options command files receipt)
    (hsame : SameRun receipt receipt') : Recorded m options command files receipt' where
  pipelineHash := hsame.pipelineHash.trans h.pipelineHash
  described := by
    rw [hsame.steps, hsame.provenance]
    exact h.described

theorem AllRecorded.of_nil (h : w.receipts = []) : AllRecorded m options command w := by
  intro entry hentry
  rw [h] at hentry
  cases hentry

theorem receipts_beside (h : w.Beside w') : w'.receipts = w.receipts := by rw [h]

/-! ### A run -/

/-- A part of the program before the receipt. -/
theorem ends_part {α : Type} {x : Wrapping α} {good : α → Prop} {f : α → Wrapping Int32}
    (h : w.receipts = []) (hx : Keeps m options x good)
    (hf : ∀ a w', good a → w.Beside w' → w'.receipts = [] →
      Ends (Answers m options) (fun _ _ => True) (f a) report w' fun _ _ w =>
        AllRecorded m options command w) :
    Ends (Answers m options) (fun _ _ => True) (x >>= f) report w fun _ _ w =>
      AllRecorded m options command w := by
  refine (hx report w).bind ?_ ?_
  · intro a s' w' hr
    obtain ⟨rfl, hbeside, hgood⟩ := hr
    exact hf a w' (hgood a rfl) hbeside ((receipts_beside hbeside).trans h)
  · intro e s' w' hr
    exact .of_nil ((receipts_beside hr.2.1).trans h)

theorem ends_written {exitCode : Int32} (h : w.receipts = []) (hrehashed : w.rehashed = some files)
    (hrecorded : Recorded m options command files receipt) :
    Ends (Answers m options) (fun _ _ => True) (writeUp m options receipt exitCode) report w
      fun _ _ w => AllRecorded m options command w := by
  unfold writeUp
  refine ends_part h (keeps_request fun _ _ _ h => h) fun created w₁ _ hw₁ h₁ => ?_
  refine ends_part h₁ keeps_question fun _ w₂ _ hw₂ h₂ => ?_
  refine ends_part h₂ (keeps_request fun _ _ _ h => h) fun now w₃ _ hw₃ h₃ => ?_
  refine ends_part h₃ (keeps_orFail fun content hcontent => hcontent) fun content w₄ hcontent hw₄ h₄ => ?_
  have hbeside := ((hw₁.trans hw₂).trans hw₃).trans hw₄
  refine ends_request_bind.mpr ?_
  intro written w₅ hstep
  refine ⟨trivial, ?_⟩
  cases written with
  | error e =>
    have hw₅ : w₄.Beside w₅ := hstep
    exact .of_nil ((receipts_beside hw₅).trans h₄)
  | ok path =>
    have hw₅ : w₅ = { w₄ with files := w₅.files, receipts := w₄.receipts ++ [(path, content)] } := hstep
    have hreceipts : w₅.receipts = [(path, content)] := by
      rw [hw₅, h₄]
      rfl
    have hleft : w₅.rehashed = some files := by
      rw [hw₅]
      exact hbeside.rehashed.trans hrehashed
    refine ends_orFail_ok.mpr (ends_modify_bind.mpr (ends_pure.mpr ?_))
    intro entry hentry
    rw [hreceipts] at hentry
    obtain rfl := List.mem_singleton.mp hentry
    exact ⟨receipt, files, hleft, hcontent, hrecorded⟩

/-- The hash that comes with the artifacts. -/
theorem hashOutputs_of_artifacts {c : Crates} {root : Path} {name : String} {outputs : List Path}
    {found : String × List ArtifactInfo}
    (h : outputsWithArtifacts c files root name outputs = .ok found) :
    hashOutputs c files root name outputs = .ok found.1 := by
  obtain ⟨entries, hentries, hfound⟩ := except_bind_eq_ok.mp h
  obtain rfl := Except.ok.inj hfound
  rw [hashOutputs, outputManifest, hentries]
  rfl

theorem ends_child {held : Bool} {inputHash : String} (h : w.receipts = []) :
    Ends (Answers m options) (fun _ _ => True) (attestChild m options command held inputHash) report w
      fun _ _ w => AllRecorded m options command w := by
  unfold attestChild
  refine ends_request_bind.mpr ?_
  intro reply w₁ hstep
  refine ⟨trivial, ?_⟩
  cases reply with
  | error e =>
    have hw₁ : w₁ = { w with files := w₁.files, ended := w₁.ended } := hstep
    exact .of_nil (by rw [hw₁, h])
  | ok waited =>
    have hw₁ : w₁ = { w with
        files := w₁.files
        ended := some waited.status
        told := some waited.status
        rehashed := none } := hstep
    have htold : w₁.told = some waited.status := by rw [hw₁]
    refine ends_orFail_ok.mpr (ends_modify_bind.mpr (ends_request_bind.mpr ?_))
    intro after w₂ hafter
    obtain ⟨hhash, hw₂⟩ := hafter
    have hfiles : w₂.files = w₁.files := by rw [hw₂]
    have hrehashed : w₂.rehashed = some w₁.files := by rw [hw₂, htold, Option.map_some]
    have h₂ : w₂.receipts = [] := by rw [hw₂, hw₁, h]
    refine ⟨trivial, ?_⟩
    split
    next => exact ends_modify_bind.mpr (ends_pure.mpr (.of_nil h₂))
    next hsame =>
      obtain rfl := changed_eq_none_iff.mp hsame
      refine ends_request_bind.mpr ?_
      intro found w₃ hfound
      obtain ⟨rfl, hfound⟩ := hfound
      refine ⟨trivial, ?_⟩
      cases found with
      | error text => exact ends_modify_bind.mpr (ends_pure.mpr (.of_nil h₂))
      | ok found =>
        have houtputs := hfound found rfl
        rw [hfiles] at houtputs
        have hrecorded : ∀ now, Recorded m options command w₁.files
            (wrapReceipt m options command held inputHash found.1 found.2 waited now) := by
          intro now
          exact ⟨rfl, _, _, rfl, rfl, rfl, rfl, rfl, rfl, hhash inputHash rfl,
            hashOutputs_of_artifacts houtputs⟩
        refine ends_part h₂ (keeps_request fun _ _ _ h => h) fun now w₄ _ hw₄ h₄ => ?_
        refine ends_part h₄ keeps_recordEvent fun recorded w₅ hsame₅ hw₅ h₅ => ?_
        refine ends_part h₅ keeps_signIfAsked fun signed w₆ hsame₆ hw₆ h₆ => ?_
        have hbeside := (hw₄.trans hw₅).trans hw₆
        exact ends_written h₆ (hbeside.rehashed.trans hrehashed)
          ((hrecorded now).same (hsame₅.trans hsame₆))

theorem ends_inner (h : w.receipts = []) :
    Ends (Answers m options) (fun _ _ => True) (runWrapInner m options command) report w
      fun _ _ w => AllRecorded m options command w := by
  unfold runWrapInner
  cases command with
  | nil => exact ends_throw.mpr (.of_nil h)
  | cons first rest =>
    refine ends_part h (keeps_request fun _ _ _ h => h) fun guard w₁ _ _ h₁ => ?_
    refine ends_part h₁ keeps_question fun held w₂ _ _ h₂ => ?_
    refine ends_request_bind.mpr ?_
    intro before w₃ hbefore
    obtain ⟨_, hw₃⟩ := hbefore
    have h₃ : w₃.receipts = [] := by rw [hw₃, h₂]
    refine ⟨trivial, ?_⟩
    cases before with
    | error text => exact ends_modify_bind.mpr (ends_pure.mpr (.of_nil h₃))
    | ok inputHash =>
      refine ends_request_bind.mpr ?_
      intro spawned w₄ hspawned
      have h₄ : w₄.receipts = [] := (receipts_beside hspawned).trans h₃
      refine ⟨trivial, ?_⟩
      cases spawned with
      | error text => exact ends_modify_bind.mpr (ends_pure.mpr (.of_nil h₄))
      | ok _ => exact ends_child h₄

theorem allRecorded_of_runs {reportJson : WrapReport → Except String Bytes} {reportPath : Option Bytes}
    {result : Except String Int32}
    (h : Runs m options command reportJson reportPath files result report w) :
    AllRecorded m options command w := by
  have hsafe : Safe (Answers m options) (fun _ _ => True)
      (fun _ w => AllRecorded m options command w)
      (runWrapWithReport m options command reportJson reportPath) (start files) := by
    refine safe_bind.mpr (Safe.mono (ends_inner rfl) ?_)
    intro ended w hrecorded
    refine safe_bind.mpr (Safe.mono safe_writeReport ?_)
    intro reporting w' hwritten
    obtain ⟨_, _, hrehashed, hreceipts, _⟩ := hwritten
    intro entry hentry
    rw [hreceipts] at hentry
    rw [hrehashed]
    exact hrecorded entry hentry
  exact hsafe.goes h

end Written

/-! ### Recomputing -/

section Recomputed
variable {m : Machine} {options : WrapOptions} {command : List String} {receipt : Receipt}
  {r : Recomputer} {left later : FileSystem}

/-- Paths that are texts come back from a receipt as they are. -/
theorem paths_recorded {paths : List Bytes} (h : ∀ path ∈ paths, ∃ text, path = utf8 text) :
    (paths.map Lossy.text).map Path.ofString = paths.map Path.ofBytes := by
  rw [List.map_map]
  refine List.map_congr_left ?_
  intro path hpath
  obtain ⟨text, rfl⟩ := h path hpath
  show Path.ofBytes (utf8 (Lossy.text (Lossy.bytesOf text))) = _
  rw [Lossy.text_bytesOf]

theorem Recorded.pass_iff (h : Recorded m options command left receipt)
    (hcrates : r.crates = m.recorder.crates) (hsteps : m.provenance.steps = [])
    (hcommand : Executable command) (hinputs : ∀ path ∈ options.inputs, ∃ text, path = utf8 text)
    (houtputs : ∀ path ∈ options.outputs, ∃ text, path = utf8 text) :
    (recomputeCheck r later options.root receipt).status = .pass ↔
      Hashing.hashInputs r.crates later options.root options.name (encodeCommand command)
          options.declaredInputs =
        Hashing.hashInputs r.crates left options.root options.name (encodeCommand command)
          options.declaredInputs ∧
      hashOutputs r.crates later options.root options.name options.declaredOutputs =
        hashOutputs r.crates left options.root options.name options.declaredOutputs := by
  obtain ⟨step, provenance, hstep, hprovenance, hexecution, hdeclared, hname, hcapsule, hin, hout⟩ :=
    h.described
  have hcheck : recomputeCheck r later options.root receipt =
      wrappedRecomputeCheck r later options.root receipt command := by
    simp only [recomputeCheck, hprovenance, Option.bind_some, hexecution]
  rw [hsteps, List.nil_append] at hdeclared
  rw [hcheck, wrappedRecompute_pass, hcrates, hin, hout]
  constructor
  · intro hwrapped
    obtain ⟨step', provenance', declaration, hstep', hprovenance', hdeclaration, _, _, _, _, hin', hout'⟩ :=
      hwrapped.described
    obtain rfl := List.singleton_inj.mp (hstep.symm.trans hstep')
    obtain rfl := Option.some.inj (hprovenance.symm.trans hprovenance')
    obtain rfl := List.singleton_inj.mp (hdeclared.symm.trans hdeclaration)
    rw [hname, hcrates] at hin' hout'
    refine ⟨?_, ?_⟩
    · rw [← hin']
      exact congrArg _ (paths_recorded hinputs).symm
    · rw [← hout']
      exact congrArg _ (paths_recorded houtputs).symm
  · intro hsame
    refine ⟨hcommand, hcrates ▸ h.pipelineHash, step, provenance, _, hstep, hprovenance, hdeclared,
      hname.symm, rfl, hcapsule, by rw [hcrates]; rfl, ?_, ?_⟩
    · rw [hname, hcrates, ← hsame.1]
      exact congrArg _ (paths_recorded hinputs)
    · rw [hname, hcrates, ← hsame.2]
      exact congrArg _ (paths_recorded houtputs)

end Recomputed

/-! ### The command `true` -/

/-- A wrapped receipt asks for the hashes only. -/
def helloRecomputer : Recomputer where
  crates := helloCrates
  readPipeline _ := .error "missing field `steps`"
  pipelineYaml _ := .ok helloYaml
  readManifest _ := .error "missing field `name`"
  capsules := ⟨fun _ => .error "EOF while parsing a value", fun _ => .ok ""⟩
  display _ := "/work/attest.yaml"
  showIo _ := "No such file or directory (os error 2)"
  showHashing _ := "declared path is missing"
  showChain _ := "declared path is missing"

theorem hello_runs : Runs (helloMachine sampleDate) helloOptions ["true"] helloReportJson none
    helloFiles (.ok 0) helloReport helloScene := by
  have hhash : Hashing.hashInputs (helloMachine sampleDate).recorder.crates helloFiles
      helloOptions.root helloOptions.name (encodeCommand ["true"]) helloOptions.declaredInputs =
        .ok helloInputHash := hashInputs_nil _ _ _ _ _
  have houtputs : outputsWithArtifacts (helloMachine sampleDate).recorder.crates helloFiles
      helloOptions.root helloOptions.name helloOptions.declaredOutputs =
        .ok (digestText helloCrates (outputText .empty), []) := outputsWithArtifacts_nil _ _ _ _
  have hyaml : (helloMachine sampleDate).receiptYaml (plainReceipt (helloMachine sampleDate)
      helloOptions ["true"] true helloInputHash (digestText helloCrates (outputText .empty), [])
      helloWaited sampleDate) = .ok helloContent := rfl
  have hchild := @reaches_attested (helloMachine sampleDate) helloOptions _ _
    ⟨none, .failed, none, none⟩ _ _ _ _ _ helloPath _ hhash houtputs rfl rfl hyaml
  have hinner : Reaches (Answers (helloMachine sampleDate) helloOptions)
      (runWrapInner (helloMachine sampleDate) helloOptions ["true"]) ⟨none, .failed, none, none⟩
      (start helloFiles) (.ok 0) helloReport helloScene := reaches_started hhash hchild
  exact runs_unreported hinner

end Attest.Verify.Recompute
