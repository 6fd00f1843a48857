import Attest.Interop.Exporting
import Attest.Interop.Imported
import Attest.Library.JsonText
import Attest.Verify.ExplicitStore
import Mathlib.Tactic.Ring

/-! What an import finds of an export.

An export opens for whoever imports it: its evidence is within the limits, its receipt reads, its
statement is the projection. What an import still decides is the recipient's own: whom it trusts,
and what it asks for besides. -/
namespace Attest.Interop.Projection
open Library Library.Fallible Storage Hashing
open Trust (Bytes Crates DateTime SigningKey VerifyingKey Workspace hexEncode keyId keyIdFromHex
  keyFromHex samplePublicA utf8 isFile)
open Trust.KeyStore (selectSigningKey)
open Verify
open Evidence (EvidenceError artifactBytes inventory)
open Archive (readReceipt)
open Identity (IdentityHost IdentityPolicy IdentityVerification verifyReceiptIdentity bounded
  bounded_eq_ok)

/-! ### What goes along -/

section Snapshot
variable {host : ExportHost} {fs : FileSystem} {snapshot snapshot' : Snapshot} {directory : String}
  {entry : Name × Tree} {root : Path}

/-- A blob that opens again. -/
def Openable (sha256 : Bytes → Vector UInt8 32) (blob : EmbeddedBlob) : Prop :=
  ∃ bytes, blob.bytes sha256 Evidence.maxIdentityBytes = .ok bytes

theorem openable_new {sha256 : Bytes → Vector UInt8 32} {bytes : Bytes} {mediaType : String}
    (h : bytes.length ≤ Evidence.maxIdentityBytes) : Openable sha256 (.new sha256 bytes mediaType) :=
  ⟨bytes, EmbeddedBlob.bytes_new h⟩

/-- What every snapshot is. -/
structure Snapshot.Transportable (host : ExportHost) (snapshot : Snapshot) : Prop where
  count : snapshot.files.entries.length ≤ 256
  openable : ∀ entry ∈ snapshot.files.entries, Openable host.verify.sha256 entry.2

theorem transportable_insert (h : snapshot.Transportable host) {name mediaType : String}
    {bytes : Bytes} {total : Nat} (hcount : snapshot.files.entries.length < 256)
    (hbytes : bytes.length ≤ Evidence.maxIdentityBytes) :
    Snapshot.Transportable host
      ⟨snapshot.files.insert name (.new host.verify.sha256 bytes mediaType), total⟩ where
  count := (SortedMap.length_insertEntry_le _ _ _).trans hcount
  openable := by
    intro entry hentry
    rcases SortedMap.mem_insert.mp hentry with rfl | ⟨hold, _⟩
    · exact openable_new hbytes
    · exact h.openable entry hold

/-- One file more. -/
theorem transportable_addTrustFile (h : snapshot.Transportable host)
    (hadd : addTrustFile host directory snapshot entry = .ok snapshot') :
    snapshot'.Transportable host := by
  unfold addTrustFile at hadd
  simp only at hadd
  split at hadd
  next =>
    split at hadd
    next bytes _ =>
      simp only [except_bind_eq_ok, refuseIf_eq_ok, exists_const, not_or, not_lt, not_le, pure,
        Except.pure, Except.ok.injEq] at hadd
      obtain ⟨hbytes, ⟨_, hcount⟩, rfl⟩ := hadd
      exact transportable_insert h hcount (hbytes.trans (by decide))
    next => cases hadd
  next =>
    obtain rfl := Except.ok.inj hadd
    exact h

/-- What a step keeps, a run of steps keeps. -/
theorem foldlM_keeps {ε σ α : Type} {step : σ → α → Except ε σ} {p : σ → Prop}
    (hstep : ∀ s a s', p s → step s a = .ok s' → p s') {items : List α} {s s' : σ} (h : p s)
    (hrun : items.foldlM step s = .ok s') : p s' := by
  induction items generalizing s with
  | nil =>
    obtain rfl := Except.ok.inj hrun
    exact h
  | cons a rest ih =>
    rw [List.foldlM_cons] at hrun
    obtain ⟨next, hnext, hrun⟩ := except_bind_eq_ok.mp hrun
    exact ih (hstep s a next h hnext) hrun

theorem transportable_addTrustDir (h : snapshot.Transportable host)
    (hadd : addTrustDir host fs root snapshot directory = .ok snapshot') :
    snapshot'.Transportable host := by
  unfold addTrustDir at hadd
  simp only at hadd
  split at hadd
  next =>
    obtain rfl := Except.ok.inj hadd
    exact h
  next =>
    split at hadd
    next =>
      obtain rfl := Except.ok.inj hadd
      exact h
    next =>
      obtain ⟨here, _, hadd⟩ := except_bind_eq_ok.mp hadd
      split at hadd
      next => cases hadd
      next => exact foldlM_keeps (fun _ _ _ => transportable_addTrustFile) h hadd
      next => cases hadd

theorem transportable_snapshot (h : publicTrustSnapshot host fs root = .ok snapshot) :
    snapshot.Transportable host :=
  foldlM_keeps (fun _ _ _ => transportable_addTrustDir) ⟨Nat.zero_le _, by simp⟩ h

end Snapshot

section Evidence
variable {host : ExportHost} {fs : FileSystem} {options : ExportOptions} {trustDir : Path}
  {content : Bytes} {receipt : Receipt} {material : SortedMap String EmbeddedBlob}
  {workflow : Option IdentityVerification × Option EmbeddedBlob}

/-- What goes along is within what an import takes, and opens there. -/
theorem transportable_exportedTrust (h : exportedTrust host fs options trustDir = .ok material) :
    material.entries.length ≤ 257 ∧
      ∀ entry ∈ material.entries, Openable host.verify.sha256 entry.2 := by
  obtain ⟨snapshot, hsnapshot, h⟩ := except_bind_eq_ok.mp h
  have htransportable := transportable_snapshot hsnapshot
  split at h
  next =>
    obtain rfl := Except.ok.inj h
    exact ⟨htransportable.count.trans (Nat.le_succ _), htransportable.openable⟩
  next policy _ =>
    obtain ⟨file, _, h⟩ := except_bind_eq_ok.mp h
    obtain ⟨bytes, hbytes, h⟩ := except_bind_eq_ok.mp h
    obtain rfl := Except.ok.inj h
    obtain ⟨hlength, rfl⟩ := bounded_eq_ok.mp (mapError_eq_ok.mp hbytes)
    refine ⟨(SortedMap.length_insertEntry_le _ _ _).trans (Nat.succ_le_succ htransportable.count), ?_⟩
    intro entry hentry
    rcases SortedMap.mem_insert.mp hentry with rfl | ⟨hold, _⟩
    · exact openable_new hlength
    · exact htransportable.openable entry hold

/-- A workflow is claimed with what proves it, or not at all. -/
theorem isSome_exportedWorkflow (h : exportedWorkflow host fs options content = .ok workflow) :
    workflow.1.isSome = workflow.2.isSome := by
  unfold exportedWorkflow at h
  split at h
  next =>
    obtain ⟨_, _, h⟩ := except_bind_eq_ok.mp h
    obtain ⟨_, _, h⟩ := except_bind_eq_ok.mp h
    obtain ⟨_, _, h⟩ := except_bind_eq_ok.mp h
    obtain rfl := Except.ok.inj h
    rfl
  next =>
    obtain rfl := Except.ok.inj h
    rfl

end Evidence

/-! ### What an export is -/

section Exported
variable {host : ExportHost} {fs : FileSystem} {keys : Workspace} {options : ExportOptions}
  {content : Bytes} {receipt : Receipt} {evidence : OriginalEvidence} {statement : Statement}
  {signatures : List EnvelopeSignature} {json : String} {warnings : List String}

/-- The receipt of an export, the statement made of it and the signatures over that. -/
structure Exports (host : ExportHost) (fs : FileSystem) (keys : Workspace) (options : ExportOptions)
    (content : Bytes) (receipt : Receipt) (evidence : OriginalEvidence) (statement : Statement)
    (signatures : List EnvelopeSignature) : Prop where
  fits : content.length ≤ Evidence.maxReceiptBytes
  reads : readReceipt host.verify content = .ok receipt
  unbroken : brokenSignature host receipt = .ok none
  signed : receiptSigned receipt = true ∨ options.allowUnsigned = true
  held : ∀ provenance ∈ receipt.provenance, ∀ artifact ∈ provenance.artifacts,
    heldArtifact host fs options artifact = .ok ()
  carried : ∃ material workflow, exportedTrust host fs options options.trustDir = .ok material ∧
    exportedWorkflow host fs options content = .ok workflow ∧
    evidence = exportedEvidence host content receipt material workflow
  paired : options.identityBundle.isSome = options.identityPolicy.isSome
  nameable : Nameable host.verify.crates receipt
  projects : Projects receipt evidence statement
  signs : ∃ key more, envelopeKey host keys options receipt = .ok key ∧
    envelopeSignatures host options receipt (Json.compact statement.json) key = some (signatures, more)
  small : (envelopeText (Json.compact statement.json) signatures).utf8ByteSize ≤ maxStatementBytes

theorem checkHeld_eq_ok : checkHeld host fs options receipt = .ok warnings →
    ∀ provenance ∈ receipt.provenance, ∀ artifact ∈ provenance.artifacts,
      heldArtifact host fs options artifact = .ok () := by
  intro h provenance hprovenance artifact hartifact
  have hbound : artifactBinding receipt ≠ "unavailable" := by
    rw [ne_eq, artifactBinding_eq_unavailable, not_not]
    exact ⟨provenance, hprovenance, List.ne_nil_of_mem hartifact⟩
  rw [checkHeld, if_pos hbound] at h
  obtain ⟨_, _, h⟩ := except_bind_eq_ok.mp h
  obtain ⟨listed, hlisted, h⟩ := except_bind_eq_ok.mp h
  obtain ⟨_, hheld, _⟩ := except_bind_eq_ok.mp h
  rw [listedArtifacts, Option.mem_def.mp hprovenance] at hlisted
  obtain rfl := Except.ok.inj hlisted
  exact forM_eq_ok.mp hheld artifact hartifact

/-- What is written is an export. -/
theorem exports_of_written (h : exportReceipt host fs keys options content =
    .ok (.written json warnings)) : ∃ receipt evidence statement signatures,
      Exports host fs keys options content receipt evidence statement signatures ∧
        json = envelopeText (Json.compact statement.json) signatures := by
  obtain ⟨_, hbounded, h⟩ := except_bind_eq_ok.mp h
  obtain ⟨hfits, rfl⟩ := bounded_eq_ok.mp (mapError_eq_ok.mp hbounded)
  obtain ⟨receipt, hreads, h⟩ := except_bind_eq_ok.mp h
  obtain ⟨broken, hbroken, h⟩ := except_bind_eq_ok.mp h
  split at h
  next => cases Except.ok.inj h
  next =>
    split at h
    next => cases Except.ok.inj h
    next hsigned =>
      obtain ⟨⟨statement, before⟩, hstatement, h⟩ := except_bind_eq_ok.mp h
      obtain ⟨_, hheld, hstatement⟩ := except_bind_eq_ok.mp hstatement
      obtain ⟨_, hpaired, hstatement⟩ := except_bind_eq_ok.mp hstatement
      obtain ⟨workflow, hworkflow, hstatement⟩ := except_bind_eq_ok.mp hstatement
      obtain ⟨material, hmaterial, hstatement⟩ := except_bind_eq_ok.mp hstatement
      obtain ⟨projected, hprojected, hstatement⟩ := except_bind_eq_ok.mp hstatement
      obtain ⟨rfl, _⟩ := Prod.mk.inj (Except.ok.inj hstatement)
      obtain ⟨hnameable, hprojects⟩ := projectReceipt_eq_ok.mp hprojected
      obtain ⟨key, hkey, h⟩ := except_bind_eq_ok.mp h
      split at h
      next => cases Except.ok.inj h
      next signatures more hsignatures =>
        obtain ⟨_, hsmall, h⟩ := except_bind_eq_ok.mp h
        obtain ⟨rfl, _⟩ := ExportOutcome.written.inj (Except.ok.inj h)
        refine ⟨receipt, _, projected, signatures, ⟨hfits, mapError_eq_ok.mp hreads, hbroken, ?_,
          checkHeld_eq_ok hheld, ⟨material, workflow, hmaterial, hworkflow, rfl⟩,
          not_not.mp (refuseIf_eq_ok.mp hpaired), hnameable, hprojects,
          ⟨key, more, hkey, hsignatures⟩, not_lt.mp (refuseIf_eq_ok.mp hsmall)⟩, rfl⟩
        by_contra hneither
        rw [not_or, Bool.not_eq_true, Bool.not_eq_true] at hneither
        exact hsigned hneither

theorem checkHeld_of (hnameable : Nameable host.verify.crates receipt)
    (h : ∀ provenance ∈ receipt.provenance, ∀ artifact ∈ provenance.artifacts,
      heldArtifact host fs options artifact = .ok ()) :
    ∃ warnings, checkHeld host fs options receipt = .ok warnings := by
  by_cases hbound : Bound receipt
  · obtain ⟨provenance, hprovenance, _⟩ := id hbound
    have hlisted : listedArtifacts receipt = .ok provenance.artifacts := by
      rw [listedArtifacts, Option.mem_def.mp hprovenance]
    have hunavailable : artifactBinding receipt ≠ "unavailable" := by
      rw [ne_eq, artifactBinding_eq_unavailable, not_not]
      exact hbound
    refine ⟨[], ?_⟩
    rw [checkHeld, if_pos hunavailable, hnameable.inventoried hbound, except_ok_bind, hlisted,
      except_ok_bind, forM_eq_ok.mpr (h provenance hprovenance)]
    rfl
  · have hunavailable : ¬ artifactBinding receipt ≠ "unavailable" :=
      not_not.mpr (artifactBinding_eq_unavailable.mpr hbound)
    exact ⟨_, if_neg hunavailable⟩

/-- An export is written. -/
theorem written_of_exports
    (h : Exports host fs keys options content receipt evidence statement signatures) :
    ∃ warnings, exportReceipt host fs keys options content =
      .ok (.written (envelopeText (Json.compact statement.json) signatures) warnings) := by
  obtain ⟨material, workflow, hmaterial, hworkflow, rfl⟩ := h.carried
  obtain ⟨key, more, hkey, hsignatures⟩ := h.signs
  obtain ⟨warnings, hheld⟩ := checkHeld_of h.nameable h.held
  have hstatement : exportedStatement host fs options options.trustDir content receipt =
      .ok (statement, warnings ++ statementWarnings statement) := by
    refine except_bind_eq_ok.mpr ⟨_, hheld, ?_⟩
    refine except_bind_eq_ok.mpr ⟨(), refuseIf_eq_ok.mpr (not_not.mpr h.paired), ?_⟩
    refine except_bind_eq_ok.mpr ⟨_, hworkflow, ?_⟩
    refine except_bind_eq_ok.mpr ⟨_, hmaterial, ?_⟩
    exact except_bind_eq_ok.mpr ⟨_, projectReceipt_eq_ok.mpr ⟨h.nameable, h.projects⟩, rfl⟩
  refine ⟨warnings ++ statementWarnings statement ++ more, ?_⟩
  refine except_bind_eq_ok.mpr ⟨content, mapError_eq_ok.mpr (bounded_eq_ok.mpr ⟨h.fits, rfl⟩), ?_⟩
  refine except_bind_eq_ok.mpr ⟨receipt, mapError_eq_ok.mpr h.reads, ?_⟩
  refine except_bind_eq_ok.mpr ⟨none, h.unbroken, ?_⟩
  have hsigned : ¬ (receiptSigned receipt = false ∧ options.allowUnsigned = false) := by
    intro hneither
    rcases h.signed with hsigned | hallowed
    · exact Bool.false_ne_true (hneither.1.symm.trans hsigned)
    · exact Bool.false_ne_true (hneither.2.symm.trans hallowed)
  simp only [if_neg hsigned, hstatement, except_ok_bind]
  refine except_bind_eq_ok.mpr ⟨key, hkey, ?_⟩
  simp only [hsignatures]
  exact except_bind_eq_ok.mpr ⟨(), refuseIf_eq_ok.mpr (not_lt.mpr h.small), rfl⟩

end Exported

/-! ### What an import finds -/

section RoundTrip
variable {host : ExportHost} {fs files : FileSystem} {keys : Workspace} {options : ExportOptions}
  {content : Bytes} {receipt : Receipt} {evidence : OriginalEvidence} {statement : Statement}
  {signatures : List EnvelopeSignature} {importer : ImportHost} {trust : Files}
  {choices : ImportOptions} {now : DateTime} {nested : ReceiptVerdict} {label : String}

theorem producer_named : "continuum-attest" ≠ "" ∧ packageVersion ≠ "" := by decide

/-- The evidence of an export opens. -/
theorem opens_of_exports (hverify : importer.verify = host.verify)
    (h : Exports host fs keys options content receipt evidence statement signatures) :
    Opens importer statement ⟨evidence, content, receipt⟩ := by
  obtain ⟨material, workflow, hmaterial, hworkflow, hevidence⟩ := h.carried
  obtain ⟨hcount, hopenable⟩ := transportable_exportedTrust hmaterial
  have hprojects := h.projects
  have hnameable := h.nameable
  have hreads := h.reads
  rw [hevidence] at hprojects ⊢
  rw [← hverify] at hopenable hnameable hreads
  refine ⟨rfl, rfl, rfl, producer_named, ?_, hreads, rfl, rfl, isSome_exportedWorkflow hworkflow,
    ⟨hcount, hopenable⟩, hnameable, hprojects⟩
  rw [hverify]
  exact EmbeddedBlob.bytes_new h.fits

/-- The pipeline hash of a receipt that passes is a digest. -/
theorem isDigest_of_passed {b : Backend} {opts : VerifyOptions}
    (hreads : readReceipt b content = .ok receipt)
    (hverified : verifyReceiptBytes b trust content label opts now = .ok nested)
    (hpassed : nested.passed = true) : isDigest receipt.pipelineHash = true := by
  have hnofail := no_fail_of_verified hverified hpassed
  rcases Evidence.verifyReceiptBytes_eq_ok hverified with ⟨other, hother, rfl⟩ | ⟨check, hcheck, hfail⟩
  · obtain ⟨document, hyaml, _, hreceipt⟩ := hother
    rw [readReceipt, hyaml, except_ok_bind, hreceipt] at hreads
    obtain rfl := Except.ok.inj hreads
    have hconsistent := hnofail (Verify.consistencyCheck other)
      (List.mem_cons_of_mem _ (List.mem_cons_self ..))
    unfold Verify.consistencyCheck at hconsistent
    split at hconsistent
    next hnone =>
      simp only [Verify.consistencyProblems, List.append_eq_nil_iff, ite_eq_left_iff,
        List.cons_ne_self, imp_false, not_not] at hnone
      exact hnone.1.1.2
    next => exact absurd rfl hconsistent
  · exact absurd hfail (hnofail check hcheck)

/-- The envelope of an export, as it is written. -/
def exportedEnvelope (statement : Statement) (signatures : List EnvelopeSignature) : Envelope :=
  ⟨Base64.encode (utf8 (Json.compact statement.json)), dssePayloadType, signatures⟩

/-- `serde_json` reads what it wrote. -/
structure ReadsBack (importer : ImportHost) (statement : Statement)
    (signatures : List EnvelopeSignature) : Prop where
  envelope : ∃ value, importer.readJson
      (utf8 (envelopeText (Json.compact statement.json) signatures)) = some value ∧
    importer.readEnvelope value = .ok (exportedEnvelope statement signatures)
  statement : importer.readStatement (utf8 (Json.compact statement.json)) = .ok statement

/-- What is left to the recipient of an export: whom it trusts for the envelope and for the receipt,
what it asks for besides, and whether it reads the two times. -/
structure LeftToRecipient (importer : ImportHost) (trust : Files) (files : FileSystem)
    (choices : ImportOptions) (now : DateTime) (content : Bytes) (receipt : Receipt)
    (evidence : OriginalEvidence) (statement : Statement) (signatures : List EnvelopeSignature) :
    Prop where
  signs : Signs importer trust choices (exportedEnvelope statement signatures)
    (utf8 (Json.compact statement.json)) statement
  finishedOn : ∃ time, importer.parseRfc3339 statement.predicate.finishedOn = some time
  startedOn : ∃ time, importer.parseRfc3339 statement.predicate.startedOn = some time
  verified : ∃ nested, verifyReceiptBytes importer.verify trust content "embedded original receipt"
      (originalOptions choices) now = .ok nested ∧ nested.passed = true ∧
    ∀ requirement ∈ choices.required, Meets choices nested requirement
  authorised : ∀ policy ∈ choices.identityPolicy, Authorised importer ⟨evidence, content, receipt⟩ policy
  delivered : ∀ root ∈ choices.artifactRoot, DeliveredWhole importer files receipt root

theorem parses_exported (hreads : ReadsBack importer statement signatures)
    (h : Projects receipt evidence statement) :
    Parses importer (utf8 (envelopeText (Json.compact statement.json) signatures))
      (exportedEnvelope statement signatures) (utf8 (Json.compact statement.json)) statement :=
  ⟨hreads.envelope, rfl, Base64.decode_encode _, hreads.statement, h.type, h.predicateType⟩

/-- The subjects are digests, as the inventory has them. -/
theorem isDigest_of_subject (hnameable : Nameable host.verify.crates receipt)
    (hprojects : Projects receipt evidence statement) :
    ∀ descriptor ∈ statement.subject ++ statement.predicate.resolvedDependencies,
      isDigest descriptor.blake3 = true := by
  intro descriptor hdescriptor
  rw [hprojects.resolvedDependencies, List.append_nil] at hdescriptor
  obtain ⟨provenance, hprovenance, artifact, hartifact, _, _, hdigest⟩ :=
    (hprojects.subject descriptor).mp hdescriptor
  have hbound : Bound receipt := ⟨provenance, hprovenance, List.ne_nil_of_mem hartifact⟩
  obtain ⟨listed, hlisted, _, hlistable, _⟩ :=
    Evidence.inventory_eq_ok (hnameable.inventoried hbound)
  obtain ⟨other, hother, hsame, _⟩ := Evidence.artifacts_eq_ok.mp hlisted
  obtain rfl := Option.some.inj (hother.symm.trans hprovenance)
  rw [← hdigest]
  exact (hlistable artifact (hsame ▸ hartifact)).digest

/-- An import asks of an export what its own recipient decides. -/
theorem exported_passes_iff (hverify : importer.verify = host.verify)
    (hreads : ReadsBack importer statement signatures)
    (h : Exports host fs keys options content receipt evidence statement signatures) :
    (∃ verdict, importStatement importer trust files choices now label
        (utf8 (envelopeText (Json.compact statement.json) signatures)) = .ok verdict ∧
        verdict.passed = true) ↔
      LeftToRecipient importer trust files choices now content receipt evidence statement
        signatures := by
  have hparses := parses_exported hreads h.projects
  have hopens := opens_of_exports hverify h
  have hlength : (utf8 (envelopeText (Json.compact statement.json) signatures)).length ≤
      maxStatementBytes := by
    rw [Trust.length_utf8]
    exact h.small
  rw [passes_of_parses hlength hparses]
  constructor
  · intro hpasses
    obtain ⟨hcoherent, hsigns, hcase⟩ := hpasses
    have hadmitted : Admitted importer trust files choices now statement := by
      rcases hcase with ⟨_, hadmitted⟩ | ⟨hlegacy, _⟩
      · exact hadmitted
      · rw [h.projects.buildType] at hlegacy
        exact absurd hlegacy.symm legacyBuildType_ne
    obtain ⟨original, nested, hadmitted⟩ := hadmitted
    obtain rfl := Except.ok.inj
      ((openOriginal_eq_ok.mpr hadmitted.opens).symm.trans (openOriginal_eq_ok.mpr hopens))
    exact ⟨hsigns, hcoherent.finishedOn, hcoherent.startedOn,
      ⟨nested, hadmitted.verified, hadmitted.passed, hadmitted.required⟩, hadmitted.authorised,
      hadmitted.delivered⟩
  · intro hleft
    obtain ⟨nested, hverified, hpassed, hrequired⟩ := hleft.verified
    have hreadsAs : readReceipt importer.verify content = .ok receipt := hverify ▸ h.reads
    have hinvocation : isDigest statement.predicate.invocationId = true := by
      rw [h.projects.invocationId]
      obtain ⟨material, workflow, _, _, hevidence⟩ := h.carried
      rw [hevidence]
      exact Evidence.isDigest_hexEncode _
    have hcoherent : Coherent importer statement := by
      refine ⟨.inl h.projects.buildType, ?_, isDigest_of_subject h.nameable h.projects, hinvocation,
        hleft.startedOn, hleft.finishedOn, ?_⟩
      · rw [h.projects.pipelineHash]
        exact isDigest_of_passed hreadsAs hverified hpassed
      · intro hlegacy
        rw [h.projects.buildType] at hlegacy
        exact absurd hlegacy.symm legacyBuildType_ne
    exact ⟨hcoherent, hleft.signs, .inl ⟨h.projects.buildType, _, nested,
      ⟨hopens, hverified, hpassed, hleft.authorised, hleft.delivered, hrequired⟩⟩⟩

/-- What the text of an envelope is read as, where it is read as what it was written from. -/
def ReadsWritten (importer : ImportHost) (json : String) : Prop :=
  ∀ statement signatures, json = envelopeText (Json.compact statement.json) signatures →
    ReadsBack importer statement signatures

end RoundTrip

/-! ### The text of an envelope -/

theorem EnvelopeSignature.json_injective : Function.Injective EnvelopeSignature.json := by
  intro a b h
  simp only [EnvelopeSignature.json, Json.object.injEq, List.cons.injEq, Prod.mk.injEq,
    Json.text.injEq, true_and, and_true] at h
  rw [EnvelopeSignature.mk.injEq]
  exact h

/-- Base64 that reads back says which bytes it holds. -/
theorem encode_utf8_inj {text text' : String} (h : Base64.encode (utf8 text) = Base64.encode (utf8 text')) :
    text = text' := by
  have hbytes : some (utf8 text) = some (utf8 text') := by
    rw [← Base64.decode_encode, h, Base64.decode_encode]
  exact Trust.utf8_injective (Option.some.inj hbytes)

theorem envelopeText_inj {payload payload' : String} {signatures signatures' : List EnvelopeSignature}
    (h : envelopeText payload signatures = envelopeText payload' signatures') :
    payload = payload' ∧ signatures = signatures' := by
  have hcompact := Json.compact_injective (String.append_left_inj _ |>.mp h)
  simp only [Envelope.json, Json.object.injEq, List.cons.injEq, Prod.mk.injEq, Json.text.injEq,
    Json.array.injEq, true_and, and_true] at hcompact
  exact ⟨encode_utf8_inj hcompact.1, EnvelopeSignature.json_injective.list_map hcompact.2⟩

/-- **The text of an envelope tells the statement in it and the signatures over that.** -/
theorem envelopeText_eq_iff {statement statement' : Statement}
    {signatures signatures' : List EnvelopeSignature} :
    envelopeText (Json.compact statement.json) signatures =
        envelopeText (Json.compact statement'.json) signatures' ↔
      statement = statement' ∧ signatures = signatures' := by
  constructor
  · intro h
    obtain ⟨hpayload, hsignatures⟩ := envelopeText_inj h
    exact ⟨Statement.json_injective (Json.compact_injective hpayload), hsignatures⟩
  · intro h
    rw [h.1, h.2]

/-! ### A receipt without files, and no key at hand -/

/-- The SHA-256 of the sample receipt's file. -/
def sampleSha256 : Vector UInt8 32 :=
  #v[214, 38, 116, 66, 194, 51, 207, 82, 76, 168, 99, 205, 41, 129, 148, 81, 134, 46, 234, 221, 182,
    56, 80, 109, 38, 16, 137, 253, 206, 93, 102, 251]

/-- Nothing is asked of these here. -/
def noIdentity : IdentityHost where
  parseUrl _ := none
  readReceipt _ := .error "not a receipt"
  readJson _ := none
  findCosign := none
  run _ _ := .error "no such file"
  file _ := .error "no such file"

def sampleVerifier : Backend :=
  { sampleBackend with
    sha256 := fun bytes => if bytes = sampleYaml then sampleSha256 else Vector.replicate 32 0 }

def sampleExporter : ExportHost := ⟨sampleVerifier, fun _ _ => sampleSignature, noIdentity⟩

def emptyFiles : FileSystem := ⟨.dir [] fun _ => .file [], []⟩

/-- The options of an export that may go unsigned, from the root of an empty file system. -/
def sampleChoices : ExportOptions := ⟨true, none, ⟨true, []⟩, none, none, some ⟨true, []⟩⟩

def sampleKeys : Workspace := { root := "/", keysPath := "/.attest/keys" }

def sampleSigned : Receipt := sampleSignedReceipt sampleDate sampleSignature

def sampleEvidence : OriginalEvidence :=
  exportedEvidence sampleExporter sampleYaml sampleSigned .empty (none, none)

theorem sampleStarted_inRange : Trust.minSecs ≤ 1785542397 ∧ 1785542397 ≤ Trust.maxSecs := by decide

/-- Three seconds before the sample date. -/
def sampleStarted : DateTime := ⟨1785542397, 0, sampleStarted_inRange, Trust.DateTime.zero_nanos_lt⟩

def sampleStatement : Statement where
  type := statementType
  predicate :=
    { evidence := some sampleEvidence
      buildType := buildType
      pipelineHash := sampleDigest 'a'
      resolvedDependencies := []
      builder := unknownBuilder
      finishedOn := rfc3339 sampleDate
      invocationId := sampleEvidence.receipt.sha256
      startedOn := rfc3339 sampleStarted }
  predicateType := predicateType
  subject := []

def sampleJson : String := envelopeText (Json.compact sampleStatement.json) []

/-- A recipient that reads the sample envelope, and trusts as the sample store does. -/
def sampleImporter : ImportHost where
  verify := sampleVerifier
  readJson bytes :=
    if bytes = utf8 sampleJson then some (Envelope.json (exportedEnvelope sampleStatement []))
    else none
  readEnvelope _ := .ok (exportedEnvelope sampleStatement [])
  readStatement bytes :=
    if bytes = utf8 (Json.compact sampleStatement.json) then .ok sampleStatement
    else .error "expected value"
  parseRfc3339 text :=
    if text = rfc3339 sampleDate then some sampleDate
    else if text = rfc3339 sampleStarted then some sampleStarted
    else none
  identity := noIdentity
  render _ := "original evidence does not open"

theorem readsWritten_sample : ReadsWritten sampleImporter sampleJson := by
  intro statement signatures h
  obtain ⟨hpayload, rfl⟩ := envelopeText_inj h
  obtain rfl := Statement.json_injective (Json.compact_injective hpayload)
  have hjson : sampleImporter.readJson (utf8 sampleJson) =
      some (Envelope.json (exportedEnvelope sampleStatement [])) := by
    simp only [sampleImporter, if_true]
  have hstatement : sampleImporter.readStatement (utf8 (Json.compact sampleStatement.json)) =
      .ok sampleStatement := by
    simp only [sampleImporter, if_true]
  exact ⟨⟨_, hjson, rfl⟩, hstatement⟩

theorem length_sampleYaml : sampleYaml.length ≤ 3000 := by
  rw [sampleYaml, Trust.length_utf8]
  simp only [String.utf8ByteSize_append, Trust.utf8ByteSize_hexEncode, keyHex, Vector.length_toList]
  decide +kernel

theorem unbound_sample : ¬ Bound sampleSigned := by
  intro h
  obtain ⟨provenance, hprovenance, _⟩ := h
  cases hprovenance

theorem readReceipt_sample : readReceipt sampleVerifier sampleYaml = .ok sampleSigned := by
  have hread : sampleVerifier.readYaml sampleYaml = .ok ⟨some 3, .ok sampleSigned⟩ := by
    simp only [sampleVerifier, sampleBackend, if_true, sampleSigned]
  rw [readReceipt, hread]
  rfl

theorem unbroken_sample : brokenSignature sampleExporter sampleSigned = .ok none := by
  obtain ⟨signature, text, hsignature, hkey, htext, hverify⟩ :=
    @signedBy_sample sampleDate sampleSignature (.inl ⟨rfl, rfl⟩)
  have hreceipt : sampleSigned = sampleSignedReceipt sampleDate sampleSignature := rfl
  rw [brokenSignature, hreceipt, hsignature, hkey]
  have hthere : receiptSigningBytes sampleExporter.verify.receiptJson
      (sampleSignedReceipt sampleDate sampleSignature) = .ok text := htext
  have hverifies : verifyWithPublicKey sampleExporter.verify.crates (keyHex samplePublicA)
      (utf8 text) signature = .ok true := hverify
  simp only [hthere, Except.mapError, except_ok_bind, hverifies]
  rfl

theorem keyIdFromHex_sample : keyIdFromHex sampleVerifier.crates (keyHex samplePublicA) =
    .ok (keyId sampleVerifier.crates samplePublicA) := by
  have hkey : keyFromHex sampleVerifier.crates (keyHex samplePublicA) = .ok samplePublicA := by
    simp only [keyFromHex, keyHex, Trust.hexDecode_hexEncode, Trust.toVector_toList]
    rfl
  rw [keyIdFromHex, hkey]
  rfl

theorem envelopeKey_sample : envelopeKey sampleExporter sampleKeys sampleChoices sampleSigned =
    .ok none := by
  have hsigned : receiptSigned sampleSigned = true := rfl
  have hrequested : requestedKey sampleExporter sampleKeys sampleChoices sampleSigned = .ok none := by
    have hid : keyIdFromHex sampleExporter.verify.crates (keyHex samplePublicA) =
      .ok (keyId sampleVerifier.crates samplePublicA) := keyIdFromHex_sample
    show (do
      let id ← (keyIdFromHex sampleExporter.verify.crates (keyHex samplePublicA)).mapError
        EvidenceError.message
      return if isFile (sampleKeys.keys.lookup id) then some id else none) = _
    rw [hid]
    rfl
  rw [envelopeKey, if_pos hsigned, hrequested, except_ok_bind]
  rfl

theorem projects_sample : Projects sampleSigned sampleEvidence sampleStatement where
  type := rfl
  predicateType := rfl
  evidence := rfl
  buildType := rfl
  pipelineHash := rfl
  resolvedDependencies := rfl
  builder := rfl
  finishedOn := rfl
  startedOn := ⟨sampleStarted, rfl, rfl⟩
  invocationId := rfl
  sorted := List.Pairwise.nil
  subject := by
    intro descriptor
    refine iff_of_false (List.not_mem_nil) ?_
    intro h
    obtain ⟨provenance, hprovenance, _⟩ := h
    cases hprovenance

/-- A statement with another receipt in it, and other semantics. -/
def withReceipt (statement : Statement) (carried : OriginalEvidence) (semantics : List String)
    (content sha256 : String) : Statement :=
  { statement with
    predicate := { statement.predicate with
      evidence := some { carried with
        receipt := ⟨content, "application/yaml", sha256⟩, semantics := semantics }
      invocationId := sha256 } }

theorem itemsSize_texts_le (depth : Nat) (texts : List String) :
    Json.itemsSize Json.compactSpacing depth (texts.map .text) ≤
      6 * (texts.map String.utf8ByteSize).sum + 3 * texts.length := by
  have hsum : (texts.map fun text => Json.compactSpacing.newline depth +
      Json.renderSize Json.compactSpacing depth (.text text)).sum =
      (texts.map Json.escapedSize).sum + 2 * texts.length := by
    induction texts with
    | nil => rfl
    | cons text rest ih =>
      rw [List.map_cons, List.sum_cons, ih, List.map_cons, List.sum_cons, List.length_cons]
      simp only [Json.renderSize, Json.compactSpacing]
      omega
  have hescaped := Json.sum_escapedSize_le texts
  rw [Json.itemsSize_map, hsum]
  omega

theorem renderSize_withReceipt (statement : Statement) (carried : OriginalEvidence)
    (semantics : List String) (content sha256 : String) :
    Json.renderSize Json.compactSpacing 0
        (withReceipt statement carried semantics content sha256).json =
      Json.escapedSize content + 2 * Json.escapedSize sha256 +
        Json.itemsSize Json.compactSpacing 4 (semantics.map .text) +
        Json.renderSize Json.compactSpacing 0 (withReceipt statement carried [] "" "").json := by
  have hempty : Json.escapedSize "" = 0 := rfl
  have hnewline : ∀ depth, Json.compactSpacing.newline depth = 0 := fun _ => rfl
  simp only [withReceipt, Statement.json, Predicate.json, OriginalEvidence.json, EmbeddedBlob.json,
    List.cons_append, List.nil_append, Json.renderSize, Json.fieldsSize, Json.itemsSize, hempty,
    List.isEmpty_cons, Bool.false_eq_true, if_false, hnewline, ite_self, List.map_nil, zero_add,
    Nat.reduceAdd]
  -- The names are as long on both sides, however long that is.
  generalize Json.escapedSize = size
  ring

theorem length_withReceipt_le {statement : Statement} {carried : OriginalEvidence}
    {semantics : List String} {bytes : Bytes} {digest : Vector UInt8 32} (hbytes : bytes.length ≤ 3000)
    (hsemantics : 6 * (semantics.map String.utf8ByteSize).sum + 3 * semantics.length ≤ 10000)
    (hbare : Json.renderSize Json.compactSpacing 0
      (withReceipt statement carried [] "" "").json ≤ 4000) :
    (utf8 (Json.compact (withReceipt statement carried semantics (Base64.encode bytes)
      (hexEncode digest.toList)).json)).length ≤ 40000 := by
  have hcontent := Json.escapedSize_le (Base64.encode bytes)
  have hbase64 : (Base64.encode bytes).utf8ByteSize = 4 * ((bytes.length + 2) / 3) :=
    Publication.Note.utf8ByteSize_encodeChars bytes
  have htexts := itemsSize_texts_le 4 semantics
  rw [Trust.length_utf8, Json.utf8ByteSize_compact, renderSize_withReceipt,
    Trust.escapedSize_hexEncode, Vector.length_toList]
  omega

theorem utf8ByteSize_envelopeText_le {payload : String} (h : (utf8 payload).length ≤ 40000) :
    (envelopeText payload []).utf8ByteSize ≤ maxStatementBytes := by
  have hbase64 : (Base64.encode (utf8 payload)).utf8ByteSize = 4 * (((utf8 payload).length + 2) / 3) :=
    Publication.Note.utf8ByteSize_encodeChars _
  have hescaped := Json.escapedSize_le (Base64.encode (utf8 payload))
  have hnames : Json.escapedSize "payload" + Json.escapedSize "payloadType" +
      Json.escapedSize dssePayloadType + Json.escapedSize "signatures" ≤ 100 := by decide +kernel
  have hline : "\n".utf8ByteSize = 1 := rfl
  rw [envelopeText, String.utf8ByteSize_append, Json.utf8ByteSize_compact, hline]
  simp only [Envelope.json, Json.renderSize, Json.fieldsSize, Json.itemsSize, Json.compactSpacing,
    List.map_nil, List.isEmpty_nil, List.isEmpty_cons, if_true, Bool.false_eq_true, if_false,
    maxStatementBytes]
  revert hnames hescaped
  generalize Json.escapedSize = size
  omega

theorem bare_sample : Json.renderSize Json.compactSpacing 0
    (withReceipt sampleStatement sampleEvidence [] "" "").json ≤ 4000 := by
  decide +kernel

theorem semantics_sample :
    6 * (projectionSemantics.map String.utf8ByteSize).sum + 3 * projectionSemantics.length ≤ 10000 := by
  decide +kernel

theorem length_payload : (utf8 (Json.compact sampleStatement.json)).length ≤ 40000 := by
  have hreceipt : sampleStatement = withReceipt sampleStatement sampleEvidence projectionSemantics
      (Base64.encode sampleYaml) (hexEncode (sampleVerifier.sha256 sampleYaml).toList) := rfl
  rw [hreceipt]
  exact length_withReceipt_le length_sampleYaml semantics_sample bare_sample

theorem exports_sample : Exports sampleExporter emptyFiles sampleKeys sampleChoices sampleYaml
    sampleSigned sampleEvidence sampleStatement [] where
  fits := length_sampleYaml.trans (by decide)
  reads := readReceipt_sample
  unbroken := unbroken_sample
  signed := .inr rfl
  held := fun provenance hprovenance => nomatch hprovenance
  carried := ⟨.empty, (none, none), rfl, rfl, rfl⟩
  paired := rfl
  nameable := ⟨fun h => absurd h unbound_sample, fun provenance hprovenance => nomatch hprovenance⟩
  projects := projects_sample
  signs := ⟨none, _, envelopeKey_sample, rfl⟩
  small := utf8ByteSize_envelopeText_le length_payload

/-- The recipient asks for nothing besides, and has the sample store. -/
def sampleRecipient : ImportOptions where
  workspace := "."
  trustStore := some "trust"
  trustStatementTime := false
  required := []
  identityPolicy := none
  artifactRoot := none

end Attest.Interop.Projection
