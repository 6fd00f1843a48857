import Attest.Interop.Importing

/-! What an import rests on.

A verdict passes where no check fails and every requirement is established, and each check is told
by what it looks at. So the statements that pass are described without the verdict. -/
namespace Attest.Interop.Projection
open Library Library.Fallible Storage Hashing
open Trust (Bytes Crates DateTime TrustPolicy hexEncode trustDirPublicKeys)
open Verify
open Evidence (EvidenceError alsoRequire artifactBytes mem_alsoRequire)
open Archive (readReceipt)
open Identity (IdentityHost IdentityPolicy IdentityVerification verifyReceiptIdentity Authenticated)

/-! ### What an import rests on -/

section Admitted
variable {host : ImportHost} {trust : Files} {fs : FileSystem} {options : ImportOptions}
  {now : DateTime} {statement : Statement} {original : Original} {nested : ReceiptVerdict}

/-- The evidence of a statement, with the receipt in it. -/
structure Opens (host : ImportHost) (statement : Statement) (original : Original) : Prop where
  format : original.evidence.format = evidenceFormat
  mediaType : original.evidence.receipt.mediaType = "application/yaml"
  semantics : original.evidence.semantics = projectionSemantics
  producer : original.evidence.producer.name ≠ "" ∧ original.evidence.producer.version ≠ ""
  receipt : original.evidence.receipt.bytes host.verify.sha256 Evidence.maxReceiptBytes =
    .ok original.receiptBytes
  reads : readReceipt host.verify original.receiptBytes = .ok original.receipt
  signer : original.evidence.originalSigner = original.receipt.signerPublicKey
  binding : original.evidence.artifactBinding = artifactBinding original.receipt
  workflow : original.evidence.workflow.isSome = original.evidence.workflowBundle.isSome
  material : original.evidence.trustMaterial.entries.length ≤ 257 ∧
    ∀ entry ∈ original.evidence.trustMaterial.entries, ∃ bytes,
      entry.2.bytes host.verify.sha256 Evidence.maxIdentityBytes = .ok bytes
  nameable : Nameable host.verify.crates original.receipt
  projects : Projects original.receipt original.evidence statement

theorem openMaterial_eq_ok {entry : String × EmbeddedBlob} : openMaterial host entry = .ok () ↔
    ∃ bytes, entry.2.bytes host.verify.sha256 Evidence.maxIdentityBytes = .ok bytes := by
  simp only [openMaterial, except_bind_eq_ok, pure, Except.pure, and_true]

theorem openOriginal_eq_ok : openOriginal host statement = .ok original ↔
    Opens host statement original := by
  simp only [openOriginal, except_bind_eq_ok, refuseIf_eq_ok, given_eq_ok, exists_const, not_not,
    not_or, not_lt, mapError_eq_ok, pure, Except.pure, Except.ok.injEq, projectReceipt_eq_ok]
  constructor
  · intro h
    obtain ⟨evidence, hevidence, hformat, hmedia, hsemantics, hproducer, receiptBytes, hreceipt,
      receipt, hreads, hsigner, hbinding, hworkflow, hcount, _, hmaterial, expected,
      ⟨hnameable, hprojects⟩, hsame, rfl⟩ := h
    rw [← hsame] at hprojects
    refine ⟨hformat, hmedia, hsemantics, hproducer, hreceipt, hreads, hsigner, hbinding, hworkflow,
      ⟨hcount, ?_⟩, hnameable, hprojects⟩
    intro entry hentry
    exact openMaterial_eq_ok.mp (forM_eq_ok.mp hmaterial entry hentry)
  · intro h
    have hmaterial : original.evidence.trustMaterial.entries.forM (openMaterial host) = .ok () :=
      forM_eq_ok.mpr fun entry hentry => openMaterial_eq_ok.mpr (h.material.2 entry hentry)
    exact ⟨original.evidence, h.projects.evidence, h.format, h.mediaType, h.semantics, h.producer,
      original.receiptBytes, h.receipt, original.receipt, h.reads, h.signer, h.binding, h.workflow,
      h.material.1, (), hmaterial, statement, ⟨h.nameable, h.projects⟩, rfl, rfl⟩

/-- The workflow that a recipient's policy asks for, by the receipt's own bytes. -/
structure Authorised (host : ImportHost) (original : Original) (policy : IdentityPolicy) : Prop where
  bundle : ∃ blob bundle, original.evidence.workflowBundle = some blob ∧
    blob.bytes host.verify.sha256 Evidence.maxIdentityBytes = .ok bundle ∧
    Authenticated (identityHost host) original.receiptBytes bundle policy
  /-- The statement claims this workflow and no other. -/
  claimed : original.evidence.workflow = some policy.identity

theorem authenticated_eq_ok {policy : IdentityPolicy} {identity : IdentityVerification} :
    authenticated host original policy = .ok identity ↔
      Authorised host original policy ∧ identity = policy.identity := by
  simp only [authenticated, except_bind_eq_ok, Identity.context_eq_ok, mapError_eq_ok, refuseIf_eq_ok,
    exists_const, not_not, pure, Except.pure, Except.ok.injEq, Identity.verifyReceiptIdentity_eq_ok]
  constructor
  · intro h
    obtain ⟨blob, hblob, bundle, hbundle, found, ⟨hauthenticated, rfl⟩, hclaimed, rfl⟩ := h
    exact ⟨⟨⟨blob, bundle, hblob, hbundle, hauthenticated⟩, hclaimed.symm⟩, rfl⟩
  · intro h
    obtain ⟨⟨⟨blob, bundle, hblob, hbundle, hauthenticated⟩, hclaimed⟩, rfl⟩ := h
    exact ⟨blob, hblob, bundle, hbundle, _, ⟨hauthenticated, rfl⟩, hclaimed.symm, rfl⟩

/-- The delivered files are the ones that the receipt lists. -/
structure DeliveredWhole (host : ImportHost) (fs : FileSystem) (receipt : Receipt) (root : Path) :
    Prop where
  bound : Bound receipt
  delivered : ∀ provenance ∈ receipt.provenance, ∀ artifact ∈ provenance.artifacts, ∃ bytes,
    artifactBytes fs root artifact = .ok bytes ∧
      hexEncode (host.verify.crates.blake3 bytes).toList = artifact.digest

theorem deliveredArtifact_eq_ok {root : Path} {artifact : ArtifactInfo} :
    deliveredArtifact host fs root artifact = .ok () ↔ ∃ bytes,
      artifactBytes fs root artifact = .ok bytes ∧
        hexEncode (host.verify.crates.blake3 bytes).toList = artifact.digest := by
  simp only [deliveredArtifact, except_bind_eq_ok, refuseIf_eq_ok, not_not]

theorem deliveredArtifacts_eq_ok {root : Path} : deliveredArtifacts host fs original root = .ok () ↔
    DeliveredWhole host fs original.receipt root := by
  simp only [deliveredArtifacts, except_bind_eq_ok, refuseIf_eq_ok, exists_const,
    artifactBinding_eq_unavailable, not_not, forM_eq_ok, deliveredArtifact_eq_ok]
  unfold listedArtifacts
  cases hprovenance : original.receipt.provenance with
  | none =>
    simp only [reduceCtorEq, false_and, exists_false, and_false, false_iff]
    intro h
    obtain ⟨provenance, hsome, _⟩ := h.bound
    rw [hprovenance] at hsome
    cases hsome
  | some provenance =>
    simp only [Except.ok.injEq, exists_eq_left']
    constructor
    · intro h
      refine ⟨h.1, ?_⟩
      intro other hother
      rw [hprovenance] at hother
      obtain rfl := Option.some.inj hother
      exact h.2
    · intro h
      exact ⟨h.bound, h.delivered provenance hprovenance⟩

end Admitted

section Checks
variable {host : ImportHost} {trust : Files} {fs : FileSystem} {options : ImportOptions}
  {now : DateTime} {statement : Statement} {original : Original} {nested : ReceiptVerdict}
  {envelope : Envelope} {payload : Bytes} {label : String}

@[simp] theorem name_consistency : (consistencyCheck host statement).name = "consistency" := by
  unfold consistencyCheck
  split <;> rfl

@[simp] theorem name_identity : (identityCheck host options original).name = "identity" := by
  unfold identityCheck
  split
  next => rfl
  next => split <;> rfl

@[simp] theorem name_artifacts : (artifactsCheck host fs options original).name = "artifacts" := by
  unfold artifactsCheck
  split
  next => rfl
  next => split <;> rfl

theorem consistency_ne_fail : (consistencyCheck host statement).status ≠ .fail ↔
    consistencyProblems host statement = [] := by
  unfold consistencyCheck
  split
  next h => simp [h]
  next h => simp [h]

theorem envelopeSignature_ne_fail :
    (envelopeSignature host trust options envelope payload statement).check.status ≠ .fail ↔
      (envelopeSignature host trust options envelope payload statement).check.status = .pass := by
  unfold envelopeSignature
  rw [ne_eq, signatureCheck_fail_iff, not_not]

theorem identity_ne_fail : (identityCheck host options original).status ≠ .fail ↔
    ∀ policy ∈ options.identityPolicy, Authorised host original policy := by
  unfold identityCheck
  cases options.identityPolicy with
  | none => simp
  | some policy =>
    have hpass : (∃ identity, authenticated host original policy = .ok identity) ↔
        Authorised host original policy := by
      simp only [authenticated_eq_ok, exists_and_left, exists_eq, and_true]
    simp only [Option.mem_some_iff, forall_eq', ← hpass]
    cases authenticated host original policy with
    | error error => simp
    | ok identity => simp

theorem identity_pass (h : ∀ policy ∈ options.identityPolicy, Authorised host original policy) :
    (identityCheck host options original).status = .pass ↔ options.identityPolicy ≠ none := by
  have hfail := identity_ne_fail.mpr h
  unfold identityCheck at hfail ⊢
  cases hpolicy : options.identityPolicy with
  | none => simp
  | some policy =>
    simp only [hpolicy] at hfail ⊢
    cases hok : authenticated host original policy with
    | error error => simp [hok] at hfail
    | ok identity => simp

theorem artifacts_ne_fail : (artifactsCheck host fs options original).status ≠ .fail ↔
    ∀ root ∈ options.artifactRoot, DeliveredWhole host fs original.receipt root := by
  unfold artifactsCheck
  cases options.artifactRoot with
  | none => simp
  | some root =>
    simp only [Option.mem_some_iff, forall_eq', ← deliveredArtifacts_eq_ok]
    cases deliveredArtifacts host fs original root with
    | error error => simp
    | ok u => simp

theorem artifacts_pass
    (h : ∀ root ∈ options.artifactRoot, DeliveredWhole host fs original.receipt root) :
    (artifactsCheck host fs options original).status = .pass ↔ options.artifactRoot ≠ none := by
  have hfail := artifacts_ne_fail.mpr h
  unfold artifactsCheck at hfail ⊢
  cases hroot : options.artifactRoot with
  | none => simp
  | some root =>
    simp only [hroot] at hfail ⊢
    cases hok : deliveredArtifacts host fs original root with
    | error error => simp [hok] at hfail
    | ok u => simp

/-- What a verdict has to say for a requirement, where the receipt in the statement passed. -/
def Meets (options : ImportOptions) (nested : ReceiptVerdict) : Requirement → Prop
  | .signature => True
  | .timestamp => Established nested .timestamp
  | .trust => Established nested .trust
  | .success => Established nested .success
  | .identity => options.identityPolicy ≠ none
  | .artifacts => options.artifactRoot ≠ none
  | _ => False

/-- The checks by which a current statement is judged, in order. -/
def currentChecks (host : ImportHost) (trust : Files) (fs : FileSystem) (options : ImportOptions)
    (envelope : Envelope) (payload : Bytes) (statement : Statement) (original : Original)
    (nested : ReceiptVerdict) : List Check :=
  let signature := envelopeSignature host trust options envelope payload statement
  [⟨"schema", .pass, "DSSE envelope and in-toto statement match schema"⟩,
    consistencyCheck host statement, { signature.check with name := "dsse-signature" }] ++
  originalChecks host fs options original nested ++
  [combinedCheck statement (signature.check.status == .pass) nested.passed]

/-- The verdict before the policy, where the evidence opens. -/
def currentVerdict (host : ImportHost) (trust : Files) (fs : FileSystem) (options : ImportOptions)
    (label : String) (envelope : Envelope) (payload : Bytes) (statement : Statement)
    (original : Original) (nested : ReceiptVerdict) : ReceiptVerdict :=
  (((envelopeVerdict host trust options label envelope payload statement).withOriginal host fs options
    original nested).withChecks [combinedCheck statement
      ((envelopeSignature host trust options envelope payload statement).check.status == .pass)
      nested.passed]).toReceiptVerdict

theorem checks_currentVerdict :
    (currentVerdict host trust fs options label envelope payload statement original nested).checks =
      currentChecks host trust fs options envelope payload statement original nested := rfl

/-- Which check of the receipt is taken over. -/
theorem timestamp_mem {check : Check}
    (h : check ∈ (nested.checks.find? fun check => check.name == "timestamp").toList) :
    check ∈ nested.checks ∧ check.name = "timestamp" := by
  rw [Option.mem_toList] at h
  exact ⟨List.mem_of_find?_eq_some h, by simpa using List.find?_some h⟩

theorem no_fail_currentChecks (hnested : ∀ check ∈ nested.checks, check.status ≠ .fail) :
    (∀ check ∈ currentChecks host trust fs options envelope payload statement original nested,
      check.status ≠ .fail) ↔
    consistencyProblems host statement = [] ∧
    (envelopeSignature host trust options envelope payload statement).check.status = .pass ∧
    nested.passed = true ∧ (∀ policy ∈ options.identityPolicy, Authorised host original policy) ∧
    ∀ root ∈ options.artifactRoot, DeliveredWhole host fs original.receipt root := by
  have htimestamp : ∀ check ∈ (nested.checks.find? fun check => check.name == "timestamp").toList,
      check.status ≠ .fail := fun check hcheck => hnested check (timestamp_mem hcheck).1
  have hnil : ∀ check ∈ ([] : List Check), check.status ≠ .fail := by simp
  simp only [currentChecks, originalChecks, List.forall_mem_append, List.forall_mem_cons,
    iff_true_intro hnil, and_true, consistency_ne_fail, envelopeSignature_ne_fail, identity_ne_fail,
    artifacts_ne_fail, combinedCheck]
  constructor
  · intro h
    obtain ⟨⟨⟨_, hconsistency, hsignature⟩, ⟨horiginal, _⟩, hidentity, hartifacts⟩, _⟩ := h
    have hpassed : nested.passed = true := by
      by_contra hnot
      rw [if_neg hnot] at horiginal
      exact horiginal rfl
    exact ⟨hconsistency, hsignature, hpassed, hidentity, hartifacts⟩
  · intro h
    obtain ⟨hconsistency, hsignature, hpassed, hidentity, hartifacts⟩ := h
    refine ⟨⟨⟨by simp, hconsistency, hsignature⟩, ⟨?_, htimestamp⟩, hidentity, hartifacts⟩, ?_⟩
    · simp [hpassed]
    · simp [hsignature, hpassed]

/-- Under another name nothing is taken over. -/
theorem find?_timestamp {name : String} :
    (nested.checks.find? fun check => check.name == "timestamp").toList.find?
        (fun check => check.name == name) =
      if name = "timestamp" then nested.checks.find? fun check => check.name == "timestamp"
      else none := by
  cases htimestamp : nested.checks.find? fun check => check.name == "timestamp" with
  | none => simp
  | some check =>
    have hname := (timestamp_mem (Option.mem_toList.mpr htimestamp)).2
    by_cases h : name = "timestamp"
    · simp [h, hname]
    · simp [h, hname, Ne.symm h]

/-- The check that is found under a name, of those of a current statement. -/
theorem established_currentVerdict {requirement : Requirement}
    (hfail : ∀ check ∈ currentChecks host trust fs options envelope payload statement original nested,
      check.status ≠ .fail) (hnested : ∀ check ∈ nested.checks, check.status ≠ .fail) :
    Established (currentVerdict host trust fs options label envelope payload statement original nested)
      requirement ↔ Meets options nested requirement := by
  obtain ⟨_, hsignature, hpassed, hidentity, hartifacts⟩ := (no_fail_currentChecks hnested).mp hfail
  cases requirement
  case trust => exact Iff.rfl
  case success => exact Iff.rfl
  all_goals
    simp only [Established, Requirement.checkName, Requirement.name, firstCheck_iff,
      checks_currentVerdict, currentChecks, originalChecks, Meets, List.find?_append,
      List.find?_cons, List.find?_nil, name_consistency, name_identity, name_artifacts, combinedCheck,
      find?_timestamp]
  all_goals simp [hsignature, hpassed, identity_pass hidentity, artifacts_pass hartifacts]

end Checks

/-! ### The envelope and its statement -/

section Envelope
variable {host : ImportHost} {trust : Files} {fs : FileSystem} {options : ImportOptions}
  {now : DateTime} {statement : Statement} {original : Original} {nested : ReceiptVerdict}
  {envelope : Envelope} {payload : Bytes} {label : String} {content : Bytes}

/-- The bytes of a file as an envelope with a statement. -/
structure Parses (host : ImportHost) (content : Bytes) (envelope : Envelope) (payload : Bytes)
    (statement : Statement) : Prop where
  read : ∃ value, host.readJson content = some value ∧ host.readEnvelope value = .ok envelope
  payloadType : envelope.payloadType = dssePayloadType
  decoded : Base64.decode envelope.payload = some payload
  parsed : host.readStatement payload = .ok statement
  type : statement.type = statementType
  predicateType : statement.predicateType = Projection.predicateType

theorem parseEnvelope_eq_ok {value : Json} :
    parseEnvelope host value = .ok (envelope, payload, statement) ↔
      host.readEnvelope value = .ok envelope ∧ envelope.payloadType = dssePayloadType ∧
        Base64.decode envelope.payload = some payload ∧ host.readStatement payload = .ok statement ∧
        statement.type = statementType ∧ statement.predicateType = predicateType := by
  simp only [parseEnvelope, except_bind_eq_ok, mapError_eq_ok, refuseIf_eq_ok, Identity.context_eq_ok,
    exists_const, not_not, pure, Except.pure, Except.ok.injEq, Prod.mk.injEq]
  constructor
  · intro h
    obtain ⟨_, henvelope, htype, _, hpayload, _, hstatement, hkind, hpredicate, rfl, rfl, rfl⟩ := h
    exact ⟨henvelope, htype, hpayload, hstatement, hkind, hpredicate⟩
  · intro h
    obtain ⟨henvelope, htype, hpayload, hstatement, hkind, hpredicate⟩ := h
    exact ⟨_, henvelope, htype, _, hpayload, _, hstatement, hkind, hpredicate, rfl, rfl, rfl⟩

/-- A statement that is coherent by itself. -/
structure Coherent (host : ImportHost) (statement : Statement) : Prop where
  buildType : statement.predicate.buildType = Projection.buildType ∨
    statement.predicate.buildType = legacyBuildType
  pipelineHash : isDigest statement.predicate.pipelineHash = true
  digests : ∀ descriptor ∈ statement.subject ++ statement.predicate.resolvedDependencies,
    isDigest descriptor.blake3 = true
  invocationId : isDigest statement.predicate.invocationId = true
  startedOn : ∃ time, host.parseRfc3339 statement.predicate.startedOn = some time
  finishedOn : ∃ time, host.parseRfc3339 statement.predicate.finishedOn = some time
  /-- An older statement names its builder and at least one output. -/
  legacy : statement.predicate.buildType = legacyBuildType →
    "https://alien6.com/attest@v".toList <+: statement.predicate.builder.toList ∧ statement.subject ≠ []

theorem timeProblem_eq_nil {name stamp : String} : timeProblem host name stamp = [] ↔
    ∃ time, host.parseRfc3339 stamp = some time := by
  unfold timeProblem
  cases host.parseRfc3339 stamp with
  | none => simp
  | some time => simp

theorem digestProblem_eq_nil {descriptor : ResourceDescriptor} :
    digestProblem descriptor = [] ↔ isDigest descriptor.blake3 = true := by
  unfold digestProblem
  split
  next h => simp [h]
  next h => simp [h]

theorem consistencyProblems_eq_nil : consistencyProblems host statement = [] ↔
    Coherent host statement := by
  simp only [consistencyProblems, List.append_eq_nil_iff, List.flatMap_eq_nil_iff,
    digestProblem_eq_nil, timeProblem_eq_nil, ite_eq_left_iff, ite_eq_right_iff,
    List.cons_ne_self, imp_false, not_not, not_and, and_assoc]
  constructor
  · intro h
    obtain ⟨hbuild, hpipeline, hdigests, hinvocation, hstarted, hfinished, hbuilder, hsubject⟩ := h
    refine ⟨?_, hpipeline, hdigests, hinvocation, hstarted, hfinished, ?_⟩
    · by_cases hcurrent : statement.predicate.buildType = buildType
      · exact .inl hcurrent
      · exact .inr (hbuild hcurrent)
    · intro hlegacy
      exact ⟨hbuilder hlegacy, fun hempty => hsubject hempty hlegacy⟩
  · intro h
    exact ⟨fun hother => h.buildType.resolve_left hother, h.pipelineHash, h.digests, h.invocationId,
      h.startedOn, h.finishedOn, fun hlegacy => (h.legacy hlegacy).1,
      fun hempty hlegacy => (h.legacy hlegacy).2 hempty⟩

/-- An entry that lets a statement pass: that of a trusted key, or that of a revoked one where the
caller takes the statement's own time and the key was not revoked before it. -/
def Lets (host : ImportHost) (options : ImportOptions) (statement : Statement)
    (entry : Trust.TrustEntry) : Prop :=
  entry.status = .trusted ∨ entry.status = .revoked ∧ options.trustStatementTime = true ∧
    (host.parseRfc3339 statement.predicate.finishedOn).getD maxUtc ≤
      entry.revokedAt.getD .minUtc

/-- The sole signature of an envelope, by a key of the recipient's trust store. -/
structure Signs (host : ImportHost) (trust : Files) (options : ImportOptions) (envelope : Envelope)
    (payload : Bytes) (statement : Statement) : Prop where
  sole : ∃ keyid sig hex signature keys policy entry, envelope.signatures = [⟨keyid, sig⟩] ∧
    trustDirPublicKeys host.verify.crates ((trust.store options.ofEnvelope.store).getD {}) = .ok keys ∧
    keys.lookup keyid = some hex ∧ Base64.decode sig = some signature ∧
    verifyWithPublicKey host.verify.crates hex (pae envelope.payloadType payload)
      (hexEncode signature) = .ok true ∧
    TrustPolicy.load host.verify.crates options.ofEnvelope.store
      ((trust.store options.ofEnvelope.store).getD {}) = .ok policy ∧
    policy.entry keyid = some entry ∧ Lets host options statement entry

theorem judgeEntry_pass {keyid hex : String} {entry : Option Trust.TrustEntry} :
    (judgeEntry host.parseRfc3339 keyid hex entry ⟨statement.predicate.finishedOn⟩
        options.ofEnvelope).check.status = .pass ↔
      ∃ found, entry = some found ∧ Lets host options statement found := by
  unfold judgeEntry Lets
  cases entry with
  | none => simp [refused]
  | some entry =>
    cases hstatus : entry.status with
    | trusted => simp [hstatus]
    | revoked =>
      simp only [judgeRevokedStatement, ImportOptions.ofEnvelope, Option.some.injEq, exists_eq_left',
        hstatus, reduceCtorEq, false_or, true_and]
      by_cases htime : options.trustStatementTime = true
      · simp only [htime, Bool.not_true, Bool.false_eq_true, if_false, true_and]
        split
        next h => simp [refused, h]
        next h => simp [not_lt.mp h]
      · simp [htime, refused]

/-- The check of the envelope passes by its sole signature. -/
theorem envelopeSignature_pass :
    (envelopeSignature host trust options envelope payload statement).check.status = .pass ↔
      Signs host trust options envelope payload statement := by
  unfold envelopeSignature signatureCheck
  constructor
  · intro h
    split at h
    next => cases h
    next => cases h
    next signature hsignatures =>
      simp only at h
      split at h
      next => cases h
      next keys hkeys =>
        split at h
        next => cases h
        next hex hhex =>
          split at h
          next => cases h
          next bytes hbytes =>
            split at h
            next => cases h
            next => cases h
            next hverify =>
              split at h
              next => cases h
              next policy hload =>
                obtain ⟨entry, hentry, hlets⟩ := judgeEntry_pass.mp h
                exact ⟨⟨_, _, hex, bytes, keys, policy, entry, hsignatures, hkeys, hhex, hbytes,
                  hverify, hload, hentry, hlets⟩⟩
  · intro h
    obtain ⟨⟨keyid, sig, hex, bytes, keys, policy, entry, hsignatures, hkeys, hhex, hbytes, hverify,
      hload, hentry, hlets⟩⟩ := h
    simp only [hsignatures, hkeys, hhex, hbytes, hverify, hload]
    exact judgeEntry_pass.mpr ⟨entry, hentry, hlets⟩

end Envelope

/-! ### What passes -/

section Passes
variable {host : ImportHost} {trust : Files} {fs : FileSystem} {options : ImportOptions}
  {now : DateTime} {statement : Statement} {original : Original} {nested : ReceiptVerdict}
  {envelope : Envelope} {payload : Bytes} {label : String} {content : Bytes}

/-- A current statement: the receipt in it passes by the recipient's own trust, and so does
everything that was asked for besides. -/
structure AdmittedWith (host : ImportHost) (trust : Files) (fs : FileSystem) (options : ImportOptions)
    (now : DateTime) (statement : Statement) (original : Original) (nested : ReceiptVerdict) :
    Prop where
  opens : Opens host statement original
  verified : verifyReceiptBytes host.verify trust original.receiptBytes "embedded original receipt"
    (originalOptions options) now = .ok nested
  passed : nested.passed = true
  authorised : ∀ policy ∈ options.identityPolicy, Authorised host original policy
  delivered : ∀ root ∈ options.artifactRoot, DeliveredWhole host fs original.receipt root
  required : ∀ requirement ∈ options.required, Meets options nested requirement

/-- What a current statement that is let pass rests on. -/
def Admitted (host : ImportHost) (trust : Files) (fs : FileSystem) (options : ImportOptions)
    (now : DateTime) (statement : Statement) : Prop :=
  ∃ original nested, AdmittedWith host trust fs options now statement original nested

/-- An older statement establishes the signature of its envelope and nothing else. -/
def SignatureOnly (options : ImportOptions) : Prop :=
  options.identityPolicy = none ∧ ∀ requirement ∈ options.required, requirement = .signature

/-- A verdict comes from the policy, which fails where a check does. -/
theorem no_fail_of_verified {b : Backend} {bytes : Bytes} {opts : VerifyOptions}
    (h : verifyReceiptBytes b trust bytes label opts now = .ok nested) (hpassed : nested.passed = true) :
    ∀ check ∈ nested.checks, check.status ≠ .fail := by
  have happlied : ∃ verdict, nested = applyPolicy verdict opts.required := by
    unfold verifyReceiptBytes at h
    split at h
    next => cases h
    next =>
      split at h
      next => exact ⟨_, (Except.ok.inj h).symm⟩
      next =>
        split at h
        next => exact ⟨_, (Except.ok.inj h).symm⟩
        next => exact ⟨_, (Except.ok.inj h).symm⟩
  obtain ⟨verdict, rfl⟩ := happlied
  exact (passed_applyPolicy.mp hpassed).1

theorem forall_effectivePolicy {p : Requirement → Prop} (h : ∀ requirement, requirement = .identity →
    options.identityPolicy ≠ none → p requirement) :
    (∀ requirement ∈ effectivePolicy options, p requirement) ↔
      ∀ requirement ∈ options.required, p requirement := by
  unfold effectivePolicy
  split
  next hsome =>
    simp only [mem_alsoRequire]
    constructor
    · intro hall requirement hrequirement
      exact hall requirement (.inl hrequirement)
    · intro hall requirement hrequirement
      rcases hrequirement with hrequirement | hidentity
      · exact hall requirement hrequirement
      · exact h requirement hidentity (Option.isSome_iff_ne_none.mp hsome)
  next => exact Iff.rfl

theorem passed_applied {verdict : ImportVerdict} : (verdict.applied options).passed = true ↔
    (∀ check ∈ verdict.checks, check.status ≠ .fail) ∧
      ∀ requirement ∈ effectivePolicy options, Established verdict.toReceiptVerdict requirement :=
  passed_iff_established

theorem judgeEvidence_legacy {verdict : ImportVerdict}
    (h : statement.predicate.buildType ≠ buildType) :
    judgeEvidence host trust fs options now statement verdict =
      ({ verdict.withChecks (legacyChecks options) with
        warnings := verdict.warnings ++ ["legacy projection: only the DSSE envelope is verified; " ++
          "original receipt signer, trusted time, workflow, artifact bytes and Attest trust " ++
          "semantics are unavailable"] }, true) := if_neg h

theorem judgeEvidence_opened {verdict : ImportVerdict}
    (h : statement.predicate.buildType = buildType) (hopens : openOriginal host statement = .ok original)
    (hverified : verifyReceiptBytes host.verify trust original.receiptBytes
      "embedded original receipt" (originalOptions options) now = .ok nested) :
    judgeEvidence host trust fs options now statement verdict =
      (verdict.withOriginal host fs options original nested, nested.passed) := by
  have hnested : verifyOriginal host trust options now original = .ok nested :=
    mapError_eq_ok.mpr hverified
  rw [judgeEvidence, if_pos h, verifyOriginalProjection, hopens, except_ok_bind, hnested,
    except_ok_bind]
  rfl

/-- Evidence that is not read, or whose receipt is not, fails. -/
theorem judgeEvidence_failed {verdict : ImportVerdict}
    (h : statement.predicate.buildType = buildType)
    (hno : ∀ original nested, openOriginal host statement = .ok original →
      verifyReceiptBytes host.verify trust original.receiptBytes "embedded original receipt"
        (originalOptions options) now ≠ .ok nested) :
    ∃ check, check.status = .fail ∧ judgeEvidence host trust fs options now statement verdict =
      (verdict.withChecks [check], false) := by
  rw [judgeEvidence, if_pos h]
  cases hresult : verifyOriginalProjection host trust fs options now statement verdict with
  | error error => exact ⟨_, rfl, rfl⟩
  | ok judged =>
    obtain ⟨original, hopens, hrest⟩ := except_bind_eq_ok.mp hresult
    obtain ⟨nested, hnested, _⟩ := except_bind_eq_ok.mp hrest
    exact absurd (mapError_eq_ok.mp hnested) (hno original nested hopens)

/-- The receipt of a statement passes where no check of the statement fails. -/
theorem passed_of_currentChecks
    (h : ∀ check ∈ currentChecks host trust fs options envelope payload statement original nested,
      check.status ≠ .fail) : nested.passed = true := by
  have hfirst := h _ (List.mem_append_left _ (List.mem_append_right _ (List.mem_cons_self ..)))
  by_contra hnot
  exact hfirst (if_neg hnot)

/-- What was required is met, of what the options require and of what they imply. -/
theorem established_iff_meets
    (hfail : ∀ check ∈ currentChecks host trust fs options envelope payload statement original nested,
      check.status ≠ .fail) (hnested : ∀ check ∈ nested.checks, check.status ≠ .fail) :
    (∀ requirement ∈ effectivePolicy options, Established (currentVerdict host trust fs options label
        envelope payload statement original nested) requirement) ↔
      ∀ requirement ∈ options.required, Meets options nested requirement := by
  simp only [established_currentVerdict hfail hnested]
  refine forall_effectivePolicy ?_
  intro requirement hrequirement hpolicy
  rw [hrequirement]
  exact hpolicy

/-- A statement of the current build type. -/
theorem current_passes (h : statement.predicate.buildType = buildType) :
    (statementVerdict host trust fs options now label envelope payload statement).passed = true ↔
      Coherent host statement ∧ Signs host trust options envelope payload statement ∧
        Admitted host trust fs options now statement := by
  by_cases hexists : ∃ original nested, openOriginal host statement = .ok original ∧
      verifyReceiptBytes host.verify trust original.receiptBytes "embedded original receipt"
        (originalOptions options) now = .ok nested
  · obtain ⟨original, nested, hopens, hverified⟩ := hexists
    rw [statementVerdict, judgeEvidence_opened h hopens hverified, passed_applied]
    have hunique : ∀ other verdict, AdmittedWith host trust fs options now statement other verdict →
        other = original ∧ verdict = nested := by
      intro other verdict hadmitted
      have hsame := Except.ok.inj ((openOriginal_eq_ok.mpr hadmitted.opens).symm.trans hopens)
      have hverdict := hadmitted.verified
      rw [hsame] at hverdict
      exact ⟨hsame, Except.ok.inj (hverdict.symm.trans hverified)⟩
    show (∀ check ∈ currentChecks host trust fs options envelope payload statement original nested,
      check.status ≠ .fail) ∧ (∀ requirement ∈ effectivePolicy options,
        Established (currentVerdict host trust fs options label envelope payload statement original
          nested) requirement) ↔ _
    constructor
    · intro hpasses
      obtain ⟨hfail, hmet⟩ := hpasses
      have hnested := no_fail_of_verified hverified (passed_of_currentChecks hfail)
      obtain ⟨hconsistency, hsignature, hpassed, hidentity, hartifacts⟩ :=
        (no_fail_currentChecks hnested).mp hfail
      refine ⟨consistencyProblems_eq_nil.mp hconsistency, envelopeSignature_pass.mp hsignature,
        original, nested, openOriginal_eq_ok.mp hopens, hverified, hpassed, hidentity, hartifacts, ?_⟩
      exact (established_iff_meets hfail hnested).mp hmet
    · intro hadmitted
      obtain ⟨hcoherent, hsigns, other, verdict, hadmitted⟩ := hadmitted
      obtain ⟨rfl, rfl⟩ := hunique other verdict hadmitted
      have hnested := no_fail_of_verified hverified hadmitted.passed
      have hfail := (no_fail_currentChecks hnested).mpr
        ⟨consistencyProblems_eq_nil.mpr hcoherent, envelopeSignature_pass.mpr hsigns,
          hadmitted.passed, hadmitted.authorised, hadmitted.delivered⟩
      exact ⟨hfail, (established_iff_meets hfail hnested).mpr hadmitted.required⟩
  · have hno : ¬ Admitted host trust fs options now statement := by
      intro hadmitted
      obtain ⟨original, nested, hadmitted⟩ := hadmitted
      exact hexists ⟨original, nested, openOriginal_eq_ok.mpr hadmitted.opens, hadmitted.verified⟩
    have hnone : ∀ original nested, openOriginal host statement = .ok original →
        verifyReceiptBytes host.verify trust original.receiptBytes "embedded original receipt"
          (originalOptions options) now ≠ .ok nested :=
      fun original nested hopens hverified => hexists ⟨original, nested, hopens, hverified⟩
    obtain ⟨check, hstatus, hjudged⟩ := judgeEvidence_failed h hnone
    refine iff_of_false ?_ fun hpasses => hno hpasses.2.2
    intro hpasses
    rw [statementVerdict, hjudged, passed_applied] at hpasses
    refine hpasses.1 check ?_ hstatus
    simp [ImportVerdict.withChecks]

/-- The verdict before the policy, where there is no evidence to open. -/
def legacyVerdict (host : ImportHost) (trust : Files) (options : ImportOptions) (label : String)
    (envelope : Envelope) (payload : Bytes) (statement : Statement) : ReceiptVerdict :=
  let verdict := envelopeVerdict host trust options label envelope payload statement
  { verdict.toReceiptVerdict with
    checks := verdict.checks ++ legacyChecks options ++ [combinedCheck statement
      ((envelopeSignature host trust options envelope payload statement).check.status == .pass) true]
    warnings := verdict.warnings ++ ["legacy projection: only the DSSE envelope is verified; " ++
      "original receipt signer, trusted time, workflow, artifact bytes and Attest trust " ++
      "semantics are unavailable"] }

theorem no_fail_legacyVerdict :
    (∀ check ∈ (legacyVerdict host trust options label envelope payload statement).checks,
      check.status ≠ .fail) ↔
    consistencyProblems host statement = [] ∧
      (envelopeSignature host trust options envelope payload statement).check.status = .pass ∧
      options.identityPolicy = none := by
  have hnil : ∀ check ∈ ([] : List Check), check.status ≠ .fail := by simp
  simp only [legacyVerdict, envelopeVerdict, legacyChecks, List.forall_mem_append,
    List.forall_mem_cons, iff_true_intro hnil, and_true, consistency_ne_fail,
    envelopeSignature_ne_fail, combinedCheck]
  constructor
  · intro h
    obtain ⟨⟨⟨_, hconsistency, hsignature⟩, _, _, hidentity⟩, _⟩ := h
    refine ⟨hconsistency, hsignature, ?_⟩
    by_contra hsome
    exact hidentity (if_pos (Option.isSome_iff_ne_none.mpr hsome))
  · intro h
    obtain ⟨hconsistency, hsignature, hidentity⟩ := h
    simp [hconsistency, hsignature, hidentity]

theorem established_legacyVerdict {requirement : Requirement}
    (hsignature : (envelopeSignature host trust options envelope payload statement).check.status = .pass)
    (hidentity : options.identityPolicy = none) :
    Established (legacyVerdict host trust options label envelope payload statement) requirement ↔
      requirement = .signature := by
  cases requirement
  case trust => simp [Established, Requirement.checkName, legacyVerdict, envelopeVerdict]
  case success => simp [Established, Requirement.checkName, legacyVerdict, envelopeVerdict]
  all_goals
    simp only [Established, Requirement.checkName, Requirement.name, firstCheck_iff, legacyVerdict,
      envelopeVerdict, legacyChecks, List.find?_append, List.find?_cons, List.find?_nil,
      name_consistency, combinedCheck]
  all_goals simp [hsignature, hidentity]

/-- A statement of another build type. -/
theorem legacy_passes (h : statement.predicate.buildType ≠ buildType) :
    (statementVerdict host trust fs options now label envelope payload statement).passed = true ↔
      Coherent host statement ∧ Signs host trust options envelope payload statement ∧
        SignatureOnly options := by
  rw [statementVerdict, judgeEvidence_legacy h, passed_applied, ← consistencyProblems_eq_nil,
    ← envelopeSignature_pass]
  show (∀ check ∈ (legacyVerdict host trust options label envelope payload statement).checks,
    check.status ≠ .fail) ∧ (∀ requirement ∈ effectivePolicy options,
      Established (legacyVerdict host trust options label envelope payload statement) requirement) ↔ _
  rw [no_fail_legacyVerdict, SignatureOnly]
  constructor
  · intro hpasses
    obtain ⟨⟨hconsistency, hsignature, hidentity⟩, hmet⟩ := hpasses
    refine ⟨hconsistency, hsignature, hidentity, ?_⟩
    intro requirement hrequirement
    rw [effectivePolicy, hidentity] at hmet
    exact (established_legacyVerdict hsignature hidentity).mp (hmet requirement hrequirement)
  · intro hpasses
    obtain ⟨hconsistency, hsignature, hidentity, honly⟩ := hpasses
    refine ⟨⟨hconsistency, hsignature, hidentity⟩, ?_⟩
    rw [effectivePolicy, hidentity]
    intro requirement hrequirement
    exact (established_legacyVerdict hsignature hidentity).mpr (honly requirement hrequirement)

theorem buildType_ne : (buildType = legacyBuildType) = False := by decide

theorem legacyBuildType_ne : legacyBuildType ≠ buildType := fun h => buildType_ne.mp h.symm

theorem unparsed_fails (error : String) :
    ¬ (unparsedVerdict options label error).passed = true := by
  intro h
  rw [unparsedVerdict, passed_applied] at h
  exact h.1 _ (List.mem_cons_self ..) rfl

/-- The verdict on a file that parses. -/
theorem passes_of_parses (hlength : content.length ≤ maxStatementBytes)
    (hparses : Parses host content envelope payload statement) :
    (∃ verdict, importStatement host trust fs options now label content = .ok verdict ∧
        verdict.passed = true) ↔
      Coherent host statement ∧ Signs host trust options envelope payload statement ∧
        (statement.predicate.buildType = buildType ∧
            Admitted host trust fs options now statement ∨
          statement.predicate.buildType = legacyBuildType ∧ SignatureOnly options) := by
  obtain ⟨value, hvalue, henvelope⟩ := hparses.read
  have hparse : parseEnvelope host value = .ok (envelope, payload, statement) :=
    parseEnvelope_eq_ok.mpr ⟨henvelope, hparses.payloadType, hparses.decoded, hparses.parsed,
      hparses.type, hparses.predicateType⟩
  have hresult : importStatement host trust fs options now label content =
      .ok (statementVerdict host trust fs options now label envelope payload statement) := by
    refine except_bind_eq_ok.mpr ⟨(), refuseIf_eq_ok.mpr (not_lt.mpr hlength), ?_⟩
    refine except_bind_eq_ok.mpr ⟨value, Identity.context_eq_ok.mpr hvalue, ?_⟩
    rw [hparse]
    rfl
  simp only [hresult, Except.ok.injEq, exists_eq_left']
  by_cases hbuild : statement.predicate.buildType = buildType
  · have hlegacy : statement.predicate.buildType ≠ legacyBuildType := by
      rw [hbuild]
      exact legacyBuildType_ne.symm
    simp only [current_passes hbuild, hbuild, true_and, buildType_ne, false_and, or_false]
  · rw [legacy_passes hbuild]
    simp only [hbuild, false_and, false_or]
    constructor
    · intro hpasses
      exact ⟨hpasses.1, hpasses.2.1, hpasses.1.buildType.resolve_left hbuild, hpasses.2.2⟩
    · intro hpasses
      exact ⟨hpasses.1, hpasses.2.1, hpasses.2.2.2⟩

/-- **Which statements a recipient's import lets pass.** -/
theorem importStatement_passes_iff :
    (∃ verdict, importStatement host trust fs options now label content = .ok verdict ∧
        verdict.passed = true) ↔
      content.length ≤ maxStatementBytes ∧ ∃ envelope payload statement,
        Parses host content envelope payload statement ∧ Coherent host statement ∧
        Signs host trust options envelope payload statement ∧
        (statement.predicate.buildType = buildType ∧
            Admitted host trust fs options now statement ∨
          statement.predicate.buildType = legacyBuildType ∧ SignatureOnly options) := by
  constructor
  · intro h
    obtain ⟨verdict, hverdict, hpassed⟩ := h
    obtain ⟨_, hlength, hrest⟩ := except_bind_eq_ok.mp hverdict
    obtain ⟨value, hvalue, hrest⟩ := except_bind_eq_ok.mp hrest
    have hlength : content.length ≤ maxStatementBytes := not_lt.mp (refuseIf_eq_ok.mp hlength)
    split at hrest
    next error _ =>
      obtain rfl := Except.ok.inj hrest
      exact absurd hpassed (unparsed_fails error)
    next envelope payload statement hparse =>
      obtain ⟨henvelope, htype, hpayload, hstatement, hkind, hpredicate⟩ :=
        parseEnvelope_eq_ok.mp hparse
      have hparses : Parses host content envelope payload statement :=
        ⟨⟨value, Identity.context_eq_ok.mp hvalue, henvelope⟩, htype, hpayload, hstatement, hkind,
          hpredicate⟩
      exact ⟨hlength, envelope, payload, statement, hparses,
        (passes_of_parses hlength hparses).mp ⟨verdict, hverdict, hpassed⟩⟩
  · intro h
    obtain ⟨hlength, envelope, payload, statement, hparses, hpasses⟩ := h
    exact (passes_of_parses hlength hparses).mpr hpasses

end Passes

end Attest.Interop.Projection
