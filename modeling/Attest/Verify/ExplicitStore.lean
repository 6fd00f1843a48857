import Attest.Verify.Signatures

/-! A trust store that is named.

When the caller names a trust store, the signature check reads that store and, through
it, the timestamp authorities. It reads nothing under the workspace as long as the
store is a directory. When it is not, the check goes on to the workspace's own
`public.key`, and a signature that verifies passes or not by what lies there. -/
namespace Attest.Verify
open Trust Storage

/-- The status of the signature check in a verdict. -/
def ReceiptVerdict.signatureStatus (verdict : ReceiptVerdict) : Option CheckStatus :=
  (verdict.checks.find? fun check => check.name == "signature").map Check.status

/-- The path leads to this store, with these authorities. -/
structure HoldsAt (files : Files) (path : String) (store : Option TrustDir) (tsa : List Bytes) :
    Prop where
  store : files.store path = store
  tsa : files.tsaIssuers path = tsa

/-- The options with another workspace. -/
def VerifyOptions.inWorkspace (opts : VerifyOptions) (workspace : String) : VerifyOptions :=
  { opts with workspace := workspace }

/-- What the path holds decides the status of the signature check, whatever the workspace and the
files in it. -/
def StoreDecides (b : Backend) (content : Bytes) (label : String) (opts : VerifyOptions)
    (now : DateTime) (path : String) (store : Option TrustDir) (tsa : List Bytes) : Prop :=
  ∀ files₁ files₂ workspace₁ workspace₂, HoldsAt files₁ path store tsa →
    HoldsAt files₂ path store tsa →
    (verifyReceiptBytes b files₁ content label (opts.inWorkspace workspace₁) now).map
        ReceiptVerdict.signatureStatus =
      (verifyReceiptBytes b files₂ content label (opts.inWorkspace workspace₂) now).map
        ReceiptVerdict.signatureStatus

/-- The bytes are a receipt of a schema the verifier reads. -/
def ReadsAs (b : Backend) (content : Bytes) (receipt : Receipt) : Prop :=
  ∃ document, b.readYaml content = .ok document ∧
    (document.schemaVersion.filter fun v => receiptSchemaVersion.toNat < v.toNat) = none ∧
    document.receipt = .ok receipt

/-- The check is asked for, and gets as far as asking who signed: the bytes are a receipt whose
signature verifies under a key it names as hex is written. -/
def AsksForSigner (b : Backend) (content : Bytes) (opts : VerifyOptions) : Prop :=
  opts.checkSignatures = true ∧
    ∃ receipt key, ReadsAs b content receipt ∧ SignedBy b receipt (keyHex key)

section Status
variable {b : Backend} {files : Files} {receipt : Receipt} {opts : VerifyOptions}

theorem name_consistencyCheck : (consistencyCheck receipt).name = "consistency" := by
  unfold consistencyCheck
  split
  next => rfl
  next => rfl

theorem name_signatureCheck {trustedTime : Option DateTime} :
    (signatureCheck b files receipt opts trustedTime).check.name = "signature" := by
  unfold signatureCheck
  split
  next =>
    split
    next => rfl
    next =>
      split
      next => rfl
      next => rfl
      next => rfl
  next => rfl

theorem name_optionalSignatureCheck {trustedTime : Option DateTime} :
    (optionalSignatureCheck b files receipt opts trustedTime).check.name = "signature" := by
  unfold optionalSignatureCheck
  split
  next => exact name_signatureCheck
  next => rfl

theorem signatureStatus_receiptVerdict {label : String} {now : DateTime} :
    (receiptVerdict b files receipt label opts now).signatureStatus =
      some (optionalSignatureCheck b files receipt opts
        (timestampCheck b files receipt opts).2).check.status := by
  simp only [ReceiptVerdict.signatureStatus, receiptVerdict, applyPolicy, List.find?_cons,
    name_consistencyCheck, name_optionalSignatureCheck]
  rfl

/-- The verdict on bytes that are a receipt, as far as the signature goes. -/
theorem signatureStatus_of_readsAs {content : Bytes} {label : String} {now : DateTime}
    (h : ReadsAs b content receipt) :
    (verifyReceiptBytes b files content label opts now).map ReceiptVerdict.signatureStatus =
      .ok (some (optionalSignatureCheck b files receipt opts
        (timestampCheck b files receipt opts).2).check.status) := by
  obtain ⟨document, hyaml, hschema, hreceipt⟩ := h
  simp only [verifyReceiptBytes, hyaml, hschema, hreceipt, Except.map]
  rw [signatureStatus_receiptVerdict]

/-- The verdict on other bytes depends on no file. -/
theorem verifyReceiptBytes_of_not_readsAs {content : Bytes} {label : String} {now : DateTime}
    (h : ∀ receipt, ¬ ReadsAs b content receipt) (files' : Files) (workspace : String) :
    verifyReceiptBytes b files content label opts now =
      verifyReceiptBytes b files' content label (opts.inWorkspace workspace) now := by
  unfold verifyReceiptBytes
  cases hyaml : b.readYaml content with
  | error err => rfl
  | ok document =>
    simp only
    cases hschema : document.schemaVersion.filter fun v => receiptSchemaVersion.toNat < v.toNat with
    | some v => rfl
    | none =>
      simp only
      cases hreceipt : document.receipt with
      | error err => rfl
      | ok receipt => exact absurd ⟨document, hyaml, hschema, hreceipt⟩ (h receipt)

end Status

section Decides
variable {b : Backend} {opts : VerifyOptions} {path : String}

theorem store_inWorkspace (hstore : opts.trustStore = some path) (workspace : String) :
    (opts.inWorkspace workspace).store = path := by
  unfold VerifyOptions.store VerifyOptions.inWorkspace
  rw [hstore, Option.getD_some]

/-- The time a token attests depends on the authorities at the path alone. -/
theorem timestampCheck_eq (hstore : opts.trustStore = some path) {files₁ files₂ : Files}
    {store : Option TrustDir} {tsa : List Bytes} (h₁ : HoldsAt files₁ path store tsa)
    (h₂ : HoldsAt files₂ path store tsa) (receipt : Receipt) (workspace₁ workspace₂ : String) :
    timestampCheck b files₁ receipt (opts.inWorkspace workspace₁) =
      timestampCheck b files₂ receipt (opts.inWorkspace workspace₂) := by
  simp only [timestampCheck, store_inWorkspace hstore, h₁.tsa, h₂.tsa]

/-- The workspace's own key is trusted for its own hex only. -/
theorem localTrust_trusted {node : Option (Node Bytes)} {hex : String}
    (h : localTrust node hex = .ok .trusted) : ∃ key, hex = keyHex key := by
  unfold localTrust at h
  split at h
  · split at h
    · cases h
    next bytes _ =>
      split at h
      next hkey =>
        obtain ⟨hlength, rfl⟩ := hkey
        exact ⟨⟨⟨bytes.toArray, by simpa using hlength⟩⟩, by simp [keyHex, Vector.toList]⟩
      next => cases h
  · cases h

theorem localTrust_not_revoked {node : Option (Node Bytes)} {hex : String} {revokedAt : DateTime} :
    localTrust node hex ≠ .ok (.revoked revokedAt) := by
  unfold localTrust
  split
  · split
    · simp
    · split
      · simp
      · simp
  · simp

/-- Without a store, a signature passes by the workspace's key alone. -/
theorem pass_of_no_store {files : Files} {receipt : Receipt} {trustedTime : Option DateTime}
    (hnone : files.store opts.store = none)
    (h : (signatureCheck b files receipt opts trustedTime).check.status = .pass) :
    ∃ key, SignedBy b receipt (keyHex key) ∧
      localTrust (files.file (localKeyPath opts.workspace)) (keyHex key) = .ok .trusted := by
  obtain ⟨hex, hsigned, hpassed⟩ := signatureCheck_pass_iff.mp h
  rw [keyTrustStatus, hnone, judgeSigned_passed_iff] at hpassed
  rcases hpassed with htrusted | ⟨_, _, hrevoked, -⟩
  · obtain ⟨key, rfl⟩ := localTrust_trusted htrusted
    exact ⟨key, hsigned, htrusted⟩
  · exact absurd hrevoked localTrust_not_revoked

theorem signatureCheck_of_store (hstore : opts.trustStore = some path) {files₁ files₂ : Files}
    {dir : TrustDir} {tsa : List Bytes} (h₁ : HoldsAt files₁ path (some dir) tsa)
    (h₂ : HoldsAt files₂ path (some dir) tsa) (receipt : Receipt)
    (trustedTime : Option DateTime) (workspace₁ workspace₂ : String) :
    signatureCheck b files₁ receipt (opts.inWorkspace workspace₁) trustedTime =
      signatureCheck b files₂ receipt (opts.inWorkspace workspace₂) trustedTime := by
  simp only [signatureCheck, keyTrustStatus, store_inWorkspace hstore, h₁.store, h₂.store]
  rfl

/-- A store that is a directory decides. -/
theorem storeDecides_of_dir (hstore : opts.trustStore = some path) (content : Bytes)
    (label : String) (now : DateTime) (dir : TrustDir) (tsa : List Bytes) :
    StoreDecides b content label opts now path (some dir) tsa := by
  intro files₁ files₂ workspace₁ workspace₂ h₁ h₂
  by_cases hreads : ∃ receipt, ReadsAs b content receipt
  · obtain ⟨receipt, hreads⟩ := hreads
    rw [signatureStatus_of_readsAs hreads, signatureStatus_of_readsAs hreads,
      timestampCheck_eq hstore h₁ h₂ receipt workspace₁ workspace₂]
    simp only [optionalSignatureCheck,
      signatureCheck_of_store hstore h₁ h₂ receipt _ workspace₁ workspace₂]
    rfl
  · have hnot : ∀ receipt, ¬ ReadsAs b content receipt := fun receipt h => hreads ⟨receipt, h⟩
    rw [verifyReceiptBytes_of_not_readsAs hnot files₂ workspace₂]
    rfl

/-- Without a store, the workspace has no say as long as nobody asks who signed. -/
theorem storeDecides_of_not_asks (hstore : opts.trustStore = some path) {content : Bytes}
    (hasks : ¬ AsksForSigner b content opts) (label : String) (now : DateTime) (tsa : List Bytes) :
    StoreDecides b content label opts now path none tsa := by
  intro files₁ files₂ workspace₁ workspace₂ h₁ h₂
  by_cases hreads : ∃ receipt, ReadsAs b content receipt
  · obtain ⟨receipt, hreads⟩ := hreads
    rw [signatureStatus_of_readsAs hreads, signatureStatus_of_readsAs hreads]
    by_cases hcheck : opts.checkSignatures = true
    · -- asked for, and failing in both workspaces
      have hfail : ∀ (files : Files) (workspace : String) (trustedTime : Option DateTime),
          files.store path = none →
          (optionalSignatureCheck b files receipt (opts.inWorkspace workspace)
            trustedTime).check.status = .fail := by
        intro files workspace trustedTime hnone
        have hcheck' : (opts.inWorkspace workspace).checkSignatures = true := hcheck
        rw [optionalSignatureCheck, if_pos hcheck', signatureCheck_fail_iff]
        intro hpass
        have hnone' : files.store (opts.inWorkspace workspace).store = none := by
          rw [store_inWorkspace hstore, hnone]
        obtain ⟨key, hsigned, -⟩ := pass_of_no_store hnone' hpass
        exact hasks ⟨hcheck, receipt, key, hreads, hsigned⟩
      rw [hfail files₁ workspace₁ _ h₁.store, hfail files₂ workspace₂ _ h₂.store]
    · have hskip : ∀ (files : Files) (workspace : String) (trustedTime : Option DateTime),
          (optionalSignatureCheck b files receipt (opts.inWorkspace workspace)
            trustedTime).check.status = .skipped := by
        intro files workspace trustedTime
        have hcheck' : ¬ (opts.inWorkspace workspace).checkSignatures = true := hcheck
        rw [optionalSignatureCheck, if_neg hcheck']
      rw [hskip, hskip]
  · have hnot : ∀ receipt, ¬ ReadsAs b content receipt := fun receipt h => hreads ⟨receipt, h⟩
    rw [verifyReceiptBytes_of_not_readsAs hnot files₂ workspace₂]
    rfl

/-- The files of a workspace whose own key is this one, or that has none, and no store. -/
def onlyLocalKey (tsa : List Bytes) (node : Option (Node Bytes)) : Files :=
  ⟨fun _ => none, fun _ => tsa, fun _ => node⟩

/-- Without a store, the key under the workspace decides once somebody asks who signed. -/
theorem status_onlyLocalKey {content : Bytes} (hcheck : opts.checkSignatures = true)
    {receipt : Receipt} {key : VerifyingKey} (hreads : ReadsAs b content receipt)
    (hsigned : SignedBy b receipt (keyHex key)) (label : String) (now : DateTime)
    (tsa : List Bytes) (workspace : String) :
    (verifyReceiptBytes b (onlyLocalKey tsa (some (.file key.bytes.toList))) content label
        (opts.inWorkspace workspace) now).map ReceiptVerdict.signatureStatus = .ok (some .pass) ∧
      (verifyReceiptBytes b (onlyLocalKey tsa none) content label
        (opts.inWorkspace workspace) now).map ReceiptVerdict.signatureStatus =
          .ok (some .fail) := by
  have hcheck' : (opts.inWorkspace workspace).checkSignatures = true := hcheck
  rw [signatureStatus_of_readsAs hreads, signatureStatus_of_readsAs hreads]
  simp only [optionalSignatureCheck, if_pos hcheck']
  refine ⟨?_, ?_⟩
  · refine congrArg (fun status => Except.ok (some status)) ?_
    refine signatureCheck_pass_iff.mpr ⟨keyHex key, hsigned, judgeSigned_passed_iff.mpr (.inl ?_)⟩
    show localTrust (some (.file key.bytes.toList)) (keyHex key) = .ok .trusted
    simp [localTrust, isFile, contentOf, keyHex]
  · refine congrArg (fun status => Except.ok (some status)) ?_
    refine signatureCheck_fail_iff.mpr ?_
    intro hpass
    obtain ⟨_, -, htrusted⟩ := pass_of_no_store rfl hpass
    cases htrusted

/-- **A named store is the only source of trust exactly when it is a directory, or nobody asks who
signed.** -/
theorem explicit_store_decides_iff (hstore : opts.trustStore = some path) (content : Bytes)
    (label : String) (now : DateTime) (store : Option TrustDir) (tsa : List Bytes) :
    StoreDecides b content label opts now path store tsa ↔
      store.isSome = true ∨ ¬ AsksForSigner b content opts := by
  constructor
  · intro h
    by_contra hno
    obtain ⟨hnone, hasks⟩ := not_or.mp hno
    obtain ⟨hcheck, receipt, key, hreads, hsigned⟩ := not_not.mp hasks
    have hstore' : store = none := by simpa using hnone
    subst hstore'
    have heq := h (onlyLocalKey tsa (some (.file key.bytes.toList))) (onlyLocalKey tsa none) "" ""
      ⟨rfl, rfl⟩ ⟨rfl, rfl⟩
    obtain ⟨hpass, hfail⟩ := status_onlyLocalKey hcheck hreads hsigned label now tsa ""
    rw [hpass, hfail] at heq
    cases heq
  · rintro (hdir | hasks)
    · obtain ⟨dir, rfl⟩ := Option.isSome_iff_exists.mp hdir
      exact storeDecides_of_dir hstore content label now dir tsa
    · cases store with
      | some dir => exact storeDecides_of_dir hstore content label now dir tsa
      | none => exact storeDecides_of_not_asks hstore hasks label now tsa

end Decides

/-! ### A store that is not there -/

theorem explicit_store_decides_sample :
    StoreDecides sampleBackend sampleYaml "receipt.yaml" sampleOptions sampleDate "trust"
      (some (sampleStore sampleUndated)) [] :=
  (explicit_store_decides_iff rfl sampleYaml "receipt.yaml" sampleDate _ []).mpr (.inl rfl)

theorem readsAs_sampleYaml :
    ReadsAs sampleBackend sampleYaml (sampleSignedReceipt sampleDate sampleSignature) := by
  have hread : sampleBackend.readYaml sampleYaml =
      .ok ⟨some 3, .ok (sampleSignedReceipt sampleDate sampleSignature)⟩ := by
    simp only [sampleBackend, if_true]
  exact ⟨_, hread, by decide, rfl⟩

/-- The store is named and is not there: the receipt passes in a workspace that holds the signer's
key as its own, and fails in one that holds none. -/
theorem missing_store_falls_back :
    sampleOptions.trustStore = some "trust" ∧ sampleOptions.recompute = false ∧
    (verifyReceiptBytes sampleBackend (onlyLocalKey [] (some (.file samplePublicA.bytes.toList)))
        sampleYaml "receipt.yaml" (sampleOptions.inWorkspace ".") sampleDate).map
        ReceiptVerdict.signatureStatus = .ok (some .pass) ∧
    (verifyReceiptBytes sampleBackend (onlyLocalKey [] none)
        sampleYaml "receipt.yaml" (sampleOptions.inWorkspace ".") sampleDate).map
        ReceiptVerdict.signatureStatus = .ok (some .fail) ∧
    ¬ StoreDecides sampleBackend sampleYaml "receipt.yaml" sampleOptions sampleDate "trust" none
      [] := by
  have hsigned := signedBy_sample (.inl ⟨rfl, rfl⟩)
  obtain ⟨hpass, hfail⟩ := @status_onlyLocalKey sampleBackend sampleOptions sampleYaml rfl _ _
    readsAs_sampleYaml hsigned "receipt.yaml" sampleDate [] "."
  refine ⟨rfl, rfl, hpass, hfail, ?_⟩
  intro h
  have heq := h (onlyLocalKey [] (some (.file samplePublicA.bytes.toList))) (onlyLocalKey [] none)
    "." "." ⟨rfl, rfl⟩ ⟨rfl, rfl⟩
  rw [hpass, hfail] at heq
  cases heq

end Attest.Verify
