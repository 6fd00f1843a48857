import Attest.Trust.Handover

/-! Bundles of two issuers, in either order.

The merge of an import is a maximum: each key ends at the larger of what the store
and the bundle hold against it. Copies are kept by issuer, so an import of one
issuer does not change what the store makes of another's bundle. Whichever of two
bundles comes first, the store ends at the same standings, and a bundle that has
been merged has nothing left to change. A bundle whose copy is there already is not
merged at all. -/
namespace Attest.Trust
open Library Library.Fallible

/-- What the import of a bundle brings to an id: what the bundle states, or nothing when the copy of
its issuer has the same signature. -/
def brought (c : Crates) (ws : Workspace) (bundle : TrustBundle) (id : String) :
    Standing DateTime :=
  if isCurrent (onDisk c ws bundle.issuer.keyId) bundle then .absent else stated bundle.keys id

/-- The file was imported, by some call. -/
def Imported (c : Crates) (file : Option (Node Bytes)) (w w' : World) : Prop :=
  ∃ path expectedIssuer now report, importBundle c path file expectedIssuer now w = .ok report w'

section Merge
variable {c : Crates}

/-! ### One import -/

theorem readBundle_path {path : String} {file : Option (Node Bytes)} {bundle : TrustBundle}
    (h : readBundle c path file = .ok bundle) (path' : String) :
    readBundle c path' file = .ok bundle := readBundle_ok_iff.mpr (readBundle_ok_iff.mp h)

theorem Judged.onDisk_eq {ws : Workspace} {path : String} {file : Option (Node Bytes)}
    {expectedIssuer : Option String} {now : DateTime} {bundle : TrustBundle}
    {previous : Option TrustBundle} {handoverFrom : Option (String × UInt64)}
    (h : Judged c ws path file expectedIssuer now bundle previous handoverFrom) :
    onDisk c ws bundle.issuer.keyId = previous := by
  cases previous with
  | some accepted => exact onDisk_of_copy (acceptedBundle_some_iff.mp h.accepted)
  | none =>
    have hfree := acceptedBundle_none_iff.mp h.accepted
    cases hdisk : onDisk c ws bundle.issuer.keyId with
    | none => rfl
    | some found =>
      rw [isFile_of_onDisk hdisk] at hfree
      cases hfree

theorem brought_of_lookup {ws ws' : Workspace} {bundle : TrustBundle}
    (h : ws'.trustDir.bundles.lookup bundle.issuer.keyId =
      ws.trustDir.bundles.lookup bundle.issuer.keyId) (id : String) :
    brought c ws' bundle id = brought c ws bundle id := by
  rw [brought, brought, onDisk, onDisk, h]

theorem brought_le_stated (c : Crates) (ws : Workspace) (bundle : TrustBundle) (id : String) :
    brought c ws bundle id ≤ stated bundle.keys id := by
  unfold brought
  split
  · exact Standing.absent_le _
  · exact le_rfl

/-- What one import does to the standings and to the copies. -/
structure Merged (c : Crates) (bundle : TrustBundle) (ws ws' : Workspace) : Prop where
  ends : ∀ id, standing ws' id = max (standing ws id) (brought c ws bundle id)
  others : ∀ issuer, issuer ≠ bundle.issuer.keyId →
    ws'.trustDir.bundles.lookup issuer = ws.trustDir.bundles.lookup issuer
  /-- Afterwards the bundle brings no more than it did. -/
  again : ∀ id, brought c ws' bundle id ≤ brought c ws bundle id

theorem merged_of_imported {file : Option (Node Bytes)} {path : String} {bundle : TrustBundle}
    {w w' : World} (hread : readBundle c path file = .ok bundle) (h : Imported c file w w') :
    Merged c bundle w.fs w'.fs := by
  obtain ⟨path', expectedIssuer, now, report, h⟩ := h
  obtain ⟨found, previous, handoverFrom, hjudged, hcase⟩ := importBundle_ok h
  obtain rfl := hjudged.bundle_eq (readBundle_path hread path')
  rcases hcase with ⟨hcurrent, rfl, -⟩ | ⟨hcurrent, hrecord⟩
  · have hnothing : ∀ id, brought c w'.fs bundle id = .absent := by
      intro id
      rw [brought, hjudged.onDisk_eq, if_pos hcurrent]
    refine ⟨?_, fun _ _ => rfl, fun _ => le_rfl⟩
    intro id
    rw [hnothing id, max_eq_left (Standing.absent_le _)]
  · obtain ⟨policy, hload, -, hfs, -, -⟩ := record_ok hrecord
    have hkeys := (passes_of_failedChecks hjudged.passes).keys
    have hall : ∀ id, brought c w.fs bundle id = stated bundle.keys id := by
      intro id
      rw [brought, hjudged.onDisk_eq, hcurrent]
      rfl
    refine ⟨?_, ?_, ?_⟩
    · intro id
      rw [hfs, hall id]
      exact standing_recorded hkeys hload id
    · intro issuer hother
      rw [hfs, bundles_recorded, AList.lookup_insert_ne hother]
    · intro id
      rw [hall id]
      exact brought_le_stated c _ bundle id

/-! ### Two imports -/

variable {first second : TrustBundle}

/-- Two bundles of different issuers end at the maximum of all that was held and brought. -/
theorem Merged.standing_both {ws ws₁ ws₂ : Workspace}
    (hissuers : first.issuer.keyId ≠ second.issuer.keyId) (h₁ : Merged c first ws ws₁)
    (h₂ : Merged c second ws₁ ws₂) (id : String) :
    standing ws₂ id =
      max (max (standing ws id) (brought c ws first id)) (brought c ws second id) := by
  rw [h₂.ends id, h₁.ends id, brought_of_lookup (h₁.others _ hissuers.symm)]

/-- Afterwards neither brings anything that is not there. -/
theorem Merged.settled {ws ws₁ ws₂ : Workspace}
    (hissuers : first.issuer.keyId ≠ second.issuer.keyId) (h₁ : Merged c first ws ws₁)
    (h₂ : Merged c second ws₁ ws₂) (id : String) :
    brought c ws₂ first id ≤ standing ws₂ id ∧ brought c ws₂ second id ≤ standing ws₂ id := by
  refine ⟨?_, ?_⟩
  · rw [brought_of_lookup (h₂.others _ hissuers), h₁.standing_both hissuers h₂ id]
    calc brought c ws₁ first id ≤ brought c ws first id := h₁.again id
      _ ≤ max (standing ws id) (brought c ws first id) := le_max_right _ _
      _ ≤ max (max (standing ws id) (brought c ws first id)) (brought c ws second id) :=
        le_max_left _ _
  · rw [h₂.ends id]
    exact (h₂.again id).trans (le_max_right _ _)

/-! ### Importing again -/

/-- Where the bundle states nothing more than is there, the policy stays as it is. -/
def Settled (bundle : TrustBundle) (w w' : World) : Prop :=
  (∀ id, stated bundle.keys id ≤ standing w.fs id) → storedPolicy w'.fs = storedPolicy w.fs

theorem standing_of_storedPolicy {ws ws' : Workspace} (h : storedPolicy ws' = storedPolicy ws)
    (id : String) : standing ws' id = standing ws id := by
  rw [standing, standing, h]

theorem Settled.trans {bundle : TrustBundle} {w₁ w₂ w₃ : World} (h₁ : Settled bundle w₁ w₂)
    (h₂ : Settled bundle w₂ w₃) : Settled bundle w₁ w₃ := by
  intro hle
  have hfirst := h₁ hle
  refine (h₂ ?_).trans hfirst
  intro id
  rw [standing_of_storedPolicy hfirst]
  exact hle id

theorem settled_of_kept {bundle : TrustBundle} {α : Type} {x : Program α}
    (h : Within (Kept storedPolicy) x) : Within (Settled bundle) x :=
  within_mono h fun _ _ hkept _ => hkept.same

theorem settled_bind {bundle : TrustBundle} {α β : Type} {x : Program α} {f : α → Program β}
    (hx : Within (Settled bundle) x) (hf : ∀ a, Within (Settled bundle) (f a)) :
    Within (Settled bundle) (x >>= f) := within_bind hx hf fun _ _ _ => Settled.trans

/-- The merge of such a bundle gives the policy that was read. -/
theorem mergeKeys_of_settled {bundle : TrustBundle} {policy : TrustPolicy} {ws : Workspace}
    (hkeys : KeysInOrder c bundle.keys) (hload : loadPolicy c ws = .ok policy)
    (hle : ∀ id, stated bundle.keys id ≤ standing ws id) (report : ImportReport) :
    policy.withKeys (mergeKeys policy.keys report bundle.keys).1 = policy := by
  have hsame : (mergeKeys policy.keys report bundle.keys).1 = policy.keys := by
    apply mergeKeys_of_stated_le hkeys.nodup hkeys.dated
    intro key hkey
    have hkeyLe := hle key.id
    rw [stated_of_mem hkeys.nodup hkey, standing_of_load hload] at hkeyLe
    exact hkeyLe
  rw [hsame]
  rfl

/-- The policy stays the one that was read. -/
def Stores (policy : TrustPolicy) (w w' : World) : Prop :=
  storedPolicy w.fs = some policy → storedPolicy w'.fs = some policy

theorem stores_of_kept {policy : TrustPolicy} {α : Type} {x : Program α}
    (h : Within (Kept storedPolicy) x) : Within (Stores policy) x :=
  within_mono h fun _ _ hkept hstored => hkept.same.trans hstored

theorem stores_bind {policy : TrustPolicy} {α β : Type} {x : Program α} {f : α → Program β}
    (hx : Within (Stores policy) x) (hf : ∀ a, Within (Stores policy) (f a)) :
    Within (Stores policy) (x >>= f) :=
  within_bind hx hf fun _ _ _ h₁ h₂ hstored => h₂ (h₁ hstored)

theorem stores_save (policy : TrustPolicy) : Within (Stores policy) policy.save := by
  unfold TrustPolicy.save
  refine stores_bind (stores_of_kept (kept_createTrustDir fun _ => rfl)) fun _ => ?_
  refine stores_bind (stores_of_kept (kept_reading _)) fun _ => ?_
  apply within_syscall
  · intro w w' _ hfs hstored
    rw [hfs]
    exact hstored
  · intro w w' _ _ hfs _
    rw [hfs]
    rfl
  · intro w w' n e _ _ _ hfs hstored
    rw [hfs]
    exact hstored

theorem kept_writeCopy (bundle : TrustBundle) : Within (Kept storedPolicy) (writeCopy bundle) := by
  unfold writeCopy
  refine kept_bind (kept_reading _) fun _ => ?_
  exact kept_syscall (fun _ => rfl) (fun _ _ => rfl)

theorem settled_record {bundle : TrustBundle} (hkeys : KeysInOrder c bundle.keys)
    (report : ImportReport) : Within (Settled bundle) (record c bundle report) := by
  unfold record
  refine settled_bind (settled_of_kept (kept_createTrustDir fun _ => rfl)) fun _ => ?_
  apply settled_bind (settled_of_kept (kept_writeKeyFiles (fun _ _ _ => rfl) _))
  intro _ w hle
  rw [final_reading_bind]
  cases hload : loadPolicy c w.fs with
  | error e => rfl
  | ok policy =>
    -- the policy that is saved is the one that was just read
    have hsame := mergeKeys_of_settled hkeys hload hle report
    have hwrites : Within (Stores policy) (do
        (policy.withKeys (mergeKeys policy.keys report bundle.keys).1).save
        touch
        writeCopy bundle
        return (mergeKeys policy.keys report bundle.keys).2) := by
      rw [hsame]
      refine stores_bind (stores_save policy) fun _ => ?_
      refine stores_bind (stores_of_kept kept_touch) fun _ => ?_
      refine stores_bind (stores_of_kept (kept_writeCopy bundle)) fun _ => ?_
      exact stores_of_kept (kept_pure _)
    have hstored := (loadPolicy_ok_iff.mp hload).1
    exact (hwrites w hstored).trans hstored.symm

/-- An import of a bundle that brings nothing new leaves the policy as it is, however it ends. -/
theorem importBundle_settled {path : String} {file : Option (Node Bytes)} {bundle : TrustBundle}
    (hread : readBundle c path file = .ok bundle) (expectedIssuer : Option String) (now : DateTime)
    {w : World} (hle : ∀ id, brought c w.fs bundle id ≤ standing w.fs id) :
    storedPolicy (final (importBundle c path file expectedIssuer now) w).fs =
      storedPolicy w.fs := by
  rw [importBundle, final_reading_bind]
  cases hjudge : judge c w.fs path file expectedIssuer now with
  | error e => rfl
  | ok result =>
    obtain ⟨found, previous, handoverFrom⟩ := result
    have hjudged := judge_ok_iff.mp hjudge
    obtain rfl := hjudged.bundle_eq hread
    simp only
    split
    next => rfl
    next hcurrent =>
      apply settled_record (passes_of_failedChecks hjudged.passes).keys
      intro id
      have hid := hle id
      rw [brought, hjudged.onDisk_eq, if_neg hcurrent] at hid
      exact hid

/-! ### In either order -/

/-- **Two bundles of different issuers, imported in either order, leave the same standings**: the
maximum of what the store held and what each brings. Importing either again, in either store, at any
time and however it ends, leaves the policy as it is. -/
theorem merge_order_independent {path path' : String} {file file' : Option (Node Bytes)}
    {first second : TrustBundle} (hread : readBundle c path file = .ok first)
    (hread' : readBundle c path' file' = .ok second)
    (hissuers : first.issuer.keyId ≠ second.issuer.keyId) {ws : Workspace}
    {outcomes outcomes' : List Outcome} {w₁ w₂ w₃ w₄ : World}
    (h₁ : Imported c file ⟨ws, outcomes⟩ w₁) (h₂ : Imported c file' w₁ w₂)
    (h₃ : Imported c file' ⟨ws, outcomes'⟩ w₃) (h₄ : Imported c file w₃ w₄) :
    (∀ id, standing w₂.fs id = standing w₄.fs id) ∧
      (∀ id, standing w₂.fs id =
        max (max (standing ws id) (brought c ws first id)) (brought c ws second id)) ∧
      ∀ w, w.fs = w₂.fs ∨ w.fs = w₄.fs → ∀ again ∈ [file, file'], ∀ anyPath expectedIssuer now,
        storedPolicy (final (importBundle c anyPath again expectedIssuer now) w).fs =
          storedPolicy w.fs := by
  have hm₁ := merged_of_imported hread h₁
  have hm₂ := merged_of_imported hread' h₂
  have hm₃ := merged_of_imported hread' h₃
  have hm₄ := merged_of_imported hread h₄
  refine ⟨?_, hm₁.standing_both hissuers hm₂, ?_⟩
  · intro id
    rw [hm₁.standing_both hissuers hm₂, hm₃.standing_both hissuers.symm hm₄, max_right_comm]
  · intro w hw again hagain anyPath expectedIssuer now
    have hsettled : ∀ id, brought c w.fs first id ≤ standing w.fs id ∧
        brought c w.fs second id ≤ standing w.fs id := by
      intro id
      rcases hw with hw | hw
      · rw [hw]
        exact hm₁.settled hissuers hm₂ id
      · rw [hw]
        exact (hm₃.settled hissuers.symm hm₄ id).symm
    rcases List.mem_cons.mp hagain with rfl | hagain
    · exact importBundle_settled (readBundle_path hread anyPath) expectedIssuer now
        fun id => (hsettled id).1
    · rw [List.mem_singleton.mp hagain]
      exact importBundle_settled (readBundle_path hread' anyPath) expectedIssuer now
        fun id => (hsettled id).2

end Merge

/-! ### A bundle that is there already

The first sample bundle is imported, which revokes the third key from the first of January on; then
that key is revoked by hand, which dates it the first of May. -/

theorem copy_sampleA (id : String) :
    Copy sampleAuthorities (sampleRevoked id) sampleIdA sampleBundleA := by
  have hnode : (sampleRevoked id).trustDir.bundles.lookup sampleIdA =
      some (.file sampleBundleA.written) := by
    apply AList.mem_lookup_iff.mpr
    rw [bundles_sampleRevoked]
    exact List.mem_singleton_self _
  refine ⟨"", ?_⟩
  rw [hnode]
  exact readBundle_sampleA _

/-- Where its copy is there, the first bundle changes nothing. -/
theorem imported_sampleA {ws : Workspace} {policy : TrustPolicy}
    (hcopy : Copy sampleAuthorities ws sampleIdA sampleBundleA)
    (hload : loadPolicy sampleAuthorities ws = .ok policy)
    (htrusted : standing ws sampleIdA ≤ .trusted) :
    Imported sampleAuthorities (some (.file sampleBundleA.written)) ⟨ws, []⟩ ⟨ws, []⟩ := by
  have hjudged : Judged sampleAuthorities ws "a.json" (some (.file sampleBundleA.written)) none
      (sampleDay 1778803200) sampleBundleA (some sampleBundleA) none := by
    refine ⟨readBundle_sampleA _, failedChecks_sampleA (by decide) (by decide),
      ⟨policy, hload, ?_⟩, by simp, acceptedBundle_some_iff.mpr hcopy, by simp [grounds]⟩
    rw [isRevoked_eq_false_iff, ← standing_of_load hload]
    exact htrusted
  exact ⟨_, _, _, _, importBundle_current hjudged (by simp [isCurrent]) []⟩

/-- The second bundle is recorded, and the store still loads. -/
theorem imported_sampleB : ∃ ws policy,
    Imported sampleAuthorities (some (.file sampleBundleB.written)) ⟨sampleRevoked sampleIdC, []⟩
      ⟨ws, []⟩ ∧ loadPolicy sampleAuthorities ws = .ok policy := by
  have hjudged : Judged sampleAuthorities (sampleRevoked sampleIdC) "b.json"
      (some (.file sampleBundleB.written)) (some sampleIdB) (sampleDay 1778803200) sampleBundleB none
      none := by
    refine ⟨readBundle_sampleB _, failedChecks_sampleB (by decide) (by decide),
      ⟨_, loadPolicy_sampleRevoked sampleIdC, by decide +kernel⟩, ?_,
      acceptedBundle_sampleRevoked sampleIdC, rfl⟩
    intro e he
    exact (Option.some.inj he).symm
  have hkeys := (passes_of_failedChecks hjudged.passes).keys
  have hcopy : canWrite ((sampleRevoked sampleIdC).trustDir.bundles.lookup
      sampleBundleB.issuer.keyId) = true := by
    rw [lookup_of_acceptedBundles (acceptedBundles_sampleRevoked sampleIdC)
      (acceptedBundle_sampleRevoked sampleIdC)]
    rfl
  have hrun := (importBundle_run hjudged rfl []).trans
    (record_run hkeys (loadPolicy_sampleRevoked sampleIdC) rfl hcopy)
  refine ⟨_, _, ⟨_, _, _, _, hrun⟩,
    loadPolicy_recorded hkeys (loadPolicy_sampleRevoked sampleIdC) ?_ _⟩
  -- every key of the second bundle has an entry
  intro key hkey hnone
  have hlisted : ∀ key ∈ sampleBundleB.keys, (samplePolicyRevoked sampleIdC).entry key.id ≠ none := by
    decide +kernel
  exact absurd hnone (hlisted key hkey)

/-- Both orders succeed there. -/
theorem imported_in_either_order : ∃ w₁ w₂ w₃ w₄,
    Imported sampleAuthorities (some (.file sampleBundleA.written)) ⟨sampleRevoked sampleIdC, []⟩
      w₁ ∧
    Imported sampleAuthorities (some (.file sampleBundleB.written)) w₁ w₂ ∧
    Imported sampleAuthorities (some (.file sampleBundleB.written)) ⟨sampleRevoked sampleIdC, []⟩
      w₃ ∧
    Imported sampleAuthorities (some (.file sampleBundleA.written)) w₃ w₄ := by
  have htrusted : standing (sampleRevoked sampleIdC) sampleIdA = .trusted := by decide +kernel
  have hstart := imported_sampleA (copy_sampleA sampleIdC) (loadPolicy_sampleRevoked sampleIdC)
    (le_of_eq htrusted)
  obtain ⟨ws, policy, himported, hload⟩ := imported_sampleB
  have hmerged := merged_of_imported (readBundle_sampleB "b.json") himported
  have hissuers : sampleIdA ≠ sampleBundleB.issuer.keyId := by decide +kernel
  have hcopy : Copy sampleAuthorities ws sampleIdA sampleBundleA := by
    obtain ⟨path, hread⟩ := copy_sampleA sampleIdC
    exact ⟨path, by rw [hmerged.others sampleIdA hissuers]; exact hread⟩
  have hend := imported_sampleA hcopy hload (by
    rw [hmerged.ends, htrusted]
    refine max_le le_rfl ((brought_le_stated _ _ _ _).trans ?_)
    decide +kernel)
  exact ⟨_, _, _, _, hstart, himported, himported, hend⟩

theorem merge_order_independent_sample : ∃ w₁ w₂ w₃ w₄,
    Imported sampleAuthorities (some (.file sampleBundleA.written)) ⟨sampleRevoked sampleIdC, []⟩
      w₁ ∧
    Imported sampleAuthorities (some (.file sampleBundleB.written)) w₁ w₂ ∧
    Imported sampleAuthorities (some (.file sampleBundleB.written)) ⟨sampleRevoked sampleIdC, []⟩
      w₃ ∧
    Imported sampleAuthorities (some (.file sampleBundleA.written)) w₃ w₄ ∧
    ∀ id, standing w₂.fs id = standing w₄.fs id := by
  obtain ⟨w₁, w₂, w₃, w₄, h₁, h₂, h₃, h₄⟩ := imported_in_either_order
  have hissuers : sampleBundleA.issuer.keyId ≠ sampleBundleB.issuer.keyId := by decide +kernel
  exact ⟨w₁, w₂, w₃, w₄, h₁, h₂, h₃, h₄, (merge_order_independent (readBundle_sampleA "a.json")
    (readBundle_sampleB "b.json") hissuers h₁ h₂ h₃ h₄).1⟩

/-- Both orders succeed, and the third key ends at the date of the second bundle: the earlier date of
the first one, which is there already, is not merged. -/
theorem current_bundle_not_merged :
    loadPolicy sampleAuthorities
        (reach sampleAuthorities sampleWorld [sampleImportA, sampleRevoke sampleIdC]).fs =
      .ok (samplePolicyRevoked sampleIdC) ∧
    readBundle sampleAuthorities "a.json" (some (.file sampleBundleA.written)) =
      .ok sampleBundleA ∧
    readBundle sampleAuthorities "b.json" (some (.file sampleBundleB.written)) =
      .ok sampleBundleB ∧
    sampleBundleA.issuer.keyId ≠ sampleBundleB.issuer.keyId ∧
    ∃ w₁ w₂ w₃ w₄,
      Imported sampleAuthorities (some (.file sampleBundleA.written))
        (reach sampleAuthorities sampleWorld [sampleImportA, sampleRevoke sampleIdC]) w₁ ∧
      Imported sampleAuthorities (some (.file sampleBundleB.written)) w₁ w₂ ∧
      Imported sampleAuthorities (some (.file sampleBundleB.written))
        (reach sampleAuthorities sampleWorld [sampleImportA, sampleRevoke sampleIdC]) w₃ ∧
      Imported sampleAuthorities (some (.file sampleBundleA.written)) w₃ w₄ ∧
      standing w₂.fs sampleIdC ≠ max
        (max (standing (reach sampleAuthorities sampleWorld
          [sampleImportA, sampleRevoke sampleIdC]).fs sampleIdC)
          (stated sampleBundleA.keys sampleIdC))
        (stated sampleBundleB.keys sampleIdC) := by
  have hentry : samplePolicyA.entry sampleIdC =
      some ⟨sampleIdC, "laptop", .revoked, some (sampleDay 1767225600)⟩ := by decide +kernel
  have hissuers : sampleBundleA.issuer.keyId ≠ sampleBundleB.issuer.keyId := by decide +kernel
  rw [reach_sampleRevoked hentry]
  refine ⟨loadPolicy_sampleRevoked sampleIdC, readBundle_sampleA _, readBundle_sampleB _, hissuers, ?_⟩
  obtain ⟨w₁, w₂, w₃, w₄, h₁, h₂, h₃, h₄⟩ := imported_in_either_order
  refine ⟨w₁, w₂, w₃, w₄, h₁, h₂, h₃, h₄, ?_⟩
  have hmerged := merged_of_imported (readBundle_sampleA "a.json") h₁
  have hmerged' := merged_of_imported (readBundle_sampleB "b.json") h₂
  have hcurrent : brought sampleAuthorities (sampleRevoked sampleIdC) sampleBundleA sampleIdC =
      .absent := by
    rw [brought]
    show ite (isCurrent (onDisk _ _ sampleIdA) sampleBundleA = true) _ _ = _
    rw [onDisk_of_copy (copy_sampleA sampleIdC)]
    simp [isCurrent]
  have hle : standing w₂.fs sampleIdC ≤ .revoked (sampleDay 1769904000) := by
    rw [hmerged.standing_both hissuers hmerged', hcurrent]
    refine max_le (max_le ?_ (Standing.absent_le _)) ((brought_le_stated _ _ _ _).trans ?_)
    · decide +kernel
    · decide +kernel
  have hjoin : Standing.revoked (sampleDay 1767225600 : WithBot DateTime) ≤ max
      (max (standing (sampleRevoked sampleIdC) sampleIdC) (stated sampleBundleA.keys sampleIdC))
      (stated sampleBundleB.keys sampleIdC) := by
    decide +kernel
  intro heq
  rw [heq] at hle
  exact absurd (hjoin.trans hle) (by decide +kernel)

end Attest.Trust
