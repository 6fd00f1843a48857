import Attest.Trust.Rollback

/-! Handovers, and who is behind them.

A first bundle that nobody asked for is let through when a copy names its issuer as
successor. The code asks whether the new issuer is revoked, and not whether the one
who names it is: an authority that was revoked after its bundle was accepted still
hands over. -/
namespace Attest.Trust
open Library Library.Fallible

/-- A copy names the bundle's issuer, with id and public key, and the issuer of the copy is not
revoked in the policy. -/
def NamedByUnrevoked (c : Crates) (ws : Workspace) (bundle : TrustBundle) : Prop :=
  ∃ policy name accepted, loadPolicy c ws = .ok policy ∧ Copy c ws name accepted ∧
    accepted.successor = some bundle.issuer ∧ isRevoked policy accepted.issuer.keyId = false

/-- The bundle is in order and would be let through, and every copy that names its issuer is by a
revoked one. -/
def LeansOnRevoked (c : Crates) (ws : Workspace) (bundle : TrustBundle) (now : DateTime) : Prop :=
  failedChecks c bundle now = [] ∧ ∃ policy bundles, loadPolicy c ws = .ok policy ∧
    isRevoked policy bundle.issuer.keyId = false ∧ acceptedBundles c ws = .ok bundles ∧
    (∃ accepted ∈ bundles, accepted.successor = some bundle.issuer) ∧
    ∀ accepted ∈ bundles, accepted.successor = some bundle.issuer →
      isRevoked policy accepted.issuer.keyId = true

section Handover
variable {c : Crates}

/-- A policy that says something is in a file. -/
theorem canWrite_of_revoked {ws : Workspace} {policy : TrustPolicy} {id : String}
    (hload : loadPolicy c ws = .ok policy) (hrevoked : isRevoked policy id = true) :
    canWrite ws.trustDir.trustToml = true := by
  have hstored := (loadPolicy_ok_iff.mp hload).1
  unfold storedPolicy at hstored
  split at hstored
  next hnone => rw [hnone]; rfl
  next =>
    cases hstored
    cases hrevoked
  next => cases hstored
  next hfile => rw [hfile]; rfl

/-- Where every name stands for a copy, one that is no file is free. -/
theorem lookup_of_acceptedBundles {ws : Workspace} {bundles : List TrustBundle} {issuer : String}
    (hbundles : acceptedBundles c ws = .ok bundles)
    (hfirst : acceptedBundle c ws issuer = .ok none) : ws.trustDir.bundles.lookup issuer = none := by
  rw [acceptedBundle_none_iff] at hfirst
  cases hnode : ws.trustDir.bundles.lookup issuer with
  | none => rfl
  | some node =>
    obtain ⟨found, hcopy⟩ := (acceptedBundles_ok hbundles).1 issuer node hnode
    obtain ⟨bytes, hlookup, -⟩ := copy_iff.mp hcopy
    rw [hlookup] at hfirst
    cases hfirst

/-- Nothing stops an import that leans on revoked authorities. -/
theorem importBundle_of_leansOnRevoked {ws : Workspace} {path : String} {file : Option (Node Bytes)}
    {bundle : TrustBundle} {now : DateTime} (hread : readBundle c path file = .ok bundle)
    (hfirst : acceptedBundle c ws bundle.issuer.keyId = .ok none)
    (h : LeansOnRevoked c ws bundle now) :
    ∃ report w', importBundle c path file none now ⟨ws, []⟩ = .ok report w' := by
  obtain ⟨hpasses, policy, bundles, hload, htrusted, hbundles, ⟨accepted, hmem, hnames⟩, hall⟩ := h
  obtain ⟨handoverFrom, hground⟩ :=
    grounds_first_iff.mpr ⟨bundles, hbundles, accepted, hmem, hnames⟩
  have hjudged : Judged c ws path file none now bundle none handoverFrom :=
    ⟨hread, hpasses, ⟨policy, hload, htrusted⟩, by simp, hfirst, hground⟩
  have hcan := canWrite_of_revoked hload (hall accepted hmem hnames)
  have hcopy : canWrite (ws.trustDir.bundles.lookup bundle.issuer.keyId) = true := by
    rw [lookup_of_acceptedBundles hbundles hfirst]
    rfl
  rw [importBundle_run hjudged rfl, record_run (passes_of_failedChecks hpasses).keys hload hcan hcopy]
  exact ⟨_, _, rfl⟩

/-- A first bundle let through without a name has a copy behind it. -/
theorem named_of_importBundle {path : String} {file : Option (Node Bytes)} {bundle : TrustBundle}
    {now : DateTime} {report : ImportReport} {w w' : World}
    (hread : readBundle c path file = .ok bundle)
    (hfirst : acceptedBundle c w.fs bundle.issuer.keyId = .ok none)
    (h : importBundle c path file none now w = .ok report w') :
    failedChecks c bundle now = [] ∧ ∃ policy bundles, loadPolicy c w.fs = .ok policy ∧
      isRevoked policy bundle.issuer.keyId = false ∧ acceptedBundles c w.fs = .ok bundles ∧
      ∃ accepted ∈ bundles, accepted.successor = some bundle.issuer := by
  obtain ⟨found, previous, handoverFrom, hjudged, -⟩ := importBundle_ok h
  obtain rfl := hjudged.bundle_eq hread
  have hprevious := hjudged.accepted
  rw [hfirst] at hprevious
  cases hprevious
  obtain ⟨policy, hload, htrusted⟩ := hjudged.loads
  obtain ⟨bundles, hbundles, hnamed⟩ := grounds_first_iff.mp ⟨handoverFrom, hjudged.ground⟩
  exact ⟨hjudged.passes, policy, bundles, hload, htrusted, hbundles, hnamed⟩

/-- **In every store that a history reaches, a first bundle imported without a name has an
authority behind it that is not revoked, exactly when the import does not lean on revoked
authorities only.** -/
theorem handover_unrevoked_iff (w : World) (ops : List Op) {path : String}
    {file : Option (Node Bytes)} {bundle : TrustBundle} {now : DateTime}
    (hread : readBundle c path file = .ok bundle)
    (hfirst : acceptedBundle c (reach c w ops).fs bundle.issuer.keyId = .ok none) :
    (∀ outcomes report w', importBundle c path file none now ⟨(reach c w ops).fs, outcomes⟩ =
        .ok report w' → NamedByUnrevoked c (reach c w ops).fs bundle) ↔
      ¬ LeansOnRevoked c (reach c w ops).fs bundle now := by
  generalize (reach c w ops).fs = ws at hfirst ⊢
  refine ⟨?_, ?_⟩
  · intro h hleans
    obtain ⟨report, w', hrun⟩ := importBundle_of_leansOnRevoked hread hfirst hleans
    obtain ⟨policy, name, accepted, hload, hcopy, hnames, htrusted⟩ := h [] report w' hrun
    obtain ⟨-, policy', bundles, hload', -, hbundles, -, hall⟩ := hleans
    rw [hload] at hload'
    cases hload'
    rw [hall accepted (((acceptedBundles_ok hbundles).2 accepted).mpr ⟨name, hcopy⟩) hnames]
      at htrusted
    cases htrusted
  · intro hleans outcomes report w' hrun
    obtain ⟨hpasses, policy, bundles, hload, htrusted, hbundles, hnamed⟩ :=
      named_of_importBundle hread hfirst hrun
    by_contra hnone
    refine hleans ⟨hpasses, policy, bundles, hload, htrusted, hbundles, hnamed, ?_⟩
    intro accepted hmem hnames
    cases hrevoked : isRevoked policy accepted.issuer.keyId with
    | true => rfl
    | false =>
      obtain ⟨name, hcopy⟩ := ((acceptedBundles_ok hbundles).2 accepted).mp hmem
      exact absurd ⟨policy, name, accepted, hload, hcopy, hnames, hrevoked⟩ hnone

end Handover

/-! ### A revoked authority that hands over -/

theorem handover_unrevoked_sample :
    readBundle sampleAuthorities "b.json" (some (.file sampleBundleB.written)) =
        .ok sampleBundleB ∧
      acceptedBundle sampleAuthorities (reach sampleAuthorities sampleWorld []).fs sampleIdB =
        .ok none ∧
      ∀ outcomes report w', importBundle sampleAuthorities "b.json"
        (some (.file sampleBundleB.written)) none (sampleDay 1778803200)
        ⟨(reach sampleAuthorities sampleWorld []).fs, outcomes⟩ = .ok report w' →
        NamedByUnrevoked sampleAuthorities (reach sampleAuthorities sampleWorld []).fs
          sampleBundleB := by
  refine ⟨readBundle_sampleB _, rfl,
    (handover_unrevoked_iff sampleWorld [] (readBundle_sampleB _) rfl).mpr ?_⟩
  -- an empty store has no copy that could name anyone
  intro hleans
  obtain ⟨-, policy, bundles, -, -, hbundles, ⟨accepted, hmem, -⟩, -⟩ := hleans
  have hempty : acceptedBundles sampleAuthorities (reach sampleAuthorities sampleWorld []).fs =
      .ok [] := rfl
  rw [hempty] at hbundles
  cases hbundles
  cases hmem

/-- The store after the first bundle has been imported. -/
def sampleImported : Workspace :=
  recorded sampleAuthorities sampleBundleA (emptyReport sampleBundleA none) {} sampleWorld.fs

/-- The policy it has then. -/
def samplePolicyA : TrustPolicy where
  keys := [⟨sampleIdB, "release", .trusted, none⟩, ⟨sampleIdA, "authority", .trusted, none⟩,
    ⟨sampleIdC, "laptop", .revoked, some (sampleDay 1767225600 january_inRange)⟩]

theorem loadPolicy_sampleImported : loadPolicy sampleAuthorities sampleImported = .ok samplePolicyA := by
  decide +kernel

theorem judged_sampleA : Judged sampleAuthorities sampleWorld.fs "a.json"
    (some (.file sampleBundleA.written)) (some sampleIdA) (sampleDay 1775001600) sampleBundleA none
    none where
  read := readBundle_sampleA _
  passes := failedChecks_sampleA (by decide) (by decide)
  loads := ⟨{}, rfl, rfl⟩
  expected e he := (Option.some.inj he).symm
  accepted := rfl
  ground := rfl

theorem reach_sampleImportA :
    reach sampleAuthorities sampleWorld [sampleImportA] = ⟨sampleImported, []⟩ := by
  have hkeys := (passes_of_failedChecks judged_sampleA.passes).keys
  have hrecord := @record_run sampleAuthorities sampleBundleA (emptyReport sampleBundleA none)
    sampleWorld.fs {} hkeys rfl rfl rfl
  have hrun := (importBundle_run judged_sampleA rfl []).trans hrecord
  rw [reach_singleton, sampleImportA, Op.exec, final_bind_pure]
  exact final_of_ok hrun

/-- One of its keys is revoked two months after the bundle was issued. -/
def sampleRevoke (id : String) : Op := .revoke id (sampleDay 1777593600 may_inRange)

def samplePolicyRevoked (id : String) : TrustPolicy :=
  samplePolicyA.withKeys
    (updateEntry id (TrustEntry.revokeAt (sampleDay 1777593600 may_inRange)) samplePolicyA.keys)

/-- The store after that. -/
def sampleRevoked (id : String) : Workspace := putPolicy (samplePolicyRevoked id) sampleImported

theorem reach_sampleRevoked {id : String} {entry : TrustEntry}
    (hentry : samplePolicyA.entry id = some entry) :
    reach sampleAuthorities sampleWorld [sampleImportA, sampleRevoke id] =
      ⟨sampleRevoked id, []⟩ := by
  have hrun := revoke_run loadPolicy_sampleImported hentry rfl (sampleDay 1777593600)
  have hsplit := reach_append sampleAuthorities sampleWorld [sampleImportA] [sampleRevoke id]
  rw [reach_sampleImportA, reach_singleton, sampleRevoke, Op.exec, final_bind_pure,
    final_of_ok hrun] at hsplit
  exact hsplit

theorem loadPolicy_sampleRevoked (id : String) :
    loadPolicy sampleAuthorities (sampleRevoked id) = .ok (samplePolicyRevoked id) :=
  loadPolicy_revokeAt loadPolicy_sampleImported id (sampleDay 1777593600)

theorem bundles_sampleRevoked (id : String) :
    (sampleRevoked id).trustDir.bundles.entries = [⟨sampleIdA, .file sampleBundleA.written⟩] := by
  rw [sampleRevoked, bundles_putPolicy, sampleImported, bundles_recorded]
  rfl

theorem acceptedBundles_sampleRevoked (id : String) :
    acceptedBundles sampleAuthorities (sampleRevoked id) = .ok [sampleBundleA] := by
  rw [acceptedBundles, bundles_sampleRevoked]
  simp only [readAll, readBundle_sampleA]
  rfl

/-- The second authority has no copy there yet. -/
theorem acceptedBundle_sampleRevoked (id : String) :
    acceptedBundle sampleAuthorities (sampleRevoked id) sampleBundleB.issuer.keyId = .ok none := by
  have hother : sampleIdB ∉ (sampleRevoked id).trustDir.bundles := by
    show sampleIdB ∉ (sampleRevoked id).trustDir.bundles.entries.keys
    rw [bundles_sampleRevoked]
    decide +kernel
  rw [acceptedBundle_none_iff]
  show isFile ((sampleRevoked id).trustDir.bundles.lookup sampleIdB) = false
  rw [AList.lookup_eq_none.mpr hother]
  rfl

theorem leansOnRevoked_sample :
    LeansOnRevoked sampleAuthorities (sampleRevoked sampleIdA) sampleBundleB
      (sampleDay 1778803200) := by
  refine ⟨failedChecks_sampleB (by decide) (by decide), samplePolicyRevoked sampleIdA,
    [sampleBundleA], loadPolicy_sampleRevoked sampleIdA, by decide +kernel,
    acceptedBundles_sampleRevoked sampleIdA, ⟨sampleBundleA, List.mem_singleton_self _, rfl⟩, ?_⟩
  intro accepted hmem _
  rw [List.mem_singleton.mp hmem]
  decide +kernel

/-- The first authority is pinned, its bundle names the second, and it is revoked; the second's
bundle is then imported without a name. -/
theorem revoked_authority_hands_over :
    readBundle sampleAuthorities "b.json" (some (.file sampleBundleB.written)) =
        .ok sampleBundleB ∧
      acceptedBundle sampleAuthorities
        (reach sampleAuthorities sampleWorld [sampleImportA, sampleRevoke sampleIdA]).fs
        sampleBundleB.issuer.keyId = .ok none ∧
      (∃ report w', importBundle sampleAuthorities "b.json" (some (.file sampleBundleB.written)) none
        (sampleDay 1778803200)
        (reach sampleAuthorities sampleWorld [sampleImportA, sampleRevoke sampleIdA]) =
          .ok report w') ∧
      ¬ NamedByUnrevoked sampleAuthorities
        (reach sampleAuthorities sampleWorld [sampleImportA, sampleRevoke sampleIdA]).fs
        sampleBundleB := by
  have hentry : samplePolicyA.entry sampleIdA = some ⟨sampleIdA, "authority", .trusted, none⟩ := by
    decide +kernel
  rw [reach_sampleRevoked hentry]
  refine ⟨readBundle_sampleB _, acceptedBundle_sampleRevoked sampleIdA,
    importBundle_of_leansOnRevoked (readBundle_sampleB _) (acceptedBundle_sampleRevoked sampleIdA)
      leansOnRevoked_sample, ?_⟩
  intro hnamed
  obtain ⟨policy, name, accepted, hload, hcopy, hnames, htrusted⟩ := hnamed
  obtain ⟨-, policy', bundles, hload', -, hbundles, -, hall⟩ := leansOnRevoked_sample
  rw [hload'] at hload
  cases hload
  rw [hall accepted (((acceptedBundles_ok hbundles).2 accepted).mpr ⟨name, hcopy⟩) hnames]
    at htrusted
  cases htrusted

end Attest.Trust
