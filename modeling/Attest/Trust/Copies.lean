import Attest.Trust.Merge

/-! Copies that can be read back.

What is accepted is a file of at most `BUNDLE_LIMIT` bytes; what is kept is the same
bundle written out again, with line breaks and indentation, and it is read under the
same limit. Importing the file a second time is a no-op when the copy can be read
and the store still loads. -/
namespace Attest.Trust
open Library Library.Fallible

/-- What is expected of a store that has accepted a bundle: at any time of its validity, under no
name or its issuer's, the file is found to be the accepted one and nothing is written; and the
copies can be read. -/
structure StaysAccepted (c : Crates) (path : String) (file : Option (Node Bytes))
    (bundle : TrustBundle) (ws : Workspace) : Prop where
  again : ∀ now, bundle.issuedAt ≤ now → now ≤ bundle.validUntil → ∀ expectedIssuer : Option String,
    (∀ e ∈ expectedIssuer, e = bundle.issuer.keyId) → ∀ outcomes, ∃ report,
      importBundle c path file expectedIssuer now ⟨ws, outcomes⟩ = .ok report ⟨ws, outcomes⟩ ∧
      report.alreadyCurrent = true
  readable : ∃ bundles, acceptedBundles c ws = .ok bundles

/-- The import is let through, and there is nothing to write or nothing in the way of it. -/
def GoesThrough (c : Crates) (ws : Workspace) (path : String) (file : Option (Node Bytes))
    (expectedIssuer : Option String) (now : DateTime) (bundle : TrustBundle)
    (previous : Option TrustBundle) : Prop :=
  (∃ handoverFrom, Judged c ws path file expectedIssuer now bundle previous handoverFrom) ∧
    (isCurrent previous bundle = true ∨ canWrite ws.trustDir.trustToml = true ∧
      canWrite (ws.trustDir.bundles.lookup bundle.issuer.keyId) = true)

/-- The bundle can be kept: unless it is kept already, its text is within the limit and every key
file that an entry is added over derives to its name; and the copies of other issuers can be
read. -/
structure Keepable (c : Crates) (ws : Workspace) (policy : TrustPolicy) (bundle : TrustBundle)
    (previous : Option TrustBundle) : Prop where
  fits : isCurrent previous bundle = false → bundle.written.length ≤ bundleLimit ∧
    ∀ key ∈ bundle.keys, policy.entry key.id = none → Fits c ws.trustDir.pubs key.id
  others : ∀ name node, name ≠ bundle.issuer.keyId → ws.trustDir.bundles.lookup name = some node →
    ∃ b, Copy c ws name b

section Copies
variable {c : Crates} {path : String} {file : Option (Node Bytes)} {bundle : TrustBundle}
  {ws : Workspace} {policy : TrustPolicy} {previous : Option TrustBundle} {now : DateTime}
  {expectedIssuer : Option String} {handoverFrom : Option (String × UInt64)}

/-! ### The second import -/

/-- A store that loads, has not revoked the issuer and has a copy with the bundle's signature stays
as it is. -/
theorem staysAccepted_of_copy (hread : readBundle c path file = .ok bundle)
    (hpasses : failedChecks c bundle now = []) (hload : loadPolicy c ws = .ok policy)
    (htrusted : isRevoked policy bundle.issuer.keyId = false) {accepted : TrustBundle}
    (hcopy : Copy c ws bundle.issuer.keyId accepted)
    (hcurrent : isCurrent (some accepted) bundle = true)
    (hle : accepted.sequence ≤ bundle.sequence)
    (hothers : ∀ name node, name ≠ bundle.issuer.keyId →
      ws.trustDir.bundles.lookup name = some node → ∃ b, Copy c ws name b) :
    StaysAccepted c path file bundle ws := by
  refine ⟨?_, ?_⟩
  · intro now' hstart hend expectedIssuer hexpected outcomes
    have hsignature : accepted.signature = bundle.signature := by simpa [isCurrent] using hcurrent
    obtain ⟨handoverFrom, hground⟩ := (@grounds_later_iff c ws bundle accepted expectedIssuer).mpr
      ⟨hle, fun h => h.2 hsignature.symm⟩
    have hjudged : Judged c ws path file expectedIssuer now' bundle (some accepted) handoverFrom :=
      ⟨hread, failedChecks_of_window hpasses hstart hend, ⟨policy, hload, htrusted⟩, hexpected,
        acceptedBundle_some_iff.mpr hcopy, hground⟩
    exact ⟨_, importBundle_current hjudged hcurrent outcomes, rfl⟩
  · apply acceptedBundles_of_copies
    intro name node hnode
    by_cases hname : name = bundle.issuer.keyId
    · rw [hname]
      exact ⟨accepted, hcopy⟩
    · exact hothers name node hname hnode

/-- The issuer of a bundle is not revoked by it. -/
theorem stated_issuer (h : Passes c bundle) : stated bundle.keys bundle.issuer.keyId = .trusted := by
  obtain ⟨key, hfind, hstatus⟩ := h.vouched
  rw [stated, hfind]
  simp only [BundledKey.standing, standingOf, hstatus]

theorem copy_recorded (hc : Rereads c) (hread : readBundle c path file = .ok bundle)
    (hsmall : bundle.written.length ≤ bundleLimit) (report : ImportReport) :
    Copy c (recorded c bundle report policy ws) bundle.issuer.keyId bundle := by
  obtain ⟨bytes, -, -, hparse⟩ := readBundle_ok_iff.mp hread
  refine copy_iff.mpr ⟨bundle.written, ?_, hsmall, hc.whole hparse⟩
  rw [bundles_recorded, AList.lookup_insert]

theorem copy_recorded_other {name : String} (hname : name ≠ bundle.issuer.keyId)
    (report : ImportReport) {b : TrustBundle} :
    Copy c (recorded c bundle report policy ws) name b ↔ Copy c ws name b := by
  rw [copy_iff, copy_iff, bundles_recorded, AList.lookup_insert_ne hname]

/-- A recorded bundle that can be kept stays accepted. -/
theorem staysAccepted_recorded (hc : Rereads c) (hload : loadPolicy c ws = .ok policy)
    (hjudged : Judged c ws path file expectedIssuer now bundle previous handoverFrom)
    (hcurrent : isCurrent previous bundle = false) (hkeep : Keepable c ws policy bundle previous)
    (report : ImportReport) :
    StaysAccepted c path file bundle (recorded c bundle report policy ws) := by
  have hpasses := passes_of_failedChecks hjudged.passes
  obtain ⟨hsmall, hfits⟩ := hkeep.fits hcurrent
  have hloaded := loadPolicy_recorded hpasses.keys hload hfits report
  have htrusted : isRevoked (policy.withKeys (mergeKeys policy.keys report bundle.keys).1)
      bundle.issuer.keyId = false := by
    obtain ⟨policy', hload', hbefore⟩ := hjudged.loads
    rw [hload] at hload'
    cases hload'
    rw [isRevoked_eq_false_iff] at hbefore ⊢
    show standingIn (mergeKeys policy.keys report bundle.keys).1 bundle.issuer.keyId ≤ .trusted
    rw [standingIn_mergeKeys hpasses.keys.nodup hpasses.keys.dated, stated_issuer hpasses]
    exact max_le hbefore le_rfl
  apply staysAccepted_of_copy hjudged.read hjudged.passes hloaded htrusted
    (copy_recorded hc hjudged.read hsmall report) (by simp [isCurrent]) (UInt64.le_refl _)
  intro name node hname hnode
  rw [bundles_recorded, AList.lookup_insert_ne hname] at hnode
  obtain ⟨b, hcopy⟩ := hkeep.others name node hname hnode
  exact ⟨b, (copy_recorded_other hname report).mpr hcopy⟩

/-- One that was accepted already stays so. -/
theorem staysAccepted_current
    (hjudged : Judged c ws path file expectedIssuer now bundle previous handoverFrom)
    (hcurrent : isCurrent previous bundle = true) (hkeep : Keepable c ws policy bundle previous) :
    StaysAccepted c path file bundle ws := by
  obtain ⟨_, hload, htrusted⟩ := hjudged.loads
  have haccepted := hjudged.accepted
  have hground := hjudged.ground
  cases previous with
  | none => cases hcurrent
  | some accepted =>
    exact staysAccepted_of_copy hjudged.read hjudged.passes hload htrusted
      (acceptedBundle_some_iff.mp haccepted) hcurrent
      (grounds_later_iff.mp ⟨handoverFrom, hground⟩).1 hkeep.others

/-! ### What it takes -/

theorem keepable_of_recorded {report : ImportReport}
    (hjudged : Judged c ws path file expectedIssuer now bundle previous handoverFrom)
    (h : StaysAccepted c path file bundle (recorded c bundle report policy ws)) :
    Keepable c ws policy bundle previous := by
  have hkeys := (passes_of_failedChecks hjudged.passes).keys
  obtain ⟨bundles, hbundles⟩ := h.readable
  have hcopies := (acceptedBundles_ok hbundles).1
  refine ⟨?_, ?_⟩
  · intro _
    refine ⟨?_, ?_⟩
    · have hplaced : (recorded c bundle report policy ws).trustDir.bundles.lookup
          bundle.issuer.keyId = some (.file bundle.written) := by
        rw [bundles_recorded, AList.lookup_insert]
      obtain ⟨found, hcopy⟩ := hcopies _ _ hplaced
      obtain ⟨bytes, hbytes, hsmall, -⟩ := copy_iff.mp hcopy
      rw [hplaced] at hbytes
      cases hbytes
      exact hsmall
    · intro key hkey _
      -- the second import loads the policy, and the entry is in it
      obtain ⟨hstart, hend⟩ := window_of_failedChecks hjudged.passes
      obtain ⟨report', hagain, -⟩ := h.again now hstart hend none (by simp) []
      obtain ⟨_, _, _, hjudged', -⟩ := importBundle_ok hagain
      obtain ⟨policy', hload', -⟩ := hjudged'.loads
      exact fits_of_recorded hkeys hload' hkey
  · intro name node hname hnode
    have hsame : (recorded c bundle report policy ws).trustDir.bundles.lookup name = some node := by
      rw [bundles_recorded, AList.lookup_insert_ne hname]
      exact hnode
    obtain ⟨b, hcopy⟩ := hcopies name node hsame
    exact ⟨b, (copy_recorded_other hname report).mp hcopy⟩

theorem keepable_of_current (hcurrent : isCurrent previous bundle = true)
    (h : StaysAccepted c path file bundle ws) : Keepable c ws policy bundle previous := by
  obtain ⟨bundles, hbundles⟩ := h.readable
  refine ⟨?_, ?_⟩
  · intro hother
    rw [hcurrent] at hother
    cases hother
  · intro name node _ hnode
    exact (acceptedBundles_ok hbundles).1 name node hnode

/-- **What is accepted stays accepted, with every copy readable and a second import a no-op, exactly
when every bundle that goes through can be kept.** -/
theorem reimport_noop_iff (hc : Rereads c) (hread : readBundle c path file = .ok bundle)
    (ws : Workspace) (expectedIssuer : Option String) (now : DateTime) :
    (∀ outcomes report w', importBundle c path file expectedIssuer now ⟨ws, outcomes⟩ =
        .ok report w' → StaysAccepted c path file bundle w'.fs) ↔
      ∀ policy previous, loadPolicy c ws = .ok policy →
        GoesThrough c ws path file expectedIssuer now bundle previous →
        Keepable c ws policy bundle previous := by
  refine ⟨?_, ?_⟩
  · intro h policy previous hload hgoes
    obtain ⟨⟨handoverFrom, hjudged⟩, hwritable⟩ := hgoes
    cases hcurrent : isCurrent previous bundle with
    | true =>
      exact keepable_of_current hcurrent (h [] _ _ (importBundle_current hjudged hcurrent []))
    | false =>
      rcases hwritable with hcurrent' | ⟨hcan, hcopy⟩
      · rw [hcurrent] at hcurrent'
        cases hcurrent'
      · have hkeys := (passes_of_failedChecks hjudged.passes).keys
        have hrun := (importBundle_run hjudged hcurrent []).trans
          (record_run hkeys hload hcan hcopy)
        exact keepable_of_recorded hjudged (h [] _ _ hrun)
  · intro hkeep outcomes report w' h
    obtain ⟨found, previous, handoverFrom, hjudged, hcase⟩ := importBundle_ok h
    obtain rfl := hjudged.bundle_eq hread
    obtain ⟨policy, hload, -⟩ := hjudged.loads
    rcases hcase with ⟨hcurrent, rfl, -⟩ | ⟨hcurrent, hrecord⟩
    · exact staysAccepted_current hjudged hcurrent
        (hkeep policy previous hload ⟨⟨handoverFrom, hjudged⟩, .inl hcurrent⟩)
    · obtain ⟨policy', hload', -, hfs, hcan, hcopy⟩ := record_ok hrecord
      have hsame := loadPolicy_ensureKeys hload (passes_of_failedChecks hjudged.passes).keys.derive
      rw [hload'] at hsame
      cases hsame
      obtain ⟨pubs, hdir⟩ := trustDir_ensureKeys c bundle.keys (created ws)
      rw [hdir] at hcan hcopy
      rw [hfs]
      exact staysAccepted_recorded hc hload hjudged hcurrent
        (hkeep policy previous hload ⟨⟨handoverFrom, hjudged⟩, .inr ⟨hcan, hcopy⟩⟩) _

end Copies

theorem reimport_noop_sample : Rereads (sampleCrates [sampleBundleA]) ∧
    readBundle (sampleCrates [sampleBundleA]) "a.json" (some (.file sampleBundleA.written)) =
      .ok sampleBundleA ∧
    ∀ outcomes report w', importBundle (sampleCrates [sampleBundleA]) "a.json"
      (some (.file sampleBundleA.written)) (some sampleIdA) (sampleDay 1775001600)
      ⟨sampleWorld.fs, outcomes⟩ = .ok report w' →
      StaysAccepted (sampleCrates [sampleBundleA]) "a.json" (some (.file sampleBundleA.written))
        sampleBundleA w'.fs := by
  have hsmall : sampleBundleA.written.length ≤ bundleLimit := by
    rw [length_written_sampleA]
    decide
  have hread : readBundle (sampleCrates [sampleBundleA]) "a.json"
      (some (.file sampleBundleA.written)) = .ok sampleBundleA :=
    readBundle_ok_iff.mpr ⟨_, rfl, hsmall, fromSlice_sample_written _⟩
  refine ⟨rereads_sample _, hread, (reimport_noop_iff (rereads_sample _) hread _ _ _).mpr ?_⟩
  intro policy previous _ _
  refine ⟨fun _ => ⟨hsmall, ?_⟩, ?_⟩
  · intro key _ _ node hnode
    cases hnode
  · intro name node _ hnode
    cases hnode

/-! ### A bundle that outgrows the limit

One key with a name of a million letters. The text its issuer hands over, without line breaks, has
1048561 bytes; the copy has 1048651. -/

/-- The letter `a`, over and over. -/
def sampleLongName : String := hexEncode (List.replicate 524000 170)

def sampleSignatureLarge : Vector UInt8 64 :=
  #v[101, 191, 39, 146, 246, 130, 79, 119, 38, 176, 77, 180, 212, 34, 62, 101,
    49, 207, 230, 171, 173, 116, 159, 49, 149, 124, 121, 111, 211, 149, 188, 80,
    97, 152, 88, 166, 106, 119, 197, 162, 194, 237, 181, 16, 192, 227, 100, 150,
    250, 196, 168, 45, 158, 224, 216, 173, 14, 185, 123, 42, 216, 153, 118, 12]

/-- A bundle of the first authority for itself alone, under some name. -/
def sampleNamed (name : String) : TrustBundle where
  schemaVersion := 1
  issuer := sampleIssuerA
  issuedAt := sampleDay 1772323200 march_inRange
  validUntil := sampleDay 1803859200 nextMarch_inRange
  sequence := 1772323200000000000
  keys := [⟨sampleIdA, name, hexEncode samplePublicA.bytes.toList, .trusted, none⟩]
  successor := none
  signature := some (hexEncode sampleSignatureLarge.toList)

theorem bundleSize_sampleNamed (l : Json.Spacing) (bytes : Bytes) :
    bundleSize l (sampleNamed (hexEncode bytes)) = 2 * bytes.length + 4 * l.newline 3 +
      4 * l.newline 2 + 9 * l.newline 1 + l.newline 0 + 13 * l.colon + 548 := by
  have hissuer : issuerSize l 1 (sampleNamed (hexEncode bytes)).issuer =
      2 * l.newline 2 + l.newline 1 + 2 * l.colon + 123 :=
    issuerSize_sample l sampleDigestA samplePublicA
  have hkeys : (sampleNamed (hexEncode bytes)).keys.map (keySize l 2) =
      [4 * l.newline 3 + l.newline 2 + 4 * l.colon + 146 + 2 * bytes.length] := by
    have hsize := keySize_sample l sampleDigestA samplePublicA (hexEncode bytes) .trusted none
    rw [escapedSize_hexEncode] at hsize
    exact congrArg (fun size => [size]) hsize
  have hsignature : (sampleNamed (hexEncode bytes)).signature.map Json.escapedSize = some 128 :=
    congrArg some (escapedSize_hexEncode sampleSignatureLarge.toList)
  have hversion : (toString (1 : UInt32).toNat).utf8ByteSize = 1 := by decide +kernel
  have hsequence : (toString (1772323200000000000 : UInt64).toNat).utf8ByteSize = 19 := by
    decide +kernel
  have hissued : Json.escapedSize (sampleDay 1772323200).rfc3339 = 20 := by decide +kernel
  have huntil : Json.escapedSize (sampleDay 1803859200).rfc3339 = 20 := by decide +kernel
  have hsuccessor : (sampleNamed (hexEncode bytes)).successor.map (issuerSize l 1) = none := rfl
  rw [bundleSize_of_parts l hissuer hkeys hsuccessor hsignature]
  simp only [sampleNamed, hversion, hsequence, hissued, huntil, List.map_cons, List.map_nil,
    List.sum_cons, List.sum_nil, List.length_cons, List.length_nil, List.isEmpty_cons, Option.elim,
    Bool.false_eq_true, if_false]
  omega

section Large
variable {bundles : List TrustBundle}

theorem keyId_sampleA : keyId (sampleCrates bundles) samplePublicA = sampleIdA := by
  simp [keyId, sampleCrates, sampleIdA]

theorem keysCheck_sampleNamed (name : String) :
    (keysCheck (sampleCrates bundles) (sampleNamed name)).passed = true := by
  have hid : keyIdFromHex (sampleCrates bundles) (hexEncode samplePublicA.bytes.toList) =
      .ok sampleIdA := by
    rw [keyIdFromHex, keyFromHex_sample]
    show Except.ok (keyId (sampleCrates bundles) samplePublicA) = _
    rw [keyId_sampleA]
  simp [keysCheck, keysLoop, sampleNamed, sampleIssuerA, hid]

theorem failedChecks_sampleNamed {name : String} (hmem : sampleNamed name ∈ bundles) {now : DateTime}
    (hstart : sampleDay 1772323200 ≤ now) (hend : now ≤ sampleDay 1803859200) :
    failedChecks (sampleCrates bundles) (sampleNamed name) now = [] := by
  apply failedChecks_of_passed rfl (keyFromHex_sample samplePublicA) keyId_sampleA
    (signatureCheck_sample hmem rfl rfl) (keysCheck_sampleNamed name) _ hstart hend
  intro s hs
  cases hs

end Large

/-- The bundle with the long name. -/
def sampleLarge : TrustBundle := sampleNamed sampleLongName

/-- The text that is handed over. -/
def sampleLargeFile : Option (Node Bytes) := some (.file (utf8 (Json.compact sampleLarge.toJson)))

theorem readBundle_sampleLarge (path : String) :
    readBundle (sampleCrates [sampleLarge]) path sampleLargeFile = .ok sampleLarge := by
  have hsmall : (utf8 (Json.compact sampleLarge.toJson)).length ≤ bundleLimit := by
    rw [TrustBundle.length_compact, sampleLarge, sampleLongName, bundleSize_sampleNamed,
      List.length_replicate]
    decide +kernel
  exact readBundle_ok_iff.mpr ⟨_, rfl, hsmall, fromSlice_sample_compact sampleLarge⟩

theorem length_written_sampleLarge : sampleLarge.written.length = 1048651 := by
  rw [TrustBundle.length_written, sampleLarge, sampleLongName, bundleSize_sampleNamed,
    List.length_replicate]
  decide +kernel

/-- The store after its import. -/
def sampleOutgrown : Workspace :=
  recorded (sampleCrates [sampleLarge]) sampleLarge (emptyReport sampleLarge none) {} sampleWorld.fs

theorem importBundle_sampleLarge : ∃ report, importBundle (sampleCrates [sampleLarge]) "a.json"
    sampleLargeFile (some sampleIdA) (sampleDay 1775001600) sampleWorld =
      .ok report ⟨sampleOutgrown, []⟩ := by
  have hjudged : Judged (sampleCrates [sampleLarge]) sampleWorld.fs "a.json" sampleLargeFile
      (some sampleIdA) (sampleDay 1775001600) sampleLarge none none := by
    refine ⟨readBundle_sampleLarge _, failedChecks_sampleNamed (List.mem_singleton_self _)
      (by decide) (by decide), ⟨{}, rfl, rfl⟩, ?_, rfl, rfl⟩
    intro e he
    exact (Option.some.inj he).symm
  have hkeys := (passes_of_failedChecks hjudged.passes).keys
  have hrecord := @record_run (sampleCrates [sampleLarge]) sampleLarge (emptyReport sampleLarge none)
    sampleWorld.fs {} hkeys rfl rfl rfl
  exact ⟨_, (importBundle_run hjudged rfl []).trans hrecord⟩

/-- The import succeeds; then the copies cannot be read, and the same call fails. -/
theorem large_bundle_blocks_its_issuer :
    readBundle (sampleCrates [sampleLarge]) "a.json" sampleLargeFile = .ok sampleLarge ∧
    ∃ report w', importBundle (sampleCrates [sampleLarge]) "a.json" sampleLargeFile (some sampleIdA)
        (sampleDay 1775001600) sampleWorld = .ok report w' ∧
      (¬ ∃ bundles, acceptedBundles (sampleCrates [sampleLarge]) w'.fs = .ok bundles) ∧
      ¬ ∃ report' w'', importBundle (sampleCrates [sampleLarge]) "a.json" sampleLargeFile
        (some sampleIdA) (sampleDay 1775001600) w' = .ok report' w'' := by
  obtain ⟨report, hrun⟩ := importBundle_sampleLarge
  have hplaced : sampleOutgrown.trustDir.bundles.lookup sampleIdA =
      some (.file sampleLarge.written) := by
    rw [sampleOutgrown, bundles_recorded]
    exact AList.lookup_insert _
  have hunreadable : ∀ found, ¬ Copy (sampleCrates [sampleLarge]) sampleOutgrown sampleIdA found := by
    intro found hcopy
    obtain ⟨bytes, hbytes, hsmall, -⟩ := copy_iff.mp hcopy
    rw [hplaced] at hbytes
    cases hbytes
    rw [length_written_sampleLarge] at hsmall
    exact absurd hsmall (by decide +kernel)
  refine ⟨readBundle_sampleLarge _, report, _, hrun, ?_, ?_⟩
  · intro h
    obtain ⟨bundles, hbundles⟩ := h
    obtain ⟨found, hcopy⟩ := (acceptedBundles_ok hbundles).1 _ _ hplaced
    exact hunreadable found hcopy
  · intro h
    obtain ⟨report', w'', hagain⟩ := h
    obtain ⟨found, previous, handoverFrom, hjudged, -⟩ := importBundle_ok hagain
    obtain rfl := hjudged.bundle_eq (readBundle_sampleLarge _)
    have haccepted := hjudged.accepted
    cases previous with
    | some accepted => exact hunreadable accepted (acceptedBundle_some_iff.mp haccepted)
    | none =>
      have hfree := acceptedBundle_none_iff.mp haccepted
      have htaken : isFile (sampleOutgrown.trustDir.bundles.lookup sampleIdA) = true := by
        rw [hplaced]
        rfl
      exact absurd (htaken.symm.trans hfree) (by decide)

end Attest.Trust
