import Attest.Trust.Loading

/-! The copies a store keeps, and what they let through.

A copy of the last bundle accepted from an issuer stays on disk, and a later one is
compared with it. What `accepted_bundle` and `accepted_bundles` find is told by the
files under `bundles/`; a first bundle has its grounds in them, and a later one its
place after the copy. -/
namespace Attest.Trust
open Library Library.Fallible

section Copies
variable {c : Crates}

/-! ### Copies on disk -/

theorem readBundle_ok_iff {path : String} {node : Option (Node Bytes)} {bundle : TrustBundle} :
    readBundle c path node = .ok bundle ↔
      ∃ bytes, node = some (.file bytes) ∧ bytes.length ≤ bundleLimit ∧
        c.fromSlice bytes = .ok bundle := by
  unfold readBundle
  cases hcontent : contentOf node with
  | none =>
    simp only [reduceCtorEq, false_iff]
    intro h
    obtain ⟨bytes, rfl, -⟩ := h
    cases hcontent
  | some bytes =>
    rw [contentOf_eq_some] at hcontent
    subst hcontent
    simp only [Option.some.injEq, Node.file.injEq]
    split
    next hlarge =>
      simp only [reduceCtorEq, false_iff]
      intro h
      obtain ⟨_, rfl, hsmall, -⟩ := h
      omega
    next hsmall =>
      cases hparse : c.fromSlice bytes with
      | error e =>
        simp only [mapError_error, reduceCtorEq, false_iff]
        intro h
        obtain ⟨_, rfl, -, hok⟩ := h
        rw [hparse] at hok
        cases hok
      | ok found =>
        simp only [mapError_ok, Except.ok.injEq]
        refine ⟨?_, ?_⟩
        · intro h
          exact ⟨bytes, rfl, by omega, by rw [hparse, h]⟩
        · intro h
          obtain ⟨_, rfl, -, hok⟩ := h
          rw [hparse] at hok
          exact Except.ok.inj hok

/-- A copy in `bundles/` that the code can read. -/
def Copy (c : Crates) (ws : Workspace) (name : String) (bundle : TrustBundle) : Prop :=
  ∃ path, readBundle c path (ws.trustDir.bundles.lookup name) = .ok bundle

theorem copy_iff {ws : Workspace} {name : String} {bundle : TrustBundle} :
    Copy c ws name bundle ↔ ∃ bytes, ws.trustDir.bundles.lookup name = some (.file bytes) ∧
      bytes.length ≤ bundleLimit ∧ c.fromSlice bytes = .ok bundle := by
  unfold Copy
  refine ⟨?_, ?_⟩
  · intro h
    obtain ⟨_, h⟩ := h
    exact readBundle_ok_iff.mp h
  · intro h
    exact ⟨"", readBundle_ok_iff.mpr h⟩

/-- The bundle in a copy, whether or not the copy is small enough to be read. -/
def onDisk (c : Crates) (ws : Workspace) (issuer : String) : Option TrustBundle :=
  match ws.trustDir.bundles.lookup issuer with
  | some (.file bytes) => (c.fromSlice bytes).toOption
  | _ => none

theorem acceptedBundle_some_iff {ws : Workspace} {issuer : String} {bundle : TrustBundle} :
    acceptedBundle c ws issuer = .ok (some bundle) ↔ Copy c ws issuer bundle := by
  rw [copy_iff]
  unfold acceptedBundle
  cases hnode : ws.trustDir.bundles.lookup issuer with
  | none => simp [isFile]
  | some node =>
    cases node with
    | folder => simp [isFile]
    | locked => simp [isFile, readBundle, contentOf, Except.map]
    | file bytes =>
      simp only [isFile, if_true]
      rw [← hnode]
      refine ⟨?_, ?_⟩
      · intro h
        cases hread : readBundle c (copyPath ws issuer) (ws.trustDir.bundles.lookup issuer) with
        | error e =>
          rw [hread] at h
          cases h
        | ok found =>
          rw [hread] at h
          cases h
          exact readBundle_ok_iff.mp hread
      · intro h
        rw [readBundle_ok_iff.mpr h]
        rfl

/-- `accepted_bundle` finds nothing exactly when there is no file of that name. -/
theorem acceptedBundle_none_iff {ws : Workspace} {issuer : String} :
    acceptedBundle c ws issuer = .ok none ↔ isFile (ws.trustDir.bundles.lookup issuer) = false := by
  unfold acceptedBundle
  simp only
  split
  next hfile =>
    simp only [hfile, reduceCtorEq, iff_false]
    intro h
    cases hread : readBundle c (copyPath ws issuer) (ws.trustDir.bundles.lookup issuer) with
    | error e =>
      rw [hread] at h
      cases h
    | ok found =>
      rw [hread] at h
      cases h
  next hfile => simpa using hfile

theorem readAll_ok {ws : Workspace} {entries : List (Sigma fun _ : String => Node Bytes)}
    {bundles : List TrustBundle} (h : readAll c ws entries = .ok bundles) :
    (∀ e ∈ entries, ∃ b, readBundle c (copyPath ws e.1) (some e.2) = .ok b) ∧
      ∀ b, b ∈ bundles ↔ ∃ e ∈ entries, readBundle c (copyPath ws e.1) (some e.2) = .ok b := by
  induction entries generalizing bundles with
  | nil =>
    cases h
    simp
  | cons e rest ih =>
    obtain ⟨name, node⟩ := e
    simp only [readAll, except_bind_eq_ok] at h
    obtain ⟨first, hfirst, others, hothers, ⟨⟩⟩ := h
    obtain ⟨hall, hmem⟩ := ih hothers
    refine ⟨?_, ?_⟩
    · intro e he
      rcases List.mem_cons.mp he with rfl | he
      · exact ⟨first, hfirst⟩
      · exact hall e he
    · intro b
      rw [List.mem_cons, hmem b]
      refine ⟨?_, ?_⟩
      · intro h
        rcases h with rfl | ⟨e, he, hb⟩
        · exact ⟨⟨name, node⟩, List.mem_cons_self, hfirst⟩
        · exact ⟨e, List.mem_cons_of_mem _ he, hb⟩
      · intro h
        obtain ⟨e, he, hb⟩ := h
        rcases List.mem_cons.mp he with rfl | he
        · left
          rw [hfirst] at hb
          exact (Except.ok.inj hb).symm
        · exact .inr ⟨e, he, hb⟩

/-- `accepted_bundles` gives the copies, and only when every file there is one. -/
theorem acceptedBundles_ok {ws : Workspace} {bundles : List TrustBundle}
    (h : acceptedBundles c ws = .ok bundles) :
    (∀ name node, ws.trustDir.bundles.lookup name = some node → ∃ b, Copy c ws name b) ∧
      ∀ b, b ∈ bundles ↔ ∃ name, Copy c ws name b := by
  obtain ⟨hall, hmem⟩ := readAll_ok h
  refine ⟨?_, ?_⟩
  · intro name node hnode
    obtain ⟨b, hb⟩ := hall ⟨name, node⟩ (AList.mem_lookup_iff.mp hnode)
    refine ⟨b, copyPath ws name, ?_⟩
    rw [hnode]
    exact hb
  · intro b
    rw [hmem b]
    refine ⟨?_, ?_⟩
    · intro h
      obtain ⟨⟨name, node⟩, he, hb⟩ := h
      refine ⟨name, copyPath ws name, ?_⟩
      rw [AList.mem_lookup_iff.mpr he]
      exact hb
    · intro h
      obtain ⟨name, hcopy⟩ := h
      obtain ⟨bytes, hnode, hrest⟩ := copy_iff.mp hcopy
      exact ⟨⟨name, .file bytes⟩, AList.mem_lookup_iff.mp hnode,
        readBundle_ok_iff.mpr ⟨bytes, rfl, hrest⟩⟩

theorem readAll_of_copies {ws : Workspace} {entries : List (Sigma fun _ : String => Node Bytes)}
    (h : ∀ e ∈ entries, ∃ path b, readBundle c path (some e.2) = .ok b) :
    ∃ bundles, readAll c ws entries = .ok bundles := by
  induction entries with
  | nil => exact ⟨[], rfl⟩
  | cons e rest ih =>
    obtain ⟨path, first, hfirst⟩ := h e List.mem_cons_self
    obtain ⟨others, hothers⟩ := ih fun e he => h e (List.mem_cons_of_mem _ he)
    have hfirst : readBundle c (copyPath ws e.1) (some e.2) = .ok first :=
      readBundle_ok_iff.mpr (readBundle_ok_iff.mp hfirst)
    exact ⟨first :: others, except_bind_eq_ok.mpr ⟨first, hfirst, except_bind_eq_ok.mpr
      ⟨others, hothers, rfl⟩⟩⟩

/-- `accepted_bundles` succeeds where every file is a copy that can be read. -/
theorem acceptedBundles_of_copies {ws : Workspace}
    (h : ∀ name node, ws.trustDir.bundles.lookup name = some node → ∃ b, Copy c ws name b) :
    ∃ bundles, acceptedBundles c ws = .ok bundles := by
  apply readAll_of_copies
  intro e he
  have hnode := AList.mem_lookup_iff.mpr he
  obtain ⟨b, path, hread⟩ := h e.1 e.2 hnode
  rw [hnode] at hread
  exact ⟨path, b, hread⟩

/-! ### Grounds -/

theorem namesSuccessor_iff {issuer : Issuer} {accepted : TrustBundle} :
    namesSuccessor issuer accepted = true ↔ accepted.successor = some issuer := by
  unfold namesSuccessor
  cases accepted.successor with
  | none => simp
  | some s =>
    obtain ⟨id, key⟩ := s
    obtain ⟨id', key'⟩ := issuer
    simp

/-- A first bundle without an issuer named by the recipient is let through exactly when a copy
names its issuer. -/
theorem grounds_first_iff {ws : Workspace} {bundle : TrustBundle} :
    (∃ handoverFrom, grounds c ws bundle none none = .ok handoverFrom) ↔
      ∃ bundles, acceptedBundles c ws = .ok bundles ∧
        ∃ accepted ∈ bundles, accepted.successor = some bundle.issuer := by
  simp only [grounds, except_bind_eq_ok]
  refine ⟨?_, ?_⟩
  · intro h
    obtain ⟨handoverFrom, bundles, hbundles, h⟩ := h
    refine ⟨bundles, hbundles, ?_⟩
    cases hfind : bundles.find? (namesSuccessor bundle.issuer) with
    | none =>
      rw [hfind] at h
      cases h
    | some accepted =>
      exact ⟨accepted, List.mem_of_find?_eq_some hfind,
        namesSuccessor_iff.mp (List.find?_some hfind)⟩
  · intro h
    obtain ⟨bundles, hbundles, accepted, hmem, hnames⟩ := h
    cases hfind : bundles.find? (namesSuccessor bundle.issuer) with
    | none =>
      have := List.find?_eq_none.mp hfind accepted hmem
      exact absurd (namesSuccessor_iff.mpr hnames) this
    | some predecessor =>
      refine ⟨some (predecessor.issuer.keyId, predecessor.sequence), bundles, hbundles, ?_⟩
      rw [hfind]
      rfl

/-- A later bundle is let through when it is not older than the copy, and not another one of the
same sequence. -/
theorem grounds_later_iff {ws : Workspace} {bundle previous : TrustBundle}
    {expectedIssuer : Option String} :
    (∃ handoverFrom, grounds c ws bundle expectedIssuer (some previous) = .ok handoverFrom) ↔
      previous.sequence ≤ bundle.sequence ∧
        ¬ (bundle.sequence = previous.sequence ∧ bundle.signature ≠ previous.signature) := by
  unfold grounds
  simp only
  split
  next holder =>
    simp only [reduceCtorEq, exists_false, false_iff, not_and]
    intro hle
    exact absurd holder (UInt64.not_lt.mpr hle)
  next hnewer =>
    split
    next hfork => simp [hfork]
    next hfork => simp [UInt64.not_lt.mp hnewer, hfork]

end Copies

/-! ### Sample bundles

Two bundles with the signatures the sample keys give them. The first authority vouches for the
second, names it as successor and revokes a third key; the second revokes that key at a later
date. -/

def sampleIssuerA : Issuer := ⟨sampleIdA, hexEncode samplePublicA.bytes.toList⟩

def sampleIssuerB : Issuer := ⟨sampleIdB, hexEncode samplePublicB.bytes.toList⟩

def sampleKeyA : BundledKey :=
  ⟨sampleIdA, "authority", hexEncode samplePublicA.bytes.toList, .trusted, none⟩

def sampleKeyB : BundledKey :=
  ⟨sampleIdB, "release", hexEncode samplePublicB.bytes.toList, .trusted, none⟩

/-- The third key, revoked. -/
def sampleKeyC (date : DateTime) : BundledKey :=
  ⟨sampleIdC, "laptop", hexEncode samplePublicC.bytes.toList, .revoked, some date⟩

def sampleSignatureA : Vector UInt8 64 :=
  #v[59, 21, 56, 178, 106, 24, 102, 236, 28, 32, 185, 151, 42, 212, 232, 169,
    135, 65, 189, 61, 73, 221, 88, 18, 191, 182, 242, 162, 127, 102, 218, 240,
    18, 235, 42, 45, 74, 240, 207, 125, 153, 85, 221, 44, 220, 196, 192, 86,
    70, 37, 78, 9, 0, 78, 171, 63, 90, 73, 108, 210, 201, 92, 199, 4]

def sampleSignatureB : Vector UInt8 64 :=
  #v[215, 160, 55, 25, 224, 74, 25, 255, 42, 235, 181, 176, 229, 91, 166, 136,
    188, 149, 229, 131, 207, 102, 27, 36, 168, 8, 4, 223, 233, 228, 159, 248,
    221, 202, 35, 18, 114, 205, 58, 207, 186, 220, 96, 101, 230, 147, 80, 191,
    231, 203, 1, 171, 139, 225, 202, 56, 148, 22, 251, 255, 174, 4, 27, 4]

/-- Issued on the first of March 2026, for a year. -/
def sampleBundleA : TrustBundle where
  schemaVersion := 1
  issuer := sampleIssuerA
  issuedAt := sampleDay 1772323200
  validUntil := sampleDay 1803859200
  sequence := 1772323200000000000
  keys := [sampleKeyB, sampleKeyA, sampleKeyC (sampleDay 1767225600)]
  successor := some sampleIssuerB
  signature := some (hexEncode sampleSignatureA.toList)

/-- Issued on the first of April 2026, for eleven months. -/
def sampleBundleB : TrustBundle where
  schemaVersion := 1
  issuer := sampleIssuerB
  issuedAt := sampleDay 1775001600
  validUntil := sampleDay 1803859200
  sequence := 1775001600000000000
  keys := [sampleKeyB, sampleKeyC (sampleDay 1769904000)]
  successor := none
  signature := some (hexEncode sampleSignatureB.toList)

section Samples
variable {bundles : List TrustBundle}

theorem keyFromHex_sample (key : VerifyingKey) :
    keyFromHex (sampleCrates bundles) (hexEncode key.bytes.toList) = .ok key := by
  simp only [keyFromHex, hexDecode_hexEncode, toVector_toList]
  rfl

theorem signatureCheck_sample {bundle : TrustBundle} (hmem : bundle ∈ bundles) {key : VerifyingKey}
    {signature : Vector UInt8 64} (hkey : bundle.issuer.publicKey = hexEncode key.bytes.toList)
    (hsignature : bundle.signature = some (hexEncode signature.toList)) :
    (signatureCheck (sampleCrates bundles) bundle (some key)).passed = true := by
  have hverify : (sampleCrates bundles).verify key bundle.signingBytes signature = true := by
    simp only [sampleCrates, List.any_eq_true]
    exact ⟨bundle, hmem, by simp [hkey, hsignature]⟩
  simp only [signatureCheck, hsignature, hexDecode_hexEncode, Option.bind_some, toVector_toList,
    hverify]
  rfl

theorem fromSlice_sample_written (bundle : TrustBundle) :
    (sampleCrates (bundle :: bundles)).fromSlice bundle.written = .ok bundle := by
  simp [sampleCrates]

theorem fromSlice_sample_compact (bundle : TrustBundle) :
    (sampleCrates (bundle :: bundles)).fromSlice (utf8 (Json.compact bundle.toJson)) =
      .ok bundle := by
  simp [sampleCrates]

theorem fromSlice_sample_cons {bundle : TrustBundle} {bytes : Bytes}
    (hcompact : bytes.length ≠ (utf8 (Json.compact bundle.toJson)).length)
    (hwritten : bytes.length ≠ bundle.written.length) :
    (sampleCrates (bundle :: bundles)).fromSlice bytes =
      (sampleCrates bundles).fromSlice bytes := by
  have hne : bytes ≠ utf8 (Json.compact bundle.toJson) := fun h => hcompact (by rw [h])
  have hne' : bytes ≠ bundle.written := fun h => hwritten (by rw [h])
  simp [sampleCrates, hne, hne']

/-- An issuer by an id of 16 bytes and a key of 32. -/
theorem issuerSize_sample (l : Json.Spacing) (digest : Vector UInt8 32) (key : VerifyingKey) :
    issuerSize l 1 ⟨hexEncode (digest.toList.take 16), hexEncode key.bytes.toList⟩ =
      2 * l.newline 2 + l.newline 1 + 2 * l.colon + 123 := by
  rw [issuerSize_hexEncode, List.length_take, Vector.length_toList, Vector.length_toList]
  simp only [Nat.reduceAdd]
  omega

theorem keySize_sample (l : Json.Spacing) (digest : Vector UInt8 32) (key : VerifyingKey)
    (name : String) (status : KeyStatus) (date : Option DateTime) :
    keySize l 2 ⟨hexEncode (digest.toList.take 16), name, hexEncode key.bytes.toList, status, date⟩ =
      4 * l.newline 3 + l.newline 2 + 4 * l.colon + 146 + Json.escapedSize name +
        date.elim 0 fun t => Json.escapedSize t.rfc3339 + l.newline 3 + l.colon + 15 := by
  rw [keySize_hexEncode, List.length_take, Vector.length_toList, Vector.length_toList]
  simp only [Nat.reduceAdd]
  omega

theorem length_written_sampleA : sampleBundleA.written.length = 1260 := by
  have hissuer : issuerSize Json.prettySpacing 1 sampleBundleA.issuer = 140 :=
    issuerSize_sample _ sampleDigestA samplePublicA
  have hsuccessor : sampleBundleA.successor.map (issuerSize Json.prettySpacing 1) = some 140 :=
    congrArg some (issuerSize_sample _ sampleDigestB samplePublicB)
  have hsignature : sampleBundleA.signature.map Json.escapedSize = some 128 :=
    congrArg some (escapedSize_hexEncode sampleSignatureA.toList)
  have hkeys : sampleBundleA.keys.map (keySize Json.prettySpacing 2) = [194, 196, 237] := by
    show [keySize _ _ ⟨hexEncode _, _, hexEncode _, _, _⟩,
      keySize _ _ ⟨hexEncode _, _, hexEncode _, _, _⟩,
      keySize _ _ ⟨hexEncode _, _, hexEncode _, _, _⟩] = _
    rw [keySize_sample, keySize_sample, keySize_sample]
    decide +kernel
  rw [TrustBundle.length_written, bundleSize_of_parts _ hissuer hkeys hsuccessor hsignature]
  decide +kernel

theorem length_compact_sampleB : (utf8 (Json.compact sampleBundleB.toJson)).length = 761 := by
  have hissuer : issuerSize Json.compactSpacing 1 sampleBundleB.issuer = 125 :=
    issuerSize_sample _ sampleDigestB samplePublicB
  have hsignature : sampleBundleB.signature.map Json.escapedSize = some 128 :=
    congrArg some (escapedSize_hexEncode sampleSignatureB.toList)
  have hkeys : sampleBundleB.keys.map (keySize Json.compactSpacing 2) = [157, 192] := by
    show [keySize _ _ ⟨hexEncode _, _, hexEncode _, _, _⟩,
      keySize _ _ ⟨hexEncode _, _, hexEncode _, _, _⟩] = _
    rw [keySize_sample, keySize_sample]
    decide +kernel
  rw [TrustBundle.length_compact, bundleSize_of_parts _ hissuer hkeys rfl hsignature]
  decide +kernel

theorem length_written_sampleB : sampleBundleB.written.length = 901 := by
  have hissuer : issuerSize Json.prettySpacing 1 sampleBundleB.issuer = 140 :=
    issuerSize_sample _ sampleDigestB samplePublicB
  have hsignature : sampleBundleB.signature.map Json.escapedSize = some 128 :=
    congrArg some (escapedSize_hexEncode sampleSignatureB.toList)
  have hkeys : sampleBundleB.keys.map (keySize Json.prettySpacing 2) = [194, 237] := by
    show [keySize _ _ ⟨hexEncode _, _, hexEncode _, _, _⟩,
      keySize _ _ ⟨hexEncode _, _, hexEncode _, _, _⟩] = _
    rw [keySize_sample, keySize_sample]
    decide +kernel
  rw [TrustBundle.length_written, bundleSize_of_parts _ hissuer hkeys rfl hsignature]
  decide +kernel

end Samples

/-- The crates with both bundles in the table. -/
def sampleAuthorities : Crates := sampleCrates [sampleBundleB, sampleBundleA]

theorem fromSlice_sampleA : sampleAuthorities.fromSlice sampleBundleA.written = .ok sampleBundleA := by
  rw [sampleAuthorities, fromSlice_sample_cons, fromSlice_sample_written]
  · rw [length_written_sampleA, length_compact_sampleB]
    decide
  · rw [length_written_sampleA, length_written_sampleB]
    decide

theorem fromSlice_sampleB : sampleAuthorities.fromSlice sampleBundleB.written = .ok sampleBundleB := by
  rw [sampleAuthorities, fromSlice_sample_written]

theorem readBundle_sampleA (path : String) :
    readBundle sampleAuthorities path (some (.file sampleBundleA.written)) = .ok sampleBundleA := by
  refine readBundle_ok_iff.mpr ⟨_, rfl, ?_, fromSlice_sampleA⟩
  rw [length_written_sampleA]
  decide

theorem readBundle_sampleB (path : String) :
    readBundle sampleAuthorities path (some (.file sampleBundleB.written)) = .ok sampleBundleB := by
  refine readBundle_ok_iff.mpr ⟨_, rfl, ?_, fromSlice_sampleB⟩
  rw [length_written_sampleB]
  decide

theorem failedChecks_sampleA {now : DateTime} (hstart : sampleBundleA.issuedAt ≤ now)
    (hend : now ≤ sampleBundleA.validUntil) :
    failedChecks sampleAuthorities sampleBundleA now = [] := by
  apply failedChecks_of_passed _ (keyFromHex_sample samplePublicA) _
    (signatureCheck_sample (by simp) rfl rfl) _ _ hstart hend
  · decide +kernel
  · decide +kernel
  · decide +kernel
  · decide +kernel

theorem failedChecks_sampleB {now : DateTime} (hstart : sampleBundleB.issuedAt ≤ now)
    (hend : now ≤ sampleBundleB.validUntil) :
    failedChecks sampleAuthorities sampleBundleB now = [] := by
  apply failedChecks_of_passed _ (keyFromHex_sample samplePublicB) _
    (signatureCheck_sample (by simp) rfl rfl) _ _ hstart hend
  · decide +kernel
  · decide +kernel
  · decide +kernel
  · intro s hs
    cases hs

end Attest.Trust
