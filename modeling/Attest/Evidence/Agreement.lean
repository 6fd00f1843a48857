import Attest.Evidence.Linkage
import Attest.Executor.Artifacts
import Attest.Hashing.Straight

/-! Where hashing and evidence take the same artifacts.

`hashing.rs` names an artifact by the text of a declared path, and refuses the control
characters a manifest cannot hold. `evidence.rs` reads an artifact by its name, and refuses
what no archive can hold: a name with a colon or a backslash, a link on the way, a file over
the limit of an entry. `taken_iff` says of which outputs all is taken that is hashed. -/
namespace Attest.Evidence
open Library Library.Fallible Storage Hashing
open Trust (Bytes Crates utf8 hexEncode)
open Verify (isDigest)
open Executor (artifactOf outputsWithArtifacts)

/-! ### The name of an artifact -/

section Names
variable {parts : List ManifestPath} {names : List Name}

theorem toList_joinParts (parts : List ManifestPath) :
    (joinParts parts).1.toList = ['/'].intercalate (parts.map fun part => part.1.toList) := by
  induction parts with
  | nil => rfl
  | cons part rest ih =>
    cases rest with
    | nil => exact List.intercalate_singleton.symm
    | cons next rest =>
      rw [List.map_cons] at ih
      rw [List.map_cons, List.map_cons, List.intercalate_cons_cons, ← ih]
      show (part.1 ++ "/" ++ (joinParts (next :: rest)).1).toList = _
      rw [String.toList_append, String.toList_append]
      rfl

theorem component_bytes (name : Name) : component name.bytes = .normal name := by
  rw [component, if_neg name.wellFormed.2.2.2, dif_pos name.wellFormed]

/-- Names with a slash between them start with none. -/
theorem head?_intercalate (names : List Name) :
    ([slash].intercalate (names.map Name.bytes)).head? ≠ some slash := by
  cases names with
  | nil => exact fun hhead => by cases hhead
  | cons name rest =>
    intro hhead
    obtain ⟨first, more, hbytes⟩ := List.exists_cons_of_ne_nil name.wellFormed.1
    have hfirst : first = slash := by
      cases rest with
      | nil =>
        rw [List.map_singleton, List.intercalate_singleton, hbytes] at hhead
        exact Option.some.inj hhead
      | cons next rest =>
        rw [List.map_cons, List.map_cons, List.intercalate_cons_cons, hbytes] at hhead
        exact Option.some.inj hhead
    apply name.wellFormed.2.1
    rw [hbytes, hfirst]
    exact List.mem_cons_self ..

/-- The path of names with a slash between them. -/
theorem ofString_of_names {text : String} (h : utf8 text = [slash].intercalate (names.map Name.bytes))
    (hne : names ≠ []) : Path.ofString text = ⟨false, names.map .normal⟩ := by
  have hrelative : ((utf8 text).head? == some slash) = false := by
    rw [h]
    exact beq_eq_false_iff_ne.mpr (head?_intercalate names)
  have hsplit : (utf8 text).splitOn slash = names.map Name.bytes := by
    rw [h]
    apply List.splitOn_intercalate
    · intro bytes hbytes
      obtain ⟨name, _, rfl⟩ := List.mem_map.mp hbytes
      exact name.wellFormed.2.1
    · exact fun hnil => hne (List.map_eq_nil_iff.mp hnil)
  rw [Path.ofString, Path.ofBytes, hrelative, if_neg Bool.false_ne_true, hsplit, List.map_map]
  congr 1
  apply List.map_congr_left
  intro name _
  exact component_bytes name

/-- The path of a name is what it was named after. -/
theorem ofString_joinParts (h : TextsOf parts names) (hne : names ≠ []) :
    Path.ofString (joinParts parts).1 = ⟨false, names.map .normal⟩ := by
  apply ofString_of_names _ hne
  rw [utf8_joinParts, h]

theorem slash_mem_utf8 {text : String} (h : '/' ∈ text.toList) : slash ∈ utf8 text := by
  obtain ⟨before, after, hsplit⟩ := List.append_of_mem h
  have htext : text = String.ofList before ++ "/" ++ String.ofList after := by
    apply String.toList_inj.mp
    rw [hsplit]
    simp
  rw [htext, utf8_append, utf8_append]
  exact List.mem_append_left _ (List.mem_append_right _ (List.mem_singleton.mpr rfl))

/-- What a name that hashing takes must be for evidence to take it. -/
def Plain (path : String) : Prop := path ≠ "" ∧ ':' ∉ path.toList ∧ '\\' ∉ path.toList

theorem wellFormed_part (h : TextsOf parts names) {part : ManifestPath} (hpart : part ∈ parts) :
    Name.WellFormed (utf8 part.1) := by
  have hmem : utf8 part.1 ∈ parts.map fun part => utf8 part.1 := List.mem_map_of_mem hpart
  rw [h] at hmem
  obtain ⟨name, _, hname⟩ := List.mem_map.mp hmem
  rw [← hname]
  exact name.wellFormed

/-- Of the names a manifest can hold, only these are refused. -/
theorem safePath_iff (h : TextsOf parts names) :
    SafePath (joinParts parts).1 ↔ Plain (joinParts parts).1 := by
  constructor
  · intro ⟨hne, hchars, _⟩
    refine ⟨hne, ?_, ?_⟩
    · exact fun hcolon => hchars ':' hcolon (by decide)
    · exact fun hbackslash => hchars '\\' hbackslash (by decide)
  · intro ⟨hne, hcolon, hbackslash⟩
    have hnames : names ≠ [] := by
      intro hnil
      subst hnil
      rw [List.map_eq_nil_iff.mp h] at hne
      exact hne rfl
    have hparts : parts ≠ [] := by
      intro hnil
      subst hnil
      exact hnames (List.map_eq_nil_iff.mp h.symm)
    refine ⟨hne, ?_, ?_, ?_, ?_⟩
    · intro c hc hbad
      have hcontrol := (joinParts parts).2 c hc
      simp only [List.mem_cons, List.not_mem_nil, or_false] at hbad
      rcases hbad with rfl | rfl | rfl | rfl | rfl
      · exact hbackslash hc
      · exact hcolon hc
      · exact absurd hcontrol (by decide)
      · exact absurd hcontrol (by decide)
      · exact absurd hcontrol (by decide)
    · rw [toList_joinParts, List.splitOn_intercalate '/']
      · intro chars hchars
        obtain ⟨part, hpart, rfl⟩ := List.mem_map.mp hchars
        have hformed := wellFormed_part h hpart
        refine ⟨?_, ?_, ?_⟩
        · intro hnil
          have htext : part.1 = "" := String.toList_inj.mp hnil
          rw [htext] at hformed
          exact hformed.1 rfl
        · intro hdot
          have htext : part.1 = "." := String.toList_inj.mp hdot
          rw [htext] at hformed
          exact hformed.2.2.1 rfl
        · intro hdots
          have htext : part.1 = ".." := String.toList_inj.mp hdots
          rw [htext] at hformed
          exact hformed.2.2.2 rfl
      · intro chars hchars hslash
        obtain ⟨part, hpart, rfl⟩ := List.mem_map.mp hchars
        exact (wellFormed_part h hpart).2.1 (slash_mem_utf8 hslash)
      · exact fun hnil => hparts (List.map_eq_nil_iff.mp hnil)
    · rw [ofString_joinParts h hnames]
    · rw [ofString_joinParts h hnames]
      intro part hpart
      obtain ⟨hmem, _⟩ := List.mem_filter.mp hpart
      obtain ⟨name, _, rfl⟩ := List.mem_map.mp hmem
      exact fun heq => by cases heq

end Names

/-! ### The inventory -/

section Inventory
variable {c : Crates} {receipt : Receipt} {steps : List String} {listed : List ArtifactInfo}
  {manifests : Manifests} {artifact : ArtifactInfo} {name hash : String} {entries : EntryMap}

theorem addArtifact_of_listable (h : Listable steps artifact)
    (hfresh : (manifests artifact.step).lookup artifact.path = none) :
    addArtifact steps manifests artifact = .ok (Function.update manifests artifact.step
      ((manifests artifact.step).insert artifact.path artifact)) := by
  simp only [addArtifact, safePath, except_bind_eq_ok, refuseIf_eq_ok, exists_const, not_not, pure,
    Except.pure, not_and, Bool.not_eq_false]
  refine ⟨h.path, h.step, h.algorithm, ?_, h.digest, ?_⟩
  · exact fun hfile => h.kind.resolve_left hfile
  · simpa using hfresh

theorem foldlM_addArtifact_of_listable (h : ∀ artifact ∈ listed, Listable steps artifact)
    (hfresh : ∀ artifact ∈ listed, (manifests artifact.step).lookup artifact.path = none)
    (hpaths : listed.Pairwise fun a b => a.path ≠ b.path) :
    ∃ manifests', listed.foldlM (addArtifact steps) manifests = .ok manifests' := by
  induction listed generalizing manifests with
  | nil => exact ⟨manifests, rfl⟩
  | cons artifact rest ih =>
    obtain ⟨hhead, hrest⟩ := List.pairwise_cons.mp hpaths
    rw [List.foldlM_cons, addArtifact_of_listable (h artifact (List.mem_cons_self ..))
      (hfresh artifact (List.mem_cons_self ..))]
    apply ih (fun other hother => h other (List.mem_cons_of_mem _ hother)) _ hrest
    intro other hother
    have hother' := hfresh other (List.mem_cons_of_mem _ hother)
    by_cases hstep : other.step = artifact.step
    · rw [hstep] at hother' ⊢
      rw [Function.update_self, SortedMap.lookup_insert, if_neg (hhead other hother).symm]
      exact hother'
    · rw [Function.update_of_ne hstep]
      exact hother'

/-- A receipt of one step, with these artifacts. -/
structure Attests (receipt : Receipt) (name hash : String) (listed : List ArtifactInfo) : Prop where
  step : ∃ result, receipt.steps = [result] ∧ result.name = name ∧ result.outputHash = hash
  artifacts : ∃ provenance, receipt.provenance = some provenance ∧ provenance.artifacts = listed

theorem listable_artifactOf (entry : ManifestPath × EntryLine) (h : SafePath entry.1.1) :
    Listable [name] (artifactOf name entry) where
  path := h
  step := List.mem_singleton.mpr rfl
  algorithm := rfl
  kind := by
    obtain ⟨path, kind, digest⟩ := entry
    cases kind with
    | file => exact .inl rfl
    | link => exact .inr rfl
  digest := isDigest_hexEncode _

/-- The inventory refuses no manifest but for the names in it. -/
theorem inventory_iff (hreceipt : Attests receipt name
      (hexEncode (c.blake3 (utf8 (outputText entries))).toList) (entries.entries.map (artifactOf name)))
    (hne : entries.entries.map (artifactOf name) ≠ []) :
    inventory c receipt = .ok () ↔ ∀ entry ∈ entries.entries, SafePath entry.1.1 := by
  obtain ⟨result, hsteps, hname, hhash⟩ := hreceipt.step
  obtain ⟨provenance, hprovenance, hartifacts⟩ := hreceipt.artifacts
  have hlisted : artifacts receipt = .ok (entries.entries.map (artifactOf name)) :=
    artifacts_eq_ok.mpr ⟨provenance, hprovenance, hartifacts, hne⟩
  constructor
  · intro h entry hentry
    obtain ⟨listed, hlisted', _, hlistable, _⟩ := inventory_eq_ok h
    cases hlisted.symm.trans hlisted'
    exact (hlistable _ (List.mem_map_of_mem hentry)).path
  · intro hsafe
    have hlistable : ∀ artifact ∈ entries.entries.map (artifactOf name), Listable [name] artifact := by
      intro artifact hartifact
      obtain ⟨entry, hentry, rfl⟩ := List.mem_map.mp hartifact
      exact listable_artifactOf entry (hsafe entry hentry)
    have hpaths : (entries.entries.map (artifactOf name)).Pairwise fun a b => a.path ≠ b.path := by
      apply List.pairwise_map.mpr
      apply entries.sorted.imp
      intro a b hlt heq
      exact hlt.ne (Subtype.ext heq)
    obtain ⟨manifests, hmanifests⟩ := @foldlM_addArtifact_of_listable [name] _ (fun _ => .empty)
      hlistable (fun _ _ => SortedMap.lookup_empty) hpaths
    have hown : ((entries.entries.map (artifactOf name)).filter fun artifact =>
        artifact.step == name) = entries.entries.map (artifactOf name) := by
      apply List.filter_eq_self.mpr
      intro artifact hartifact
      obtain ⟨entry, _, rfl⟩ := List.mem_map.mp hartifact
      exact beq_self_eq_true name
    have hmanifest : manifestOf (manifests name) = outputText entries := by
      rw [(foldlM_addArtifact hmanifests).2 name]
      exact Executor.manifestOf_rebuilt hown
    simp only [inventory, except_bind_eq_ok, refuseIf_eq_ok, exists_const, not_not, hsteps,
      List.map_singleton, hname]
    refine ⟨List.nodup_singleton _, _, hlisted, manifests, hmanifests, ?_⟩
    apply forM_eq_ok.mpr
    intro step hstep
    cases List.mem_singleton.mp hstep
    rw [checkStep, refuseIf_eq_ok, not_not, hname, hmanifest, hhash]

end Inventory

/-! ### The bytes -/

section Bytes
variable {c : Crates} {fs : FileSystem} {workspace base : Path} {artifact : ArtifactInfo}
  {entry : ManifestPath × EntryLine} {name : String} {found : Tree}

theorem artifactAt_of_realDirs {above : List Name} {last : Name} (hreal : RealDirs fs base above)
    (hentry : symlinkMetadata fs ((base.append (above.map .normal)).append [.normal last]) = .ok found) :
    artifactAt fs artifact base ((above ++ [last]).map .normal) =
      leafBytes artifact (base.append ((above ++ [last]).map .normal)) found := by
  induction above generalizing base with
  | nil =>
    rw [List.map_nil, Path.append_nil] at hentry
    rw [List.nil_append, List.map_singleton, artifactAt]
    have hcurrent : symlinkMetadata fs ⟨base.absolute, base.components ++ [.normal last]⟩ = .ok found :=
      hentry
    rw [hcurrent]
    exact if_pos rfl
  | cons first rest ih =>
    obtain ⟨⟨inner, entries, hfirst⟩, hrest⟩ := hreal
    have hcurrent : symlinkMetadata fs ⟨base.absolute, base.components ++ [.normal first]⟩ =
        .ok (.dir inner entries) := hfirst
    have hsplit : base.append ((first :: rest).map .normal) =
        (base.append [.normal first]).append (rest.map .normal) := by
      rw [Path.append_append]
      rfl
    have hsplit' : base.append ((first :: (rest ++ [last])).map .normal) =
        (base.append [.normal first]).append ((rest ++ [last]).map .normal) := by
      rw [Path.append_append]
      rfl
    rw [hsplit] at hentry
    rw [List.cons_append, hsplit', ← ih hrest hentry, List.map_cons, artifactAt]
    rw [hcurrent]
    dsimp only
    rw [if_neg (by simp)]
    exact if_pos rfl

theorem leafBytes_file {current : Path} {bytes : Bytes} (h : artifact.kind = "file") :
    leafBytes artifact current (.file bytes) =
      if entryLimit < bytes.length then .error (.tooLarge current bytes.length entryLimit)
      else .ok bytes :=
  if_pos h

/-- No file at the path of an artifact is over the limit of an archive entry. -/
def Fits (fs : FileSystem) (workspace : Path) (path : String) : Prop :=
  ∀ bytes, symlinkMetadata fs (workspace.join (.ofString path)) = .ok (.file bytes) →
    bytes.length ≤ entryLimit

/-- An artifact is read where it was hashed. -/
theorem artifactBytes_of_standsAt {names : List Name}
    (hsame : resolve fs false (workspace.append [.curDir]) =
      resolve fs false ((lexicalNormalize workspace).append [.curDir]))
    (hstands : StandsAt c fs (lexicalNormalize workspace) entry names found)
    (hsafe : SafePath entry.1.1) :
    artifactBytes fs workspace (artifactOf name entry) =
        leafBytes (artifactOf name entry) (workspace.append (names.map .normal)) found ∧
      symlinkMetadata fs ((lexicalNormalize workspace).join (.ofString entry.1.1)) = .ok found := by
  obtain ⟨parts, htexts, hname⟩ := hstands.text
  have hne : names ≠ [] := by
    intro hnil
    subst hnil
    rw [hname, List.map_eq_nil_iff.mp htexts] at hsafe
    exact hsafe.1 rfl
  have hpath : Path.ofString entry.1.1 = ⟨false, names.map .normal⟩ := by
    rw [hname]
    exact ofString_joinParts htexts hne
  have hthere := hstands.there
  refine ⟨?_, by rw [hpath]; exact hthere⟩
  obtain ⟨links, loc, hroot⟩ := leadsTo_of_entryAt (by simpa using hne) hthere
  obtain ⟨links', hworkspace⟩ := resolve_curDir.mp (hsame.trans (resolve_curDir.mpr ⟨links, hroot⟩))
  have hparts : (Path.ofString entry.1.1).parts = names.map .normal := by
    rw [hpath]
    apply List.filter_eq_self.mpr
    intro part hpart
    obtain ⟨name, _, rfl⟩ := List.mem_map.mp hpart
    rfl
  have hsafePath : safePath entry.1.1 = .ok () := refuseIf_eq_ok.mpr (not_not.mpr hsafe)
  have hbytes : artifactBytes fs workspace (artifactOf name entry) =
      artifactAt fs (artifactOf name entry) workspace (names.map .normal) := by
    rw [← hparts]
    show (safePath entry.1.1 >>= fun _ => _) = _
    rw [hsafePath]
    rfl
  rw [hbytes]
  obtain ⟨above, last, rfl⟩ := (List.eq_nil_or_concat names).resolve_left hne
  rw [List.concat_eq_append] at hthere ⊢
  have hreal := hstands.real
  rw [List.concat_eq_append, List.dropLast_concat] at hreal
  rw [← append_names] at hthere
  obtain ⟨hreal', hthere'⟩ := realDirs_of_leadsTo hroot hworkspace hreal hthere
  exact artifactAt_of_realDirs hreal' hthere'

/-- The bytes of an artifact are read, and they are what its digest is of. -/
def Readable (c : Crates) (fs : FileSystem) (workspace : Path) (artifact : ArtifactInfo) : Prop :=
  ∃ bytes, artifactBytes fs workspace artifact = .ok bytes ∧ checkDigest c artifact bytes = .ok ()

theorem readable_iff {names : List Name}
    (hsame : resolve fs false (workspace.append [.curDir]) =
      resolve fs false ((lexicalNormalize workspace).append [.curDir]))
    (hstands : StandsAt c fs (lexicalNormalize workspace) entry names found)
    (hsafe : SafePath entry.1.1) :
    Readable c fs workspace (artifactOf name entry) ↔ Fits fs (lexicalNormalize workspace) entry.1.1 := by
  obtain ⟨hbytes, hthere⟩ :=
    @artifactBytes_of_standsAt c fs workspace entry name found names hsame hstands hsafe
  have hline := hstands.line
  unfold Readable Fits
  rw [hbytes, hthere]
  obtain ⟨path, line⟩ := entry
  cases found with
  | dir names child => cases hline
  | file bytes =>
    cases (hline : line = ⟨.file, c.blake3 bytes⟩)
    have hkind : (artifactOf name (path, ⟨.file, c.blake3 bytes⟩)).kind = "file" := rfl
    constructor
    · intro ⟨read, hread, _⟩ other hother
      cases hother
      apply Nat.not_lt.mp
      intro hlarge
      rw [leafBytes_file hkind, if_pos hlarge] at hread
      cases hread
    · intro hfits
      refine ⟨bytes, ?_, refuseIf_eq_ok.mpr (not_not.mpr rfl)⟩
      rw [leafBytes_file hkind, if_neg (Nat.not_lt.mpr (hfits bytes rfl))]
  | link target =>
    obtain ⟨hline, text, htext⟩ := hline
    cases (hline : line = ⟨.link, c.blake3 target⟩)
    have hkind : (artifactOf name (path, ⟨.link, c.blake3 target⟩)).kind = "symlink" := rfl
    refine iff_of_true ⟨target, ?_, refuseIf_eq_ok.mpr (not_not.mpr rfl)⟩ ?_
    · rw [leafBytes, if_pos hkind, ← htext, Trust.fromUTF8?_utf8]
    · intro bytes hother
      cases hother

end Bytes

/-! ### What is hashed and what is taken -/

/-- A receipt passes the inventory, and each of its artifacts is read again. -/
def Taken (c : Crates) (fs : FileSystem) (workspace : Path) (receipt : Receipt)
    (listed : List ArtifactInfo) : Prop :=
  inventory c receipt = .ok () ∧ ∀ artifact ∈ listed, Readable c fs workspace artifact

section Agreement
variable {c : Crates} {fs : FileSystem} {workspace : Path} {name hash : String} {outputs : List Path}
  {listed : List ArtifactInfo} {receipt : Receipt}

/-- **Which hashed outputs are evidence.** Where each declared output is the entry its names
below the workspace lead to, through directories alone, all that is hashed is taken and read
again exactly when no name has a colon or a backslash or is empty, and no file is over the
limit of an archive entry. -/
theorem taken_iff
    (hsame : resolve fs false (workspace.append [.curDir]) =
      resolve fs false ((lexicalNormalize workspace).append [.curDir]))
    (hstraight : ∀ output ∈ outputs, ∃ names, Straight fs (lexicalNormalize workspace) output names)
    (houtputs : outputsWithArtifacts c fs workspace name outputs = .ok (hash, listed))
    (hne : listed ≠ []) (hreceipt : Attests receipt name hash listed) :
    Taken c fs workspace receipt listed ↔
      ∀ artifact ∈ listed, Plain artifact.path ∧ Fits fs (lexicalNormalize workspace) artifact.path := by
  obtain ⟨entries, hentries, hpair⟩ := except_bind_eq_ok.mp houtputs
  obtain ⟨rfl, rfl⟩ := Prod.mk.inj (Except.ok.inj hpair)
  have hstands : ∀ entry ∈ entries.entries,
      ∃ names found, StandsAt c fs (lexicalNormalize workspace) entry names found :=
    fun entry hentry => recorded_straight hentries hstraight hentry
  have hsafe : ∀ entry ∈ entries.entries, (SafePath entry.1.1 ↔ Plain entry.1.1) := by
    intro entry hentry
    obtain ⟨names, found, hentry⟩ := hstands entry hentry
    obtain ⟨parts, htexts, hname⟩ := hentry.text
    rw [hname]
    exact safePath_iff htexts
  have hreadable : ∀ entry ∈ entries.entries, SafePath entry.1.1 →
      (Readable c fs workspace (artifactOf name entry) ↔
        Fits fs (lexicalNormalize workspace) entry.1.1) := by
    intro entry hentry hpath
    obtain ⟨names, found, hentry⟩ := hstands entry hentry
    exact readable_iff hsame hentry hpath
  rw [Taken, inventory_iff hreceipt hne, List.forall_mem_map, List.forall_mem_map]
  constructor
  · intro ⟨hpaths, hread⟩ entry hentry
    exact ⟨(hsafe entry hentry).mp (hpaths entry hentry),
      (hreadable entry hentry (hpaths entry hentry)).mp (hread entry hentry)⟩
  · intro h
    refine ⟨fun entry hentry => (hsafe entry hentry).mpr (h entry hentry).1, ?_⟩
    intro entry hentry
    exact (hreadable entry hentry ((hsafe entry hentry).mpr (h entry hentry).1)).mpr (h entry hentry).2

end Agreement

/-! ### Names and files that are hashed -/

/-- A receipt of one step. -/
def builtReceipt (hash : String) (listed : List ArtifactInfo) : Receipt :=
  { sampleReceipt sampleDate with
    steps := [⟨"build", sampleDigest 'b', hash, 1, 0, false, "", "", none⟩]
    provenance := some ⟨none, none, none, none, "linux", "x86_64", none, [], listed, none⟩ }

theorem attests_builtReceipt (hash : String) (listed : List ArtifactInfo) :
    Attests (builtReceipt hash listed) "build" hash listed :=
  ⟨⟨_, rfl, rfl, rfl⟩, ⟨_, rfl, rfl⟩⟩

theorem taken_ofA :
    Taken Executor.cratesOfA Executor.worldOfA.files (.ofString "/w")
      (builtReceipt Executor.outputHashOfA [Executor.artifactOfA]) [Executor.artifactOfA] := by
  have hstraight : ∀ output ∈ [Path.ofString "a"],
      ∃ names, Straight Executor.worldOfA.files (lexicalNormalize (.ofString "/w")) output names := by
    intro output houtput
    rw [List.mem_singleton.mp houtput]
    exact ⟨[nameA], rfl, rfl, trivial⟩
  apply (taken_iff rfl hstraight Executor.outputs_ofA (by simp) (attests_builtReceipt _ _)).mpr
  intro artifact hartifact
  rw [List.mem_singleton.mp hartifact]
  refine ⟨⟨by decide, by decide, by decide⟩, ?_⟩
  intro bytes hbytes
  have hx : symlinkMetadata Executor.worldOfA.files
      ((lexicalNormalize (.ofString "/w")).join (.ofString "a")) = .ok (.file (utf8 "x")) := rfl
  cases hx.symm.trans hbytes
  decide

def nameColon : Name := ⟨utf8 "a:b", by decide +kernel⟩
def nameE : Name := ⟨utf8 "e", by decide +kernel⟩
def nameK : Name := ⟨utf8 "k", by decide +kernel⟩
def nameL : Name := ⟨utf8 "l", by decide +kernel⟩

/-- A file with a colon in its name, a directory with a link to it, and a file of these bytes. -/
def filesOfForms (bytes : Bytes) : FileSystem where
  root := .dir [nameW] fun _ => .dir [nameColon, nameE, nameK, nameL] fun name =>
    if name = nameColon then .file (utf8 "x")
    else if name = nameE then .dir [nameA] fun _ => .file (utf8 "x")
    else if name = nameK then .link (utf8 "e")
    else .file bytes
  cwd := [nameW]

def formEntry (path : ManifestPath) (digest : Vector UInt8 32) : EntryMap :=
  SortedMap.empty.insert path ⟨.file, digest⟩

def pathColon : ManifestPath := ⟨"a:b", by decide +kernel⟩
def pathLinked : ManifestPath := ⟨"k/a", by decide +kernel⟩
def pathLarge : ManifestPath := ⟨"l", by decide +kernel⟩

def cratesOfForms : Crates := tableCrates
  [(utf8 "x", digestX),
    (utf8 (outputText (formEntry pathColon digestX)),
      digestOf 0x5fa77a91a6d5c9d3da910c8f21f2ca00d64508d40dfa296fa5d091a67a2e11c0),
    (utf8 (outputText (formEntry pathLinked digestX)),
      digestOf 0x9f0ef18bd07eaf06128d919aef9373a1ac86447cea32a6b411d54f125933406e)]

/-- An output is hashed, and the receipt of it is no evidence. -/
def HashedOnly (c : Crates) (fs : FileSystem) (output : String) : Prop :=
  ∃ hash listed, outputsWithArtifacts c fs (.ofString "/w") "build" [.ofString output] =
      .ok (hash, listed) ∧ listed ≠ [] ∧
    ¬ Taken c fs (.ofString "/w") (builtReceipt hash listed) listed

theorem outputs_ofForms {c : Crates} {fs : FileSystem} {path : ManifestPath} {digest : Vector UInt8 32}
    {output : Path} (h : collectEntries c fs (.ofString "/w") "build" [output] .output =
      .ok (formEntry path digest)) :
    outputsWithArtifacts c fs (.ofString "/w") "build" [output] =
      .ok (hexEncode (c.blake3 (utf8 (outputText (formEntry path digest)))).toList,
        [artifactOf "build" (path, ⟨.file, digest⟩)]) := by
  unfold outputsWithArtifacts
  rw [h]
  rfl

/-- Three outputs that are hashed and refused: one with a colon in its name, one below a link to
a directory, and any file over the limit. -/
theorem hashed_not_taken :
    HashedOnly cratesOfForms (filesOfForms (utf8 "x")) "a:b" ∧
      HashedOnly cratesOfForms (filesOfForms (utf8 "x")) "k/a" ∧
      ∀ c bytes, entryLimit < bytes.length → HashedOnly c (filesOfForms bytes) "l" := by
  refine ⟨?_, ?_, ?_⟩
  · have hentries : collectEntries cratesOfForms (filesOfForms (utf8 "x")) (.ofString "/w") "build"
        [.ofString "a:b"] .output = .ok (formEntry pathColon digestX) := rfl
    refine ⟨_, _, outputs_ofForms hentries, List.cons_ne_nil _ _, ?_⟩
    intro ⟨hinventory, _⟩
    obtain ⟨listed, hlisted, _, hlistable, _⟩ := inventory_eq_ok hinventory
    cases hlisted
    have hpath := (hlistable _ (List.mem_singleton.mpr rfl)).path
    exact hpath.2.1 ':' (by decide) (by decide)
  · have hentries : collectEntries cratesOfForms (filesOfForms (utf8 "x")) (.ofString "/w") "build"
        [.ofString "k/a"] .output = .ok (formEntry pathLinked digestX) := rfl
    refine ⟨_, _, outputs_ofForms hentries, List.cons_ne_nil _ _, ?_⟩
    intro ⟨_, hread⟩
    obtain ⟨bytes, hbytes, _⟩ := hread _ (List.mem_singleton.mpr rfl)
    cases hbytes
  · intro c bytes hlarge
    have hentries : collectEntries c (filesOfForms bytes) (.ofString "/w") "build"
        [.ofString "l"] .output = .ok (formEntry pathLarge (c.blake3 bytes)) := rfl
    refine ⟨_, _, outputs_ofForms hentries, List.cons_ne_nil _ _, ?_⟩
    intro ⟨_, hread⟩
    obtain ⟨read, hbytes, _⟩ := hread _ (List.mem_singleton.mpr rfl)
    have hsafe : safePath "l" = .ok () := refuseIf_eq_ok.mpr (not_not.mpr (by decide +kernel))
    have hleaf : artifactBytes (filesOfForms bytes) (.ofString "/w")
        (artifactOf "build" (pathLarge, ⟨.file, c.blake3 bytes⟩)) =
          leafBytes (artifactOf "build" (pathLarge, ⟨.file, c.blake3 bytes⟩)) (.ofString "/w/l")
            (.file bytes) := by
      show (safePath "l" >>= fun _ => _) = _
      rw [hsafe]
      rfl
    rw [hleaf, leafBytes_file rfl, if_pos hlarge] at hbytes
    cases hbytes

end Attest.Evidence
