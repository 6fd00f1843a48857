import Attest.Hashing.Manifest
import Attest.Hashing.Resolution

/-! Declared paths that lead straight down from the workspace.

The name a manifest has for a file is taken from the text of its path, and the file is read
through that path. Where a declared path and its normal form are one entry, and no link is
passed below the workspace, the two agree: `recorded_straight` says that what is recorded
under a name is what stands there, through directories alone. -/
namespace Attest.Hashing
open Library Library.Fallible
open Trust (Bytes Crates utf8 hexEncode)

/-! ### Names -/

theorem lexicalNames_concat (components : List Component) (component : Component) :
    lexicalNames (components ++ [component]) = pushComponent (lexicalNames components) component := by
  rw [lexicalNames, List.foldl_append]
  rfl

theorem lexicalNormalize_below (path : Path) (name : Name) :
    lexicalNormalize (path.append [.normal name]) = (lexicalNormalize path).append [.normal name] := by
  rw [lexicalNormalize, lexicalNormalize, Path.append, lexicalNames_concat]
  show Path.ofNames path.absolute (lexicalNames path.components ++ [name]) = _
  rw [Path.ofNames, List.map_append]
  rfl

/-! ### Directories on the way -/

/-- Every name on the way from a path is a directory, and no link. -/
def RealDirs (fs : FileSystem) : Path → List Name → Prop
  | _, [] => True
  | base, name :: rest =>
    (∃ names child, symlinkMetadata fs (base.append [.normal name]) = .ok (.dir names child)) ∧
      RealDirs fs (base.append [.normal name]) rest

section RealDirs
variable {fs : FileSystem} {base : Path}

theorem realDirs_append {a b : List Name} :
    RealDirs fs base (a ++ b) ↔
      RealDirs fs base a ∧ RealDirs fs (base.append (a.map .normal)) b := by
  induction a generalizing base with
  | nil =>
    rw [List.map_nil, Path.append_nil]
    exact ⟨fun h => ⟨trivial, h⟩, And.right⟩
  | cons name rest ih =>
    rw [List.cons_append, RealDirs, RealDirs, ih, Path.append_append, and_assoc]
    rfl

/-- Through directories alone no link is passed. -/
theorem leadsTo_of_realDirs {links : Nat} {loc : Location} {names : List Name}
    (h : LeadsTo fs base links loc) (hreal : RealDirs fs base names) :
    LeadsTo fs (base.append (names.map .normal)) links (loc ++ names) := by
  induction names generalizing base loc with
  | nil =>
    rw [List.map_nil, Path.append_nil, List.append_nil]
    exact h
  | cons name rest ih =>
    obtain ⟨⟨inner, entries, hentry⟩, hrest⟩ := hreal
    obtain ⟨names, child, hdir, hmem, hchild⟩ := of_symlinkMetadata_name h hentry
    have hbelow := ih (h.below hdir hmem hchild) hrest
    rw [Path.append_append, List.append_assoc] at hbelow
    exact hbelow

/-- Two paths to one directory lead on alike. -/
theorem realDirs_of_leadsTo {other : Path} {links links' : Nat} {loc : Location} {above : List Name}
    {name : Name} {entry : Tree} (h : LeadsTo fs base links loc) (h' : LeadsTo fs other links' loc)
    (hreal : RealDirs fs base above)
    (hentry : symlinkMetadata fs ((base.append (above.map .normal)).append [.normal name]) = .ok entry) :
    RealDirs fs other above ∧
      symlinkMetadata fs ((other.append (above.map .normal)).append [.normal name]) = .ok entry := by
  induction above generalizing base other loc with
  | nil =>
    rw [List.map_nil, Path.append_nil] at hentry ⊢
    obtain ⟨names, child, hdir, hmem, rfl⟩ := of_symlinkMetadata_name h hentry
    exact ⟨trivial, entryAt_name h' hdir hmem (.inl rfl)⟩
  | cons first rest ih =>
    obtain ⟨⟨inner, entries, hfirst⟩, hrest⟩ := hreal
    obtain ⟨names, child, hdir, hmem, hchild⟩ := of_symlinkMetadata_name h hfirst
    have hsplit : ∀ path : Path, path.append ((first :: rest).map .normal) =
        (path.append [.normal first]).append (rest.map .normal) := by
      intro path
      rw [Path.append_append]
      rfl
    rw [hsplit] at hentry ⊢
    obtain ⟨hreal', hentry'⟩ := ih (h.below hdir hmem hchild) (h'.below hdir hmem hchild) hrest hentry
    refine ⟨⟨⟨inner, entries, ?_⟩, hreal'⟩, hentry'⟩
    rw [← hchild]
    exact entryAt_name h' hdir hmem (.inl rfl)

end RealDirs

/-- A declared path is the entry that its names below the workspace lead to, through
directories alone. -/
structure Straight (fs : FileSystem) (workspace declared : Path) (names : List Name) : Prop where
  text : lexicalNormalize (workspace.join declared) = workspace.append (names.map .normal)
  same : resolve fs false (workspace.join declared) =
    resolve fs false (workspace.append (names.map .normal))
  real : RealDirs fs workspace names.dropLast

/-- A path to the directory that these names below the workspace lead to. -/
structure Reached (fs : FileSystem) (workspace path : Path) (names : List Name) (loc : Location) :
    Prop where
  text : lexicalNormalize path = workspace.append (names.map .normal)
  spelled : ∃ links, LeadsTo fs path links loc
  named : ∃ links, LeadsTo fs (workspace.append (names.map .normal)) links loc
  real : RealDirs fs workspace names

/-- A path to the file or link that these names below the workspace lead to. -/
structure Found (fs : FileSystem) (workspace path : Path) (names : List Name) (entry : Tree) :
    Prop where
  text : lexicalNormalize path = workspace.append (names.map .normal)
  spelled : ∀ followLast, (followLast = false ∨ ∀ target, entry ≠ .link target) →
    entryAt fs followLast path = .ok entry
  named : symlinkMetadata fs (workspace.append (names.map .normal)) = .ok entry
  real : RealDirs fs workspace names.dropLast
  leaf : entry.isDir = false

section Walk
variable {fs : FileSystem} {workspace path : Path} {names inner : List Name} {name : Name}
  {child : Name → Tree} {loc : Location}

theorem append_names (path : Path) (names : List Name) (name : Name) :
    (path.append (names.map .normal)).append [.normal name] =
      path.append ((names ++ [name]).map .normal) := by
  rw [Path.append_append, List.map_append]
  rfl

theorem Reached.below (h : Reached fs workspace path names loc)
    (hdir : fs.root.descend loc = some (.dir inner child)) (hmem : name ∈ inner)
    {further : List Name} {entries : Name → Tree} (hchild : child name = .dir further entries) :
    Reached fs workspace (path.append [.normal name]) (names ++ [name]) (loc ++ [name]) := by
  obtain ⟨links, hspelled⟩ := h.spelled
  obtain ⟨links', hnamed⟩ := h.named
  refine ⟨?_, ⟨links, hspelled.below hdir hmem hchild⟩, ⟨links', ?_⟩, ?_⟩
  · rw [lexicalNormalize_below, h.text, append_names]
  · rw [← append_names]
    exact hnamed.below hdir hmem hchild
  · rw [realDirs_append]
    refine ⟨h.real, ⟨further, entries, ?_⟩, trivial⟩
    rw [← hchild]
    exact entryAt_name hnamed hdir hmem (.inl rfl)

theorem Reached.found (h : Reached fs workspace path names loc)
    (hdir : fs.root.descend loc = some (.dir inner child)) (hmem : name ∈ inner)
    (hleaf : (child name).isDir = false) :
    Found fs workspace (path.append [.normal name]) (names ++ [name]) (child name) := by
  obtain ⟨links, hspelled⟩ := h.spelled
  obtain ⟨links', hnamed⟩ := h.named
  refine ⟨?_, fun followLast hlink => entryAt_name hspelled hdir hmem hlink, ?_, ?_, hleaf⟩
  · rw [lexicalNormalize_below, h.text, append_names]
  · rw [← append_names]
    exact entryAt_name hnamed hdir hmem (.inl rfl)
  · rw [List.dropLast_concat]
    exact h.real

/-- Everything a walk finds below such a directory, directories apart. -/
theorem found_of_walk {tree : Tree} (h : Reached fs workspace path names loc)
    (hdir : fs.root.descend loc = some tree) (hisDir : tree.isDir = true) {visit : Path × Bool}
    (hvisit : visit ∈ walk path tree) (hfile : visit.2 = false) :
    ∃ names entry, Found fs workspace visit.1 names entry := by
  induction tree generalizing path names loc with
  | file bytes => cases hisDir
  | link target => cases hisDir
  | dir inner child ih =>
    rw [walk] at hvisit
    rcases List.mem_cons.mp hvisit with rfl | hvisit
    · cases hfile
    · obtain ⟨name, hname, hvisit⟩ := List.mem_flatMap.mp hvisit
      have hmem : name ∈ inner := (List.perm_insertionSort _ inner).mem_iff.mp hname
      have hthere : fs.root.descend (loc ++ [name]) = some (child name) := by
        rw [Tree.descend_snoc, hdir]
        show (Tree.dir inner child).child? name = _
        rw [child?_dir, if_pos hmem]
      have hbelow := @ih name (path.append [.normal name]) (names ++ [name]) (loc ++ [name])
      cases hchild : child name with
      | dir further entries =>
        rw [hchild] at hvisit hthere hbelow
        exact hbelow (h.below hdir hmem hchild) hthere rfl hvisit
      | file bytes =>
        have hfound := h.found hdir hmem (by rw [hchild]; rfl)
        rw [hchild] at hvisit
        cases List.mem_singleton.mp hvisit
        exact ⟨_, _, hfound⟩
      | link target =>
        have hfound := h.found hdir hmem (by rw [hchild]; rfl)
        rw [hchild] at hvisit
        cases List.mem_singleton.mp hvisit
        exact ⟨_, _, hfound⟩

/-- What is looked at for one declared path. -/
def Visits (fs : FileSystem) (workspace declared path : Path) : Prop :=
  ∃ entry, symlinkMetadata fs (workspace.join declared) = .ok entry ∧
    if entry.isDir then (path, false) ∈ walk (workspace.join declared) entry
    else path = workspace.join declared

/-- A straight path that is a directory reaches it. -/
theorem Straight.reached {declared : Path} (h : Straight fs workspace declared names)
    (hresolve : resolve fs false (workspace.join declared) = .ok loc)
    (hdir : fs.root.descend loc = some (.dir inner child)) :
    Reached fs workspace (workspace.join declared) names loc := by
  have hnamed := h.same.symm.trans hresolve
  refine ⟨h.text, leadsTo_of_resolve hresolve hdir, leadsTo_of_resolve hnamed hdir, ?_⟩
  cases names using List.reverseRecOn with
  | nil => exact trivial
  | append_singleton above name =>
    have hreal := h.real
    rw [List.dropLast_concat] at hreal
    rw [realDirs_append]
    refine ⟨hreal, ⟨inner, child, ?_⟩, trivial⟩
    rw [append_names]
    exact entryAt_of_resolve hnamed hdir

theorem Straight.found {declared : Path} (h : Straight fs workspace declared names)
    (hvisits : Visits fs workspace declared path) :
    ∃ names entry, Found fs workspace path names entry := by
  obtain ⟨entry, hentry, hpath⟩ := hvisits
  obtain ⟨loc, hresolve, hthere⟩ := entryAt_eq_ok.mp hentry
  have hnamed := h.same.symm.trans hresolve
  by_cases hisDir : entry.isDir = true
  · rw [if_pos hisDir] at hpath
    cases entry with
    | file bytes => cases hisDir
    | link target => cases hisDir
    | dir inner child => exact found_of_walk (h.reached hresolve hthere) hthere rfl hpath rfl
  · rw [if_neg hisDir] at hpath
    subst hpath
    refine ⟨names, entry, h.text, ?_, entryAt_of_resolve hnamed hthere, h.real,
      Bool.not_eq_true _ ▸ hisDir⟩
    intro followLast hlink
    rcases hlink with rfl | hlink
    · exact hentry
    · exact entryAt_of_resolve (resolve_of_not_link hresolve hthere hlink) hthere

end Walk

/-! ### Where the entries of a manifest come from -/

section Collect
variable {c : Crates} {fs : FileSystem} {workspace path : Path} {declared : List Path}
  {entries entries' : EntryMap} {entry : ManifestPath × EntryLine}

/-- What is recorded of what stands at a path. -/
def lineAt (c : Crates) (fs : FileSystem) (workspace : Path) (declared : List Path) (path : Path) :
    Except HashingError EntryLine :=
  match symlinkMetadata fs path with
  | .error e => .error (.io path e)
  | .ok (.link _) => linkLine c fs workspace path declared
  | .ok _ => fileLine c fs path

/-- A visit of this path recorded this entry. -/
def Recorded (c : Crates) (fs : FileSystem) (workspace : Path) (declared : List Path)
    (entry : ManifestPath × EntryLine) (path : Path) : Prop :=
  normalizeRelative workspace path = .ok entry.1 ∧ lineAt c fs workspace declared path = .ok entry.2

/-- What is added is the line of what stands at the path, under the name of the path. -/
theorem addEntry_eq : addEntry c fs workspace declared entries path =
    normalizeRelative workspace path >>= fun text =>
      lineAt c fs workspace declared path >>= fun line => pure (entries.insert text line) := by
  unfold addEntry lineAt
  congr 1
  funext text
  cases symlinkMetadata fs path with
  | error e => rfl
  | ok found => cases found <;> rfl

theorem addEntry_eq_ok : addEntry c fs workspace declared entries path = .ok entries' ↔
    ∃ text line, normalizeRelative workspace path = .ok text ∧
      lineAt c fs workspace declared path = .ok line ∧ entries' = entries.insert text line := by
  rw [addEntry_eq, except_bind_eq_ok]
  constructor
  · intro h
    obtain ⟨text, htext, h⟩ := h
    obtain ⟨line, hline, h⟩ := except_bind_eq_ok.mp h
    exact ⟨text, line, htext, hline, (Except.ok.inj h).symm⟩
  · intro h
    obtain ⟨text, line, htext, hline, rfl⟩ := h
    exact ⟨text, htext, except_bind_eq_ok.mpr ⟨line, hline, rfl⟩⟩

theorem mem_of_addEntry (h : addEntry c fs workspace declared entries path = .ok entries')
    (hmem : entry ∈ entries'.entries) :
    entry ∈ entries.entries ∨ Recorded c fs workspace declared entry path := by
  obtain ⟨text, line, htext, hline, rfl⟩ := addEntry_eq_ok.mp h
  rcases SortedMap.mem_insert.mp hmem with rfl | hold
  · exact .inr ⟨htext, hline⟩
  · exact .inl hold.1

theorem mem_of_foldlM_addEntry {paths : List (Path × Bool)}
    (h : paths.foldlM (fun entries found => addEntry c fs workspace declared entries found.1) entries =
      .ok entries') (hmem : entry ∈ entries'.entries) :
    entry ∈ entries.entries ∨ ∃ visit ∈ paths, Recorded c fs workspace declared entry visit.1 := by
  induction paths generalizing entries with
  | nil =>
    cases h
    exact .inl hmem
  | cons visit rest ih =>
    rw [List.foldlM_cons] at h
    obtain ⟨after, hafter, h⟩ := except_bind_eq_ok.mp h
    rcases ih h with hold | ⟨other, hother, hrecorded⟩
    · rcases mem_of_addEntry hafter hold with hold | hrecorded
      · exact .inl hold
      · exact .inr ⟨visit, List.mem_cons_self .., hrecorded⟩
    · exact .inr ⟨other, List.mem_cons_of_mem _ hother, hrecorded⟩

theorem mem_of_addDeclared {step : String} {kind : ManifestKind} {d : Path}
    (h : addDeclared c fs workspace step declared kind entries d = .ok entries')
    (hmem : entry ∈ entries'.entries) :
    entry ∈ entries.entries ∨
      ∃ path, Visits fs workspace d path ∧ Recorded c fs workspace declared entry path := by
  unfold addDeclared at h
  split at h
  next =>
    cases kind <;> cases h
  next names child hentry =>
    rcases mem_of_foldlM_addEntry h hmem with hold | ⟨visit, hvisit, hrecorded⟩
    · exact .inl hold
    · obtain ⟨hwalk, hfile⟩ := List.mem_filter.mp hvisit
      refine .inr ⟨visit.1, ⟨_, hentry, ?_⟩, hrecorded⟩
      have hpair : visit = (visit.1, false) := by
        rw [← (by simpa using hfile : visit.2 = false)]
      rw [hpair] at hwalk
      exact hwalk
  next found hnotdir hentry =>
    rcases mem_of_addEntry h hmem with hold | hrecorded
    · exact .inl hold
    · refine .inr ⟨_, ⟨found, hentry, ?_⟩, hrecorded⟩
      cases found with
      | dir names child => exact absurd rfl (hnotdir names child)
      | file bytes => rfl
      | link target => rfl

theorem mem_of_foldlM_addDeclared {step : String} {kind : ManifestKind} {ds : List Path}
    (h : ds.foldlM (addDeclared c fs workspace step declared kind) entries = .ok entries')
    (hmem : entry ∈ entries'.entries) :
    entry ∈ entries.entries ∨ ∃ d ∈ ds, ∃ path, Visits fs workspace d path ∧
      Recorded c fs workspace declared entry path := by
  induction ds generalizing entries with
  | nil =>
    cases h
    exact .inl hmem
  | cons d rest ih =>
    rw [List.foldlM_cons] at h
    obtain ⟨after, hafter, h⟩ := except_bind_eq_ok.mp h
    rcases ih h with hold | ⟨other, hother, hpath⟩
    · exact (mem_of_addDeclared hafter hold).imp_right fun hpath => ⟨d, List.mem_cons_self .., hpath⟩
    · exact .inr ⟨other, List.mem_cons_of_mem _ hother, hpath⟩

/-- Every entry is recorded at a visit. -/
theorem mem_of_collectEntries {step : String} {kind : ManifestKind}
    (h : collectEntries c fs workspace step declared kind = .ok entries)
    (hmem : entry ∈ entries.entries) :
    ∃ d ∈ declared, ∃ path, Visits fs (lexicalNormalize workspace) d path ∧
      Recorded c fs (lexicalNormalize workspace) declared entry path := by
  apply (mem_of_foldlM_addDeclared h hmem).resolve_left
  intro hnone
  cases hnone

/-! ### What is recorded under a name -/

/-- What a line of a manifest says of what stands there. -/
def LineOf (c : Crates) (line : EntryLine) : Tree → Prop
  | .file bytes => line = ⟨.file, c.blake3 bytes⟩
  | .link target => line = ⟨.link, c.blake3 target⟩ ∧ ∃ text : String, utf8 text = target
  | .dir _ _ => False

theorem lineOf_of_found {names : List Name} {found : Tree} {line : EntryLine}
    (hfound : Found fs workspace path names found)
    (hline : lineAt c fs workspace declared path = .ok line) : LineOf c line found := by
  have hentry : symlinkMetadata fs path = .ok found := hfound.spelled false (.inl rfl)
  unfold lineAt at hline
  rw [hentry] at hline
  cases found with
  | dir names child => cases hfound.leaf
  | file bytes =>
    have hread : readFile fs path = .ok bytes := by
      unfold readFile
      rw [hfound.spelled true (.inr fun target h => by cases h)]
      rfl
    simp only [fileLine, hread] at hline
    exact (Except.ok.inj hline).symm
  | link target =>
    have hread : readLink fs path = .ok target := by
      unfold readLink
      rw [hfound.spelled false (.inl rfl)]
      rfl
    simp only [linkLine, hread] at hline
    split at hline
    next => cases hline
    next text htext =>
      obtain ⟨resolved, _, hline⟩ := except_bind_eq_ok.mp hline
      split at hline
      next =>
        rw [← Trust.utf8_of_fromUTF8? htext]
        exact ⟨(Except.ok.inj hline).symm, text, rfl⟩
      next => cases hline

/-- The texts of these names, which a manifest can hold. -/
def TextsOf (parts : List ManifestPath) (names : List Name) : Prop :=
  parts.map (fun part => utf8 part.1) = names.map Name.bytes

theorem textsOf_of_mapM {names : List Name} {parts : List ManifestPath}
    (h : (names.map .normal).mapM (manifestPart path) = .ok parts) : TextsOf parts names := by
  induction names generalizing parts with
  | nil =>
    cases h
    rfl
  | cons name rest ih =>
    rw [List.map_cons, List.mapM_cons] at h
    obtain ⟨part, hpart, h⟩ := except_bind_eq_ok.mp h
    obtain ⟨more, hmore, h⟩ := except_bind_eq_ok.mp h
    cases h
    have htext : utf8 part.1 = name.bytes := by
      simp only [manifestPart] at hpart
      split at hpart
      next => cases hpart
      next text htext =>
        split at hpart
        next =>
          cases hpart
          exact Trust.utf8_of_fromUTF8? htext
        next => cases hpart
    rw [TextsOf, List.map_cons, List.map_cons, htext]
    exact congrArg _ (ih hmore)

theorem utf8_append (a b : String) : utf8 (a ++ b) = utf8 a ++ utf8 b := by
  simp [utf8]

theorem utf8_joinParts (parts : List ManifestPath) :
    utf8 (joinParts parts).1 = [slash].intercalate (parts.map fun part => utf8 part.1) := by
  induction parts with
  | nil => rfl
  | cons part rest ih =>
    cases rest with
    | nil => exact List.intercalate_singleton.symm
    | cons next rest =>
      rw [List.map_cons] at ih
      rw [List.map_cons, List.map_cons, List.intercalate_cons_cons, ← ih]
      show utf8 (part.1 ++ "/" ++ (joinParts (next :: rest)).1) = _
      rw [utf8_append, utf8_append]
      rfl

/-- A path below a workspace is named by what comes after the names of the workspace. -/
theorem normalizeRelative_below {names : List Name}
    (h : lexicalNormalize path = (lexicalNormalize workspace).append (names.map .normal)) :
    normalizeRelative (lexicalNormalize workspace) path =
      ((names.map .normal).mapM (manifestPart path)).map joinParts := by
  have hparts : ∀ all : List Name, (Path.ofNames workspace.absolute all).parts = all.map .normal := by
    intro all
    apply List.filter_eq_self.mpr
    intro component hmem
    obtain ⟨name, _, rfl⟩ := List.mem_map.mp hmem
    rfl
  have hpath : lexicalNormalize path =
      .ofNames workspace.absolute (lexicalNames workspace.components ++ names) := by
    rw [h, Path.ofNames, List.map_append]
    rfl
  have hstrip : (lexicalNormalize path).stripPrefix (lexicalNormalize workspace) =
      some (names.map .normal) := by
    rw [hpath, Path.stripPrefix, hparts, lexicalNormalize, hparts, List.map_append]
    show (if workspace.absolute = workspace.absolute then _ else _) = _
    rw [if_pos rfl, if_pos (List.prefix_append ..), List.drop_left]
  unfold normalizeRelative
  rw [hstrip]

/-- An entry of a manifest is what stands under its name, through directories alone. -/
structure StandsAt (c : Crates) (fs : FileSystem) (workspace : Path) (entry : ManifestPath × EntryLine)
    (names : List Name) (found : Tree) : Prop where
  real : RealDirs fs workspace names.dropLast
  there : symlinkMetadata fs (workspace.append (names.map .normal)) = .ok found
  text : ∃ parts, TextsOf parts names ∧ entry.1 = joinParts parts
  line : LineOf c entry.2 found

/-- What straight declarations record is what stands under each name. -/
theorem recorded_straight {step : String} {kind : ManifestKind}
    (h : collectEntries c fs workspace step declared kind = .ok entries)
    (hstraight : ∀ d ∈ declared, ∃ names, Straight fs (lexicalNormalize workspace) d names)
    (hmem : entry ∈ entries.entries) :
    ∃ names found, StandsAt c fs (lexicalNormalize workspace) entry names found := by
  obtain ⟨d, hd, path, hvisits, hname, hline⟩ := mem_of_collectEntries h hmem
  obtain ⟨spelled, hspelled⟩ := hstraight d hd
  obtain ⟨names, found, hfound⟩ := hspelled.found hvisits
  refine ⟨names, found, hfound.real, hfound.named, ?_, lineOf_of_found hfound hline⟩
  rw [normalizeRelative_below hfound.text] at hname
  cases hparts : (names.map Component.normal).mapM (manifestPart path) with
  | error e =>
    rw [hparts] at hname
    cases hname
  | ok parts =>
    rw [hparts] at hname
    exact ⟨parts, textsOf_of_mapM hparts, (Except.ok.inj hname).symm⟩

end Collect

end Attest.Hashing
