import Attest.Hashing.Copies
import Attest.Library.Gathering

/-! What a manifest says, whichever way the same entries are declared.

Declared paths may repeat, lie below one another and be spelled in several ways. Where each leads
straight down from the workspace, a manifest holds the files and links that stand at or below them,
each once under its name (`collectEntries_iff`). So it does not depend on how they are declared
(`manifests_of_declarations`), and two of them are the same exactly where the same stands under
the same names (`manifests_agree_iff`). -/
namespace Attest.Hashing
open Library Library.Fallible
open Trust (Bytes Crates utf8)

/-! ### Leaves -/

theorem Tree.mem_leaves {tree : Tree} {loc : Location} :
    loc ∈ tree.leaves ↔ ∃ leaf, tree.descend loc = some leaf ∧ leaf.isDir = false := by
  constructor
  · exact Tree.descend_of_mem_leaves
  · intro h
    obtain ⟨leaf, hleaf, hisDir⟩ := h
    induction tree generalizing loc with
    | file bytes =>
      cases loc with
      | nil => exact List.mem_singleton_self _
      | cons name rest => cases hleaf
    | link target =>
      cases loc with
      | nil => exact List.mem_singleton_self _
      | cons name rest => cases hleaf
    | dir names child ih =>
      cases loc with
      | nil =>
        obtain rfl := Option.some.inj hleaf
        cases hisDir
      | cons name rest =>
        obtain ⟨names', child', htree, hmem, hrest⟩ := Tree.descend_cons.mp hleaf
        obtain ⟨rfl, rfl⟩ := Tree.dir.inj htree
        refine List.mem_flatMap.mpr ⟨name, (List.perm_insertionSort _ names).mem_iff.mpr hmem, ?_⟩
        exact List.mem_map_of_mem (ih name hrest)

/-! ### Names in a manifest -/

/-- The name of an entry in a manifest: its names with slashes between them. -/
def NameOf (names : List Name) (text : ManifestPath) : Prop :=
  ∃ parts, TextsOf parts names ∧ text = joinParts parts

section Names
variable {names names' : List Name} {text text' : ManifestPath} {workspace path : Path}

theorem NameOf.unique (h : NameOf names text) (h' : NameOf names text') : text = text' := by
  obtain ⟨parts, hparts, rfl⟩ := h
  obtain ⟨parts', hparts', rfl⟩ := h'
  have hinjective : Function.Injective fun part : ManifestPath => utf8 part.1 :=
    fun _ _ hsame => Subtype.ext (Trust.utf8_injective hsame)
  rw [hinjective.list_map (hparts.trans hparts'.symm)]

theorem splitOn_of_nameOf (h : NameOf names text) (hne : names ≠ []) :
    (utf8 text.1).splitOn slash = names.map Name.bytes := by
  obtain ⟨parts, hparts, rfl⟩ := h
  rw [utf8_joinParts, hparts]
  apply List.splitOn_intercalate
  · intro bytes hbytes
    obtain ⟨name, _, rfl⟩ := List.mem_map.mp hbytes
    exact name.wellFormed.2.1
  · exact fun hnil => hne (List.map_eq_nil_iff.mp hnil)

/-- No name is empty, so no text but that of none is. -/
theorem text_ne_of_nameOf (h : NameOf names text) (hne : names ≠ []) : utf8 text.1 ≠ [] := by
  intro hempty
  have hsplit := splitOn_of_nameOf h hne
  rw [hempty] at hsplit
  cases names with
  | nil => exact hne rfl
  | cons name rest => exact name.wellFormed.1 (List.cons.inj hsplit).1.symm

theorem text_eq_of_nameOf_nil (h : NameOf [] text) : utf8 text.1 = [] := by
  obtain ⟨parts, hparts, rfl⟩ := h
  rw [utf8_joinParts, hparts]
  rfl

/-- A text is the name of one entry. -/
theorem NameOf.names_unique (h : NameOf names text) (h' : NameOf names' text) : names = names' := by
  have hinjective : Function.Injective Name.bytes := fun _ _ hsame => Name.ext_bytes hsame
  by_cases hnil : names = []
  · by_cases hnil' : names' = []
    · rw [hnil, hnil']
    · exact absurd (text_eq_of_nameOf_nil (hnil ▸ h)) (text_ne_of_nameOf h' hnil')
  · by_cases hnil' : names' = []
    · exact absurd (text_eq_of_nameOf_nil (hnil' ▸ h')) (text_ne_of_nameOf h hnil)
    · exact hinjective.list_map ((splitOn_of_nameOf h hnil).symm.trans (splitOn_of_nameOf h' hnil'))

theorem mapM_of_textsOf {parts : List ManifestPath} (h : TextsOf parts names) :
    (names.map .normal).mapM (manifestPart path) = .ok parts := by
  induction names generalizing parts with
  | nil =>
    obtain rfl := List.map_eq_nil_iff.mp h
    rfl
  | cons name rest ih =>
    cases parts with
    | nil => cases h
    | cons part more =>
      obtain ⟨hname, hrest⟩ := List.cons.inj h
      have hpart : manifestPart path (.normal name) = .ok part := by
        simp only [manifestPart, ← hname, Trust.fromUTF8?_utf8]
        exact dif_pos part.2
      rw [List.map_cons, List.mapM_cons, hpart, ih hrest]
      rfl

/-- What a path is recorded under. -/
theorem normalizeRelative_eq_ok
    (h : lexicalNormalize path = (lexicalNormalize workspace).append (names.map .normal)) :
    normalizeRelative (lexicalNormalize workspace) path = .ok text ↔ NameOf names text := by
  rw [normalizeRelative_below h]
  constructor
  · intro htext
    cases hparts : (names.map Component.normal).mapM (manifestPart path) with
    | error e =>
      rw [hparts] at htext
      cases htext
    | ok parts =>
      rw [hparts] at htext
      exact ⟨parts, textsOf_of_mapM hparts, (Except.ok.inj htext).symm⟩
  · intro hname
    obtain ⟨parts, hparts, rfl⟩ := hname
    rw [mapM_of_textsOf hparts]
    rfl

end Names

/-! ### Where a link leads -/

/-- Where a link that stands under these names below a workspace leads, by the text of its target. -/
def linkTarget (workspace : Path) (names : List Name) (target : Path) : Path :=
  if target.absolute then lexicalNormalize target
  else .ofNames workspace.absolute
    (target.components.foldl pushComponent (lexicalNames workspace.components ++ names).dropLast)

/-- What a manifest takes: a link only where it leads to a declared path, or below one. -/
def Allowed (workspace : Path) (declared : List Path) (names : List Name) : Tree → Prop
  | .link target =>
    (linkTarget workspace names (.ofBytes target)).startsWith (lexicalNormalize workspace) = true ∧
      ∃ d ∈ declared, (linkTarget workspace names (.ofBytes target)).startsWith
        (lexicalNormalize ((lexicalNormalize workspace).join d)) = true
  | _ => True

section Links
variable {c : Crates} {fs : FileSystem} {workspace path : Path} {declared : List Path}
  {names : List Name} {found : Tree} {target : Bytes} {line : EntryLine}

theorem startsWith_self (path : Path) : path.startsWith path = true := by
  rw [Path.startsWith, beq_self_eq_true, Bool.true_and]
  exact List.isPrefixOf_iff_prefix.mpr (List.prefix_refl _)

theorem startsWith_trans {first second third : Path} (h : first.startsWith second = true)
    (h' : second.startsWith third = true) : first.startsWith third = true := by
  rw [Path.startsWith, Bool.and_eq_true, beq_iff_eq, List.isPrefixOf_iff_prefix] at h h' ⊢
  exact ⟨h.1.trans h'.1, h'.2.trans h.2⟩

theorem startsWith_append (path : Path) (more : List Component) :
    (path.append more).startsWith path = true := by
  rw [Path.startsWith, Bool.and_eq_true, beq_iff_eq, List.isPrefixOf_iff_prefix]
  refine ⟨rfl, ?_⟩
  show path.components.filter _ <+: (path.components ++ more).filter _
  rw [List.filter_append]
  exact List.prefix_append _ _

/-- `.` is lost on the way to the normal form. -/
theorem lexicalNames_parts (components : List Component) :
    lexicalNames (components.filter (· ≠ .curDir)) = lexicalNames components := by
  induction components using List.reverseRecOn with
  | nil => rfl
  | append_singleton rest component ih =>
    rw [List.filter_append, lexicalNames_concat, ← ih]
    cases component with
    | curDir =>
      rw [List.filter_cons_of_neg (by simp), List.filter_nil, List.append_nil]
      rfl
    | parentDir =>
      rw [List.filter_cons_of_pos (by simp), List.filter_nil, lexicalNames_concat]
    | normal name =>
      rw [List.filter_cons_of_pos (by simp), List.filter_nil, lexicalNames_concat]

/-- A path at which a link stands ends in its name. -/
theorem ends_of_link (h : symlinkMetadata fs path = .ok (.link target)) :
    path.components = [] ∨ ∃ (base : Path) (name : Name), path = base.append [.normal name] := by
  obtain ⟨loc, hresolve, hlink⟩ := entryAt_eq_ok.mp h
  rcases leadsTo_init hresolve with hnil | hlast
  · exact .inl hnil
  · obtain ⟨base, component, links, start, rfl, hbase, hlast⟩ := hlast
    obtain ⟨inner, child, hstart⟩ := hbase.1
    rw [resolveFrom_cons, hstart] at hlast
    cases component with
    | normal name => exact .inr ⟨base, name, rfl⟩
    | curDir =>
      obtain rfl := Except.ok.inj (resolveFrom_nil.symm.trans hlast)
      cases hstart.symm.trans hlink
    | parentDir =>
      obtain rfl := Except.ok.inj (resolveFrom_nil.symm.trans hlast)
      -- A directory stands below what stands above it.
      cases start using List.reverseRecOn with
      | nil => cases hstart.symm.trans hlink
      | append_singleton above name =>
        rw [List.dropLast_concat] at hlink
        rw [Tree.descend_snoc, hlink] at hstart
        cases hstart

/-- The directory of a link, by its text, is that of its names. -/
theorem resolved_of_link (hlink : symlinkMetadata fs path = .ok (.link target))
    (htext : lexicalNormalize path = (lexicalNormalize workspace).append (names.map .normal))
    {goal : Path} (hrelative : goal.absolute = false) :
    lexicalNormalize ((path.parent.getD (lexicalNormalize workspace)).join goal) =
      .ofNames workspace.absolute
        (goal.components.foldl pushComponent (lexicalNames workspace.components ++ names).dropLast) := by
  have habsolute : (lexicalNormalize path).absolute = workspace.absolute := by
    rw [htext]
    rfl
  have hnames : lexicalNames path.components = lexicalNames workspace.components ++ names := by
    have hmap : (lexicalNames path.components).map Component.normal =
        (lexicalNames workspace.components ++ names).map .normal := by
      have hcomponents := congrArg Path.components htext
      rw [List.map_append]
      exact hcomponents
    exact List.map_injective_iff.mpr (fun _ _ hsame => Component.normal.inj hsame) hmap
  have hjoin : ∀ directory : Path, directory.absolute = workspace.absolute →
      lexicalNames directory.components = (lexicalNames workspace.components ++ names).dropLast →
      lexicalNormalize (directory.join goal) = .ofNames workspace.absolute
        (goal.components.foldl pushComponent
          (lexicalNames workspace.components ++ names).dropLast) := by
    intro directory hsame hdirectory
    rw [Path.join, hrelative, if_neg Bool.false_ne_true, lexicalNormalize, ← hsame, ← hdirectory]
    show Path.ofNames _ (lexicalNames (directory.components ++ goal.components)) = _
    rw [lexicalNames, List.foldl_append]
    rfl
  rcases ends_of_link hlink with hnil | hends
  · have hnone : path.parent = none := by
      rw [Path.parent, Path.parts, hnil]
      rfl
    rw [hnil] at hnames
    have hempty : lexicalNames workspace.components ++ names = [] := hnames.symm
    rw [hnone, Option.getD_none]
    refine hjoin _ rfl ?_
    rw [hempty]
    have hworkspace := (List.append_eq_nil_iff.mp hempty).1
    show lexicalNames ((lexicalNames workspace.components).map .normal) = _
    rw [hworkspace]
    rfl
  · obtain ⟨base, name, rfl⟩ := hends
    have hparts : (base.append [.normal name]).parts = base.parts ++ [.normal name] := by
      show (base.components ++ [Component.normal name]).filter _ = _
      rw [List.filter_append, List.filter_cons_of_pos (by simp), List.filter_nil]
      rfl
    have hparent : (base.append [.normal name]).parent = some ⟨base.absolute, base.parts⟩ := by
      rw [Path.parent, hparts, if_neg (List.append_ne_nil_of_right_ne_nil _ (List.cons_ne_nil _ _)),
        List.dropLast_concat]
      rfl
    rw [hparent, Option.getD_some]
    refine hjoin _ habsolute ?_
    show lexicalNames (base.components.filter (· ≠ .curDir)) = _
    rw [lexicalNames_parts, ← hnames, Path.append, lexicalNames_concat]
    exact (List.dropLast_concat).symm

/-- What of an entry is recorded, and when. -/
theorem lineAt_of_found (h : Found fs (lexicalNormalize workspace) path names found) :
    lineAt c fs (lexicalNormalize workspace) declared path = .ok line ↔
      LineOf c line found ∧ Allowed workspace declared names found := by
  have hentry : symlinkMetadata fs path = .ok found := h.spelled false (.inl rfl)
  cases found with
  | dir inner child => cases h.leaf
  | file bytes =>
    have hread : readFile fs path = .ok bytes := by
      unfold readFile
      rw [h.spelled true (.inr fun target hlink => by cases hlink)]
      rfl
    unfold lineAt
    simp only [hentry, fileLine, hread, Except.ok.injEq, LineOf, Allowed, and_true, eq_comm]
  | link target =>
    have hresolved : checkSymlinkContainment (lexicalNormalize workspace) path (.ofBytes target) =
        fun text => if (linkTarget workspace names (.ofBytes target)).startsWith
            (lexicalNormalize workspace) then .ok (linkTarget workspace names (.ofBytes target))
          else .error (.symlinkEscape path text) := by
      funext text
      unfold checkSymlinkContainment linkTarget
      cases habsolute : (Path.ofBytes target).absolute with
      | true => rfl
      | false =>
        rw [if_neg Bool.false_ne_true, if_neg Bool.false_ne_true,
          resolved_of_link hentry h.text habsolute]
    have hread : readLink fs path = .ok target := by
      unfold readLink
      rw [h.spelled false (.inl rfl)]
      rfl
    constructor
    · intro hline
      refine ⟨lineOf_of_found h hline, ?_⟩
      unfold lineAt at hline
      simp only [hentry, linkLine, hread, hresolved] at hline
      split at hline
      next => cases hline
      next text htext =>
        obtain ⟨resolved, hstays, hline⟩ := except_bind_eq_ok.mp hline
        split at hstays
        next hinside =>
          obtain rfl := Except.ok.inj hstays
          split at hline
          next hcovered =>
            refine ⟨hinside, ?_⟩
            obtain ⟨d, hd, hroot⟩ := List.any_eq_true.mp hcovered
            refine ⟨d, hd, ?_⟩
            rcases Bool.or_eq_true _ _ |>.mp hroot with hsame | hbelow
            · exact of_decide_eq_true hsame ▸ startsWith_self _
            · exact hbelow
          next => cases hline
        next => cases hstays
    · intro hboth
      obtain ⟨⟨rfl, text, rfl⟩, hinside, d, hd, hcovered⟩ := hboth
      unfold lineAt
      simp only [hentry, linkLine, hread, hresolved, Trust.fromUTF8?_utf8, hinside, if_true]
      refine if_pos (List.any_eq_true.mpr ⟨d, hd, ?_⟩)
      exact Bool.or_eq_true _ _ |>.mpr (.inr hcovered)

end Links

/-! ### What stands at and below a declared path -/

/-- An entry at or below a declared path, under its names below the workspace. -/
def Below (fs : FileSystem) (workspace d : Path) (names : List Name) (entry : Tree) : Prop :=
  ∃ root tree rest, Straight fs (lexicalNormalize workspace) d root ∧
    symlinkMetadata fs ((lexicalNormalize workspace).join d) = .ok tree ∧ names = root ++ rest ∧
    tree.descend rest = some entry

/-- A file or a link at or below one of the declared paths. -/
def Holds (fs : FileSystem) (workspace : Path) (declared : List Path) (names : List Name)
    (found : Tree) : Prop :=
  found.isDir = false ∧ ∃ d ∈ declared, Below fs workspace d names found

/-- Every declared path is the entry that some names below the workspace lead to. -/
def AllStraight (fs : FileSystem) (workspace : Path) (declared : List Path) : Prop :=
  ∀ d ∈ declared, ∃ names, Straight fs (lexicalNormalize workspace) d names

/-- What a manifest has for a file or a link. -/
structure Describes (c : Crates) (workspace : Path) (declared : List Path)
    (entry : ManifestPath × EntryLine) (names : List Name) (found : Tree) : Prop where
  name : NameOf names entry.1
  line : LineOf c entry.2 found
  allowed : Allowed workspace declared names found

section Below
variable {fs : FileSystem} {workspace path d d' : Path} {names names' : List Name}
  {entry entry' tree : Tree}

theorem append_names_injective {base : Path}
    (h : base.append (names.map .normal) = base.append (names'.map .normal)) : names = names' := by
  have hcomponents := List.append_cancel_left (congrArg Path.components h)
  exact List.map_injective_iff.mpr (fun _ _ hsame => Component.normal.inj hsame) hcomponents

/-- A declared path is straight under one list of names. -/
theorem Straight.unique (h : Straight fs workspace d names) (h' : Straight fs workspace d names') :
    names = names' :=
  append_names_injective (h.text.symm.trans h'.text)

theorem Straight.named (h : Straight fs workspace d names)
    (hentry : symlinkMetadata fs (workspace.join d) = .ok entry) :
    symlinkMetadata fs (workspace.append (names.map .normal)) = .ok entry := by
  obtain ⟨loc, hresolve, hthere⟩ := entryAt_eq_ok.mp hentry
  exact entryAt_of_resolve (h.same.symm.trans hresolve) hthere

theorem Straight.spelled (h : Straight fs workspace d names)
    (hentry : symlinkMetadata fs (workspace.append (names.map .normal)) = .ok entry) :
    symlinkMetadata fs (workspace.join d) = .ok entry := by
  obtain ⟨loc, hresolve, hthere⟩ := entryAt_eq_ok.mp hentry
  exact entryAt_of_resolve (h.same.trans hresolve) hthere

theorem Below.named (h : Below fs workspace d names entry) :
    symlinkMetadata fs ((lexicalNormalize workspace).append (names.map .normal)) = .ok entry := by
  obtain ⟨root, tree, rest, hstraight, htree, rfl, hentry⟩ := h
  have hbelow := entryAt_below (hstraight.named htree) hentry (.inl rfl)
  rw [Path.append_append, ← List.map_append] at hbelow
  exact hbelow

/-- One entry stands under given names, wherever it is declared. -/
theorem Below.unique (h : Below fs workspace d names entry) (h' : Below fs workspace d' names entry') :
    entry = entry' :=
  Except.ok.inj (h.named.symm.trans h'.named)

theorem visits_of_leaf (htree : symlinkMetadata fs (workspace.join d) = .ok tree) {rest : Location}
    (hrest : rest ∈ tree.leaves) :
    Visits fs workspace d ((workspace.join d).append (rest.map .normal)) := by
  refine ⟨tree, htree, ?_⟩
  cases tree with
  | file bytes =>
    obtain rfl := List.mem_singleton.mp hrest
    exact Path.append_nil _
  | link target =>
    obtain rfl := List.mem_singleton.mp hrest
    exact Path.append_nil _
  | dir inner child =>
    have hmem := List.mem_map_of_mem (f := fun names : List Name =>
      (workspace.join d).append (names.map .normal)) hrest
    rw [← walk_leaves] at hmem
    obtain ⟨⟨path, isDir⟩, hvisit, rfl⟩ := List.mem_map.mp hmem
    obtain ⟨hwalk, hfile⟩ := List.mem_filter.mp hvisit
    obtain rfl : isDir = false := by simpa using hfile
    exact hwalk

/-- What a walk visits is found under the names it has below the workspace. -/
theorem Straight.found_leaf (h : Straight fs (lexicalNormalize workspace) d names)
    (htree : symlinkMetadata fs ((lexicalNormalize workspace).join d) = .ok tree) {rest : Location}
    (hentry : tree.descend rest = some entry) (hleaf : entry.isDir = false) :
    Found fs (lexicalNormalize workspace)
      (((lexicalNormalize workspace).join d).append (rest.map .normal)) (names ++ rest) entry := by
  obtain ⟨names', entry', hfound⟩ :=
    h.found (visits_of_leaf htree (Tree.mem_leaves.mpr ⟨entry, hentry, hleaf⟩))
  have hsame : entry' = entry :=
    Except.ok.inj ((hfound.spelled false (.inl rfl)).symm.trans (entryAt_below htree hentry (.inl rfl)))
  have htext : lexicalNormalize
      (((lexicalNormalize workspace).join d).append (rest.map .normal)) =
      (lexicalNormalize workspace).append ((names ++ rest).map .normal) := by
    have hnames : ∀ path : Path, lexicalNormalize (path.append (rest.map .normal)) =
        (lexicalNormalize path).append (rest.map .normal) := by
      intro path
      show Path.ofNames _ (lexicalNames (path.components ++ rest.map .normal)) = _
      rw [lexicalNames, List.foldl_append, foldl_pushComponent (parentDir_notMem_names rest),
        normalNames_map, Path.ofNames, List.map_append]
      rfl
    rw [hnames, h.text, Path.append_append, List.map_append]
  obtain rfl := append_names_injective (htext.symm.trans hfound.text)
  exact hsame ▸ hfound

end Below

/-! ### What is collected -/

section Collect
variable {c : Crates} {fs : FileSystem} {workspace d : Path} {declared : List Path}
  {names : List Name} {found tree : Tree} {entry : ManifestPath × EntryLine} {entries : EntryMap}
  {step : String} {kind : ManifestKind}

theorem LineOf.unique {line line' : EntryLine} (h : LineOf c line found) (h' : LineOf c line' found) :
    line = line' := by
  cases found with
  | dir inner child => cases h
  | file bytes => exact h.trans h'.symm
  | link target => exact h.1.trans h'.1.symm

/-- What there is to know of the declared paths. -/
def known (c : Crates) (fs : FileSystem) (workspace : Path) (declared : List Path) :
    Set (ManifestPath × EntryLine) :=
  {entry | ∃ names found, Holds fs workspace declared names found ∧
    Describes c workspace declared entry names found}

theorem oneEach_known : SortedMap.OneEach (known c fs workspace declared) := by
  intro entry hentry other hother hname
  obtain ⟨names, found, ⟨_, d, _, hbelow⟩, hdescribes⟩ := hentry
  obtain ⟨names', found', ⟨_, d', _, hbelow'⟩, hdescribes'⟩ := hother
  obtain rfl := hdescribes.name.names_unique (hname ▸ hdescribes'.name)
  obtain rfl := hbelow.unique hbelow'
  exact Prod.ext hname (hdescribes.line.unique hdescribes'.line)

/-- The name and the line of what stands at a path. -/
def recordOf (c : Crates) (fs : FileSystem) (workspace : Path) (declared : List Path) (path : Path) :
    Except HashingError (ManifestPath × EntryLine) := do
  let text ← normalizeRelative workspace path
  let line ← lineAt c fs workspace declared path
  .ok (text, line)

theorem addEntry_recordOf {path : Path} : addEntry c fs workspace declared entries path =
    recordOf c fs workspace declared path >>= fun entry => .ok (entries.insert entry.1 entry.2) := by
  rw [addEntry_eq, recordOf]
  cases normalizeRelative workspace path with
  | error e => rfl
  | ok text =>
    cases lineAt c fs workspace declared path with
    | error e => rfl
    | ok line => rfl

theorem recordOf_eq_ok {path : Path} (h : Found fs (lexicalNormalize workspace) path names found) :
    recordOf c fs (lexicalNormalize workspace) declared path = .ok entry ↔
      Describes c workspace declared entry names found := by
  rw [recordOf]
  simp only [except_bind_eq_ok, normalizeRelative_eq_ok h.text, lineAt_of_found h, Except.ok.injEq]
  constructor
  · intro hrecord
    obtain ⟨text, hname, line, ⟨hline, hallowed⟩, rfl⟩ := hrecord
    exact ⟨hname, hline, hallowed⟩
  · intro hdescribes
    exact ⟨entry.1, hdescribes.name, entry.2, ⟨hdescribes.line, hdescribes.allowed⟩, rfl⟩

/-- A declared path that is there, with all that stands below it. -/
def Collectable (c : Crates) (fs : FileSystem) (workspace : Path) (declared : List Path) (d : Path) :
    Prop :=
  (∃ tree, symlinkMetadata fs ((lexicalNormalize workspace).join d) = .ok tree) ∧
    ∀ names found, found.isDir = false → Below fs workspace d names found →
      ∃ entry, Describes c workspace declared entry names found

/-- What is recorded of a declared path. -/
def recordedOf (c : Crates) (fs : FileSystem) (workspace : Path) (declared : List Path) (d : Path) :
    Set (ManifestPath × EntryLine) :=
  {entry | ∃ names found, found.isDir = false ∧ Below fs workspace d names found ∧
    Describes c workspace declared entry names found}

/-- The files and links of a declared path are the leaves of what stands at it. -/
theorem below_iff {root : List Name} (hroot : Straight fs (lexicalNormalize workspace) d root)
    (htree : symlinkMetadata fs ((lexicalNormalize workspace).join d) = .ok tree)
    (hleaf : found.isDir = false) :
    Below fs workspace d names found ↔
      ∃ rest ∈ tree.leaves, names = root ++ rest ∧ tree.descend rest = some found := by
  constructor
  · intro h
    obtain ⟨root', tree', rest, hroot', htree', rfl, hthere⟩ := h
    obtain rfl := hroot.unique hroot'
    obtain rfl := Except.ok.inj (htree.symm.trans htree')
    exact ⟨rest, Tree.mem_leaves.mpr ⟨found, hthere, hleaf⟩, rfl, hthere⟩
  · intro h
    obtain ⟨rest, _, rfl, hthere⟩ := h
    exact ⟨root, tree, rest, hroot, htree, rfl, hthere⟩

/-- What a visit of a leaf records is what describes the leaf. -/
theorem recordOf_leaf {root : List Name} (hroot : Straight fs (lexicalNormalize workspace) d root)
    (htree : symlinkMetadata fs ((lexicalNormalize workspace).join d) = .ok tree) {rest : Location}
    (hthere : tree.descend rest = some found) (hleaf : found.isDir = false) :
    recordOf c fs (lexicalNormalize workspace) declared
        (((lexicalNormalize workspace).join d).append (rest.map .normal)) = .ok entry ↔
      Describes c workspace declared entry (root ++ rest) found :=
  recordOf_eq_ok (hroot.found_leaf htree hthere hleaf)

theorem recordedOf_subset (hd : d ∈ declared) :
    recordedOf c fs workspace declared d ⊆ known c fs workspace declared := by
  intro entry hentry
  obtain ⟨names, found, hleaf, hbelow, hdescribes⟩ := hentry
  exact ⟨names, found, ⟨hleaf, d, hd, hbelow⟩, hdescribes⟩

/-- Nothing is gathered of a path that is not there. -/
theorem gathers_missing {e : IoError} (hd : d ∈ declared)
    (hmissing : symlinkMetadata fs ((lexicalNormalize workspace).join d) = .error e) :
    SortedMap.Gathers (known c fs workspace declared)
      (fun entries => addDeclared c fs (lexicalNormalize workspace) step declared kind entries d)
      (Collectable c fs workspace declared d) (recordedOf c fs workspace declared d) := by
  have hrefused : ∀ entries entries', addDeclared c fs (lexicalNormalize workspace) step declared kind
      entries d ≠ .ok entries' := by
    intro entries entries' hadded
    unfold addDeclared at hadded
    rw [hmissing] at hadded
    cases kind <;> cases hadded
  constructor
  · exact recordedOf_subset hd
  · intro m _
    refine iff_of_false ?_ ?_
    · intro hok
      obtain ⟨m', hok⟩ := hok
      exact hrefused m m' hok
    · intro hcollectable
      obtain ⟨tree, htree⟩ := hcollectable.1
      cases hmissing.symm.trans htree
  · intro m m' _ hok
    exact absurd hok (hrefused m m')

/-- Of a path that is there, all its leaves are. -/
theorem gathers_there {root : List Name} (hroot : Straight fs (lexicalNormalize workspace) d root)
    (hd : d ∈ declared)
    (htree : symlinkMetadata fs ((lexicalNormalize workspace).join d) = .ok tree) :
    SortedMap.Gathers (known c fs workspace declared)
      (fun entries => addDeclared c fs (lexicalNormalize workspace) step declared kind entries d)
      (Collectable c fs workspace declared d) (recordedOf c fs workspace declared d) := by
  have hleaf : ∀ rest ∈ tree.leaves, SortedMap.Gathers (known c fs workspace declared)
      (fun entries => addEntry c fs (lexicalNormalize workspace) declared entries
        (((lexicalNormalize workspace).join d).append (rest.map .normal)))
      (∃ entry, recordOf c fs (lexicalNormalize workspace) declared
        (((lexicalNormalize workspace).join d).append (rest.map .normal)) = .ok entry)
      {entry | recordOf c fs (lexicalNormalize workspace) declared
        (((lexicalNormalize workspace).join d).append (rest.map .normal)) = .ok entry} := by
    intro rest hrest
    simp only [addEntry_recordOf]
    refine SortedMap.gathers_insert oneEach_known ?_
    intro entry hrecord
    obtain ⟨found, hthere, hfile⟩ := Tree.mem_leaves.mp hrest
    refine recordedOf_subset hd ⟨root ++ rest, found, hfile, ?_, ?_⟩
    · exact (below_iff hroot htree hfile).mpr ⟨rest, hrest, rfl, hthere⟩
    · exact (recordOf_leaf hroot htree hthere hfile).mp hrecord
  have hgathers := SortedMap.Gathers.foldlM hleaf
  simp only [addDeclared_eq htree]
  refine hgathers.congr ?_ (Set.ext fun entry => ?_)
  · constructor
    · intro hall
      refine ⟨⟨tree, htree⟩, ?_⟩
      intro names found hfile hbelow
      obtain ⟨rest, hrest, rfl, hthere⟩ := (below_iff hroot htree hfile).mp hbelow
      obtain ⟨entry, hrecord⟩ := hall rest hrest
      exact ⟨entry, (recordOf_leaf hroot htree hthere hfile).mp hrecord⟩
    · intro hcollectable rest hrest
      obtain ⟨found, hthere, hfile⟩ := Tree.mem_leaves.mp hrest
      obtain ⟨entry, hdescribes⟩ := hcollectable.2 _ found hfile
        ((below_iff hroot htree hfile).mpr ⟨rest, hrest, rfl, hthere⟩)
      exact ⟨entry, (recordOf_leaf hroot htree hthere hfile).mpr hdescribes⟩
  · constructor
    · intro hentry
      obtain ⟨rest, hrest, hrecord⟩ := hentry
      obtain ⟨found, hthere, hfile⟩ := Tree.mem_leaves.mp hrest
      exact ⟨root ++ rest, found, hfile, (below_iff hroot htree hfile).mpr ⟨rest, hrest, rfl, hthere⟩,
        (recordOf_leaf hroot htree hthere hfile).mp hrecord⟩
    · intro hentry
      obtain ⟨names, found, hfile, hbelow, hdescribes⟩ := hentry
      obtain ⟨rest, hrest, rfl, hthere⟩ := (below_iff hroot htree hfile).mp hbelow
      exact ⟨rest, hrest, (recordOf_leaf hroot htree hthere hfile).mpr hdescribes⟩

theorem gathers_addDeclared (hstraight : ∃ names, Straight fs (lexicalNormalize workspace) d names)
    (hd : d ∈ declared) :
    SortedMap.Gathers (known c fs workspace declared)
      (fun entries => addDeclared c fs (lexicalNormalize workspace) step declared kind entries d)
      (Collectable c fs workspace declared d) (recordedOf c fs workspace declared d) := by
  obtain ⟨root, hroot⟩ := hstraight
  cases htree : symlinkMetadata fs ((lexicalNormalize workspace).join d) with
  | error e => exact gathers_missing hd htree
  | ok tree => exact gathers_there hroot hd htree

theorem gathers_collect (hstraight : AllStraight fs workspace declared) :
    SortedMap.Gathers (known c fs workspace declared)
      (fun entries => declared.foldlM
        (addDeclared c fs (lexicalNormalize workspace) step declared kind) entries)
      (∀ d ∈ declared, Collectable c fs workspace declared d)
      {entry | ∃ d ∈ declared, entry ∈ recordedOf c fs workspace declared d} :=
  SortedMap.Gathers.foldlM fun d hd => gathers_addDeclared (hstraight d hd) hd

/-- When the declared paths have a manifest. -/
theorem collectEntries_ok_iff (hstraight : AllStraight fs workspace declared) :
    (∃ entries, collectEntries c fs workspace step declared kind = .ok entries) ↔
      ∀ d ∈ declared, Collectable c fs workspace declared d :=
  (gathers_collect hstraight).fine _ (SortedMap.within_empty _)

/-- What is in it: the files and links at and below the declared paths, each under its name. -/
theorem mem_collected (hstraight : AllStraight fs workspace declared)
    (h : collectEntries c fs workspace step declared kind = .ok entries) :
    entry ∈ entries.entries ↔ ∃ names found, Holds fs workspace declared names found ∧
      Describes c workspace declared entry names found := by
  rw [(gathers_collect hstraight).added _ _ (SortedMap.within_empty _) h, SortedMap.entries_empty]
  constructor
  · intro hentry
    rcases hentry with hnone | ⟨d, hd, names, found, hfile, hbelow, hdescribes⟩
    · cases hnone
    · exact ⟨names, found, ⟨hfile, d, hd, hbelow⟩, hdescribes⟩
  · intro hentry
    obtain ⟨names, found, ⟨hfile, d, hd, hbelow⟩, hdescribes⟩ := hentry
    exact .inr ⟨d, hd, names, found, hfile, hbelow, hdescribes⟩

/-- All that stands there is in it. -/
theorem described_of_collected (hstraight : AllStraight fs workspace declared)
    (h : collectEntries c fs workspace step declared kind = .ok entries)
    (hholds : Holds fs workspace declared names found) :
    ∃ entry ∈ entries.entries, Describes c workspace declared entry names found := by
  have hcollectable := (collectEntries_ok_iff hstraight).mp ⟨entries, h⟩
  obtain ⟨hfile, d, hd, hbelow⟩ := hholds
  obtain ⟨entry, hdescribes⟩ := (hcollectable d hd).2 names found hfile hbelow
  exact ⟨entry, (mem_collected hstraight h).mpr ⟨names, found, ⟨hfile, d, hd, hbelow⟩, hdescribes⟩,
    hdescribes⟩

end Collect

/-! ### Declarations of the same entries -/

/-- A path that is declared, or is by its names an entry at or below one that is. -/
def DeclaredBy (fs : FileSystem) (workspace : Path) (declared : List Path) (d : Path) : Prop :=
  d ∈ declared ∨ ∃ other ∈ declared, ∃ names entry, Below fs workspace other names entry ∧
    Straight fs (lexicalNormalize workspace) d names

section Declarations
variable {c : Crates} {fs : FileSystem} {workspace d : Path} {declared declared' : List Path}
  {names : List Name} {found tree : Tree} {entry : ManifestPath × EntryLine}

/-- What stands below such a path stands below a declared one. -/
theorem below_of_declaredBy (h : DeclaredBy fs workspace declared d)
    (hbelow : Below fs workspace d names found) :
    ∃ other ∈ declared, Below fs workspace other names found := by
  rcases h with hd | ⟨other, hother, above, entry, hentry, hstraight⟩
  · exact ⟨d, hd, hbelow⟩
  · obtain ⟨root, tree, rest, hroot, htree, rfl, hthere⟩ := hbelow
    obtain rfl := hroot.unique hstraight
    obtain rfl := Except.ok.inj ((hroot.named htree).symm.trans hentry.named)
    obtain ⟨root', tree', rest', hroot', htree', rfl, hthere'⟩ := hentry
    refine ⟨other, hother, root', tree', rest' ++ rest, hroot', htree', List.append_assoc .., ?_⟩
    rw [Tree.descend_append, hthere']
    exact hthere

theorem holds_of_declaredBy (h : ∀ d ∈ declared', DeclaredBy fs workspace declared d)
    (hholds : Holds fs workspace declared' names found) : Holds fs workspace declared names found := by
  obtain ⟨hfile, d, hd, hbelow⟩ := hholds
  exact ⟨hfile, below_of_declaredBy (h d hd) hbelow⟩

/-- A link that leads to what is declared leads to what declares that. -/
theorem allowed_of_declaredBy (h : ∀ d ∈ declared', DeclaredBy fs workspace declared d)
    (hallowed : Allowed workspace declared' names found) : Allowed workspace declared names found := by
  cases found with
  | file bytes => trivial
  | dir inner child => trivial
  | link target =>
    obtain ⟨hinside, d, hd, hleads⟩ := hallowed
    refine ⟨hinside, ?_⟩
    rcases h d hd with hd | ⟨other, hother, above, entry, hentry, hstraight⟩
    · exact ⟨d, hd, hleads⟩
    · obtain ⟨root, tree, rest, hroot, _, rfl, _⟩ := hentry
      refine ⟨other, hother, startsWith_trans hleads ?_⟩
      rw [hstraight.text, hroot.text, List.map_append, ← Path.append_append]
      exact startsWith_append _ _

theorem describes_of_declaredBy (h : ∀ d ∈ declared', DeclaredBy fs workspace declared d)
    (hdescribes : Describes c workspace declared' entry names found) :
    Describes c workspace declared entry names found :=
  ⟨hdescribes.name, hdescribes.line, allowed_of_declaredBy h hdescribes.allowed⟩

theorem there_of_declaredBy (h : DeclaredBy fs workspace declared d)
    (hall : ∀ d ∈ declared, ∃ tree, symlinkMetadata fs ((lexicalNormalize workspace).join d) = .ok tree) :
    ∃ tree, symlinkMetadata fs ((lexicalNormalize workspace).join d) = .ok tree := by
  rcases h with hd | ⟨other, hother, above, entry, hentry, hstraight⟩
  · exact hall d hd
  · exact ⟨entry, hstraight.spelled hentry.named⟩

theorem collectable_of_declaredBy (h : ∀ d ∈ declared', DeclaredBy fs workspace declared d)
    (h' : ∀ d ∈ declared, DeclaredBy fs workspace declared' d)
    (hall : ∀ d ∈ declared, Collectable c fs workspace declared d) :
    ∀ d ∈ declared', Collectable c fs workspace declared' d := by
  intro d hd
  refine ⟨there_of_declaredBy (h d hd) fun d hd => (hall d hd).1, ?_⟩
  intro names found hfile hbelow
  obtain ⟨other, hother, hbelow⟩ := below_of_declaredBy (h d hd) hbelow
  obtain ⟨entry, hdescribes⟩ := (hall other hother).2 names found hfile hbelow
  exact ⟨entry, describes_of_declaredBy h' hdescribes⟩

theorem collectEntries_of_declaredBy (hstraight : AllStraight fs workspace declared)
    (hstraight' : AllStraight fs workspace declared')
    (h : ∀ d ∈ declared', DeclaredBy fs workspace declared d)
    (h' : ∀ d ∈ declared, DeclaredBy fs workspace declared' d) {step step' : String}
    {kind : ManifestKind} :
    (collectEntries c fs workspace step declared kind).toOption =
      (collectEntries c fs workspace step' declared' kind).toOption := by
  apply Option.ext
  have hsame : ∀ {declared declared' : List Path} {step step' : String},
      AllStraight fs workspace declared → AllStraight fs workspace declared' →
      (∀ d ∈ declared', DeclaredBy fs workspace declared d) →
      (∀ d ∈ declared, DeclaredBy fs workspace declared' d) → ∀ entries,
      collectEntries c fs workspace step declared kind = .ok entries →
        collectEntries c fs workspace step' declared' kind = .ok entries := by
    intro declared declared' step step' hstraight hstraight' h h' entries hentries
    have hall := (collectEntries_ok_iff hstraight).mp ⟨entries, hentries⟩
    obtain ⟨entries', hentries'⟩ := (@collectEntries_ok_iff c fs workspace declared' step' kind
      hstraight').mpr (collectable_of_declaredBy h h' hall)
    obtain rfl : entries' = entries := by
      apply SortedMap.ext_mem
      intro entry
      rw [mem_collected hstraight hentries, mem_collected hstraight' hentries']
      constructor
      · intro hentry
        obtain ⟨names, found, hholds, hdescribes⟩ := hentry
        exact ⟨names, found, holds_of_declaredBy h hholds, describes_of_declaredBy h hdescribes⟩
      · intro hentry
        obtain ⟨names, found, hholds, hdescribes⟩ := hentry
        exact ⟨names, found, holds_of_declaredBy h' hholds, describes_of_declaredBy h' hdescribes⟩
    exact hentries'
  intro entries
  rw [toOption_eq_some, toOption_eq_some]
  exact ⟨hsame hstraight hstraight' h h' entries, hsame hstraight' hstraight h' h entries⟩

/-- **A manifest is that of what is declared, not of how.** Declared paths that lead straight down
from the workspace have the same manifest, or none, in any order, however often each is there,
however it is spelled, and with or without what stands below them. -/
theorem manifests_of_declarations {step run : String} (hstraight : AllStraight fs workspace declared)
    (hstraight' : AllStraight fs workspace declared')
    (h : ∀ d ∈ declared', DeclaredBy fs workspace declared d)
    (h' : ∀ d ∈ declared, DeclaredBy fs workspace declared' d) :
    (inputManifest c fs workspace step run declared).toOption =
        (inputManifest c fs workspace step run declared').toOption ∧
      (outputManifest c fs workspace step declared).toOption =
        (outputManifest c fs workspace step declared').toOption := by
  have hmap : ∀ {entries entries' : Except HashingError EntryMap} (text : EntryMap → String),
      entries.toOption = entries'.toOption →
      (entries >>= fun entries => pure (text entries)).toOption =
        (entries' >>= fun entries => pure (text entries)).toOption := by
    intro entries entries' text hsame
    cases entries <;> cases entries' <;> cases hsame <;> rfl
  exact ⟨hmap _ (collectEntries_of_declaredBy hstraight hstraight' h h'),
    hmap _ (collectEntries_of_declaredBy hstraight hstraight' h h')⟩

end Declarations

/-! ### Equal manifests -/

/-- The bytes a manifest has the digest of. -/
def contentOf : Tree → Bytes
  | .file bytes => bytes
  | .link target => target
  | .dir _ _ => []

/-- All that goes into the digests of a manifest. -/
def contents (fs : FileSystem) (workspace : Path) (declared : List Path) (run : String) : Set Bytes :=
  {bytes | bytes = utf8 run ∨
    ∃ names found, Holds fs workspace declared names found ∧ bytes = contentOf found}

section Equal
variable {c : Crates} {fs fs' : FileSystem} {workspace workspace' : Path}
  {declared declared' : List Path} {step step' run run' text text' : String}
  {names : List Name} {found found' : Tree} {entries entries' : EntryMap}

/-- A line tells what stands there, by its digest. -/
theorem LineOf.found_unique {line : EntryLine} {s : Set Bytes} (hcollision : Set.InjOn c.blake3 s)
    (h : LineOf c line found) (h' : LineOf c line found') (hs : contentOf found ∈ s)
    (hs' : contentOf found' ∈ s) : found = found' := by
  cases found with
  | dir inner child => cases h
  | file bytes =>
    cases found' with
    | dir inner child => cases h'
    | file bytes' =>
      have hdigest := congrArg EntryLine.digest (h.symm.trans h')
      exact congrArg Tree.file (hcollision hs hs' hdigest)
    | link target => cases h.symm.trans h'.1
  | link target =>
    cases found' with
    | dir inner child => cases h'
    | file bytes => cases h'.symm.trans h.1
    | link target' =>
      have hdigest := congrArg EntryLine.digest (h.1.symm.trans h'.1)
      exact congrArg Tree.link (hcollision hs hs' hdigest)

/-- What stands on one side of equal entries stands on the other. -/
theorem holds_of_entries (hstraight : AllStraight fs workspace declared)
    (hstraight' : AllStraight fs' workspace' declared') {kind kind' : ManifestKind}
    (h : collectEntries c fs workspace step declared kind = .ok entries)
    (h' : collectEntries c fs' workspace' step' declared' kind' = .ok entries)
    (hcollision : Set.InjOn c.blake3
      (contents fs workspace declared run ∪ contents fs' workspace' declared' run'))
    (hholds : Holds fs workspace declared names found) : Holds fs' workspace' declared' names found := by
  obtain ⟨entry, hentry, hdescribes⟩ := described_of_collected hstraight h hholds
  obtain ⟨names', found', hholds', hdescribes'⟩ := (mem_collected hstraight' h').mp hentry
  obtain rfl := hdescribes.name.names_unique hdescribes'.name
  obtain rfl := hdescribes.line.found_unique hcollision hdescribes'.line
    (.inl (.inr ⟨_, _, hholds, rfl⟩)) (.inr (.inr ⟨_, _, hholds', rfl⟩))
  exact hholds'

/-- Where the same stands, the same is collected. -/
theorem entries_of_holds (hstraight : AllStraight fs workspace declared)
    (hstraight' : AllStraight fs' workspace' declared') {kind kind' : ManifestKind}
    (h : collectEntries c fs workspace step declared kind = .ok entries)
    (h' : collectEntries c fs' workspace' step' declared' kind' = .ok entries')
    (hsame : ∀ names found, Holds fs workspace declared names found →
      Holds fs' workspace' declared' names found) :
    ∀ entry ∈ entries.entries, entry ∈ entries'.entries := by
  intro entry hentry
  obtain ⟨names, found, hholds, hdescribes⟩ := (mem_collected hstraight h).mp hentry
  obtain ⟨other, hother, hdescribes'⟩ := described_of_collected hstraight' h' (hsame _ _ hholds)
  have heq : entry = other := Prod.ext (hdescribes.name.unique hdescribes'.name)
    (hdescribes.line.unique hdescribes'.line)
  exact heq ▸ hother

/-- **Equal manifests are those of equal inputs.** Of declared paths that lead straight down from
their workspaces, two manifests are the same exactly where the command is and the same files and
links stand, under the same names, at and below the declared paths. -/
theorem manifests_agree_iff (hstraight : AllStraight fs workspace declared)
    (hstraight' : AllStraight fs' workspace' declared')
    (hcollision : Set.InjOn c.blake3
      (contents fs workspace declared run ∪ contents fs' workspace' declared' run'))
    (h : inputManifest c fs workspace step run declared = .ok text)
    (h' : inputManifest c fs' workspace' step' run' declared' = .ok text') :
    text = text' ↔ run = run' ∧ ∀ names found,
      (Holds fs workspace declared names found ↔ Holds fs' workspace' declared' names found) := by
  obtain ⟨entries, hentries, htext⟩ := except_bind_eq_ok.mp h
  obtain ⟨entries', hentries', htext'⟩ := except_bind_eq_ok.mp h'
  obtain rfl := Except.ok.inj htext
  obtain rfl := Except.ok.inj htext'
  constructor
  · intro hsame
    obtain ⟨hrun, rfl⟩ := inputText_inj hsame
    refine ⟨Trust.utf8_injective (hcollision (.inl (.inl rfl)) (.inr (.inl rfl)) hrun), ?_⟩
    intro names found
    rw [Set.union_comm] at hcollision
    constructor
    · exact holds_of_entries hstraight hstraight' hentries hentries' (Set.union_comm .. ▸ hcollision)
    · exact holds_of_entries hstraight' hstraight hentries' hentries hcollision
  · intro hsame
    obtain ⟨rfl, hholds⟩ := hsame
    have heq : entries = entries' := SortedMap.ext_mem fun entry =>
      ⟨entries_of_holds hstraight hstraight' hentries hentries' (fun _ _ => (hholds _ _).mp) entry,
        entries_of_holds hstraight' hstraight hentries' hentries (fun _ _ => (hholds _ _).mpr) entry⟩
    rw [heq]

end Equal

/-! ### The file `a`, declared in two ways -/

theorem straight_filesOfX :
    Straight (filesOfX [nameA]) (lexicalNormalize (.ofString "/w")) (.ofString "a") [nameA] ∧
      Straight (filesOfX [nameA]) (lexicalNormalize (.ofString "/w")) (.ofString "./a") [nameA] ∧
      Straight (filesOfX [nameA, nameB]) (lexicalNormalize (.ofString "/w")) (.ofString "./a") [nameA] :=
  ⟨⟨rfl, rfl, trivial⟩, ⟨rfl, rfl, trivial⟩, ⟨rfl, rfl, trivial⟩⟩

theorem allStraight_single {fs : FileSystem} {workspace d : Path} {names : List Name}
    (h : Straight fs (lexicalNormalize workspace) d names) : AllStraight fs workspace [d] := by
  intro other hother
  obtain rfl := List.mem_singleton.mp hother
  exact ⟨names, h⟩

theorem allStraight_twice : AllStraight (filesOfX [nameA]) (.ofString "/w")
    [.ofString "./a", .ofString "a", .ofString "./a"] := by
  obtain ⟨hplain, hdotted, _⟩ := straight_filesOfX
  intro d hd
  simp only [List.mem_cons, List.not_mem_nil, or_false] at hd
  rcases hd with rfl | rfl | rfl
  · exact ⟨_, hdotted⟩
  · exact ⟨_, hplain⟩
  · exact ⟨_, hdotted⟩

/-- `./a` is `a`. -/
theorem below_filesOfX : Below (filesOfX [nameA]) (.ofString "/w") (.ofString "a") [nameA]
    (.file (utf8 "x")) :=
  ⟨[nameA], .file (utf8 "x"), [], straight_filesOfX.1, rfl, rfl, rfl⟩

theorem manifests_of_declarations_filesOfX :
    (inputManifest cratesOfX (filesOfX [nameA]) (.ofString "/w") "build" "true"
        [.ofString "a"]).toOption =
      (inputManifest cratesOfX (filesOfX [nameA]) (.ofString "/w") "build" "true"
        [.ofString "./a", .ofString "a", .ofString "./a"]).toOption ∧
      (outputManifest cratesOfX (filesOfX [nameA]) (.ofString "/w") "build"
          [.ofString "a"]).toOption =
        (outputManifest cratesOfX (filesOfX [nameA]) (.ofString "/w") "build"
          [.ofString "./a", .ofString "a", .ofString "./a"]).toOption := by
  have hdotted : DeclaredBy (filesOfX [nameA]) (.ofString "/w") [.ofString "a"] (.ofString "./a") :=
    .inr ⟨_, List.mem_singleton_self _, _, _, below_filesOfX, straight_filesOfX.2.1⟩
  refine manifests_of_declarations (allStraight_single straight_filesOfX.1) allStraight_twice ?_ ?_
  · intro d hd
    simp only [List.mem_cons, List.not_mem_nil, or_false] at hd
    rcases hd with rfl | rfl | rfl
    · exact hdotted
    · exact .inl (List.mem_singleton_self _)
    · exact hdotted
  · intro d hd
    obtain rfl := List.mem_singleton.mp hd
    exact .inl (List.mem_cons_of_mem _ (List.mem_cons_self ..))

/-- Only `a` is declared, so only its bytes are read. -/
theorem contents_filesOfX {fs : FileSystem} {d : Path}
    (h : Straight fs (lexicalNormalize (.ofString "/w")) d [nameA])
    (hthere : symlinkMetadata fs ((lexicalNormalize (.ofString "/w")).join d) = .ok (.file (utf8 "x"))) :
    ∀ bytes ∈ contents fs (.ofString "/w") [d] "true", bytes = utf8 "true" ∨ bytes = utf8 "x" := by
  intro bytes hbytes
  rcases hbytes with rfl | ⟨names, found, hholds, rfl⟩
  · exact .inl rfl
  · obtain ⟨hfile, other, hother, hbelow⟩ := hholds
    obtain rfl := List.mem_singleton.mp hother
    obtain ⟨rest, hrest, rfl, hfound⟩ := (below_iff h hthere hfile).mp hbelow
    obtain rfl := List.mem_singleton.mp hrest
    obtain rfl := Option.some.inj hfound
    exact .inr rfl

theorem inputManifest_filesOfX :
    inputManifest cratesOfX (filesOfX [nameA]) (.ofString "/w") "build" "true" [.ofString "a"] =
        .ok (inputText digestTrue entryOfX) ∧
      inputManifest cratesOfX (filesOfX [nameA, nameB]) (.ofString "/w") "build" "true"
        [.ofString "./a"] = .ok (inputText digestTrue entryOfX) := by
  have htrue : cratesOfX.blake3 (utf8 "true") = digestTrue := by decide +kernel
  unfold inputManifest
  rw [collectEntries_filesOfX.1, collectEntries_filesOfX.2, htrue]
  exact ⟨rfl, rfl⟩

theorem manifests_agree_filesOfX : ∀ names found,
    Holds (filesOfX [nameA]) (.ofString "/w") [.ofString "a"] names found ↔
      Holds (filesOfX [nameA, nameB]) (.ofString "/w") [.ofString "./a"] names found := by
  obtain ⟨hplain, _, hdotted⟩ := straight_filesOfX
  have hne : cratesOfX.blake3 (utf8 "true") ≠ cratesOfX.blake3 (utf8 "x") := by decide +kernel
  have hpair : ∀ bytes ∈ contents (filesOfX [nameA]) (.ofString "/w") [.ofString "a"] "true" ∪
      contents (filesOfX [nameA, nameB]) (.ofString "/w") [.ofString "./a"] "true",
      bytes = utf8 "true" ∨ bytes = utf8 "x" := by
    intro bytes hbytes
    rcases hbytes with hbytes | hbytes
    · exact contents_filesOfX hplain rfl bytes hbytes
    · exact contents_filesOfX hdotted rfl bytes hbytes
  exact ((manifests_agree_iff (allStraight_single hplain) (allStraight_single hdotted)
    (injOn_of_pair hpair hne) inputManifest_filesOfX.1 inputManifest_filesOfX.2).mp rfl).2

end Attest.Hashing
