import Attest.Hashing.Straight

/-! Hashing a copy.

What is recorded under a name depends on what the declared paths lead to and on the names below
the workspace, not on where the workspace is. `hashInputs_copied` says that a copy in another
directory has the same hash, where the same entries are found in it and no link leaves the
workspace on its way by the text of its target. -/
namespace Attest.Hashing
open Library Library.Fallible
open Trust (Bytes Crates utf8 hexEncode)

/-! ### A tree put in another -/

namespace Tree

def emptyDir : Tree := .dir [] fun _ => .file []

def names : Tree → List Name
  | .dir names _ => names
  | _ => []

/-- The tree with this one at a location, and directories on the way to it. -/
def put : Tree → Location → Tree → Tree
  | _, [], sub => sub
  | tree, name :: rest, sub =>
    .dir (tree.names.insert name) fun other =>
      if other = name then ((tree.child? name).getD emptyDir).put rest sub
      else (tree.child? other).getD emptyDir

theorem descend_cons {tree : Tree} {name : Name} {rest : Location} {found : Tree} :
    tree.descend (name :: rest) = some found ↔
      ∃ names child, tree = .dir names child ∧ name ∈ names ∧ (child name).descend rest = some found := by
  rw [descend]
  cases tree with
  | file bytes => simp [child?]
  | link target => simp [child?]
  | dir names child =>
    by_cases hmem : name ∈ names
    · simp [child?, hmem]
    · simp [child?, hmem]

theorem descend_put_self (tree : Tree) (loc : Location) (sub : Tree) :
    (tree.put loc sub).descend loc = some sub := by
  induction loc generalizing tree with
  | nil => rfl
  | cons name rest ih =>
    rw [put]
    refine descend_cons.mpr ⟨_, _, rfl, List.mem_insert_self, ?_⟩
    rw [if_pos rfl]
    exact ih _

/-- Two locations of which neither is below the other. -/
def Apart (a b : Location) : Prop := ¬ a <+: b ∧ ¬ b <+: a

theorem descend_put_other {tree sub found : Tree} {loc other : Location} (h : Apart loc other)
    (hfound : tree.descend other = some found) : (tree.put loc sub).descend other = some found := by
  induction loc generalizing tree other with
  | nil => exact absurd (List.nil_prefix) h.1
  | cons name rest ih =>
    cases other with
    | nil => exact absurd (List.nil_prefix) h.2
    | cons first further =>
      obtain ⟨names, child, rfl, hmem, hfound⟩ := descend_cons.mp hfound
      rw [put]
      refine descend_cons.mpr ⟨_, _, rfl, List.mem_insert_of_mem hmem, ?_⟩
      have hchild : (Tree.dir names child).child? first = some (child first) := if_pos hmem
      by_cases hfirst : first = name
      · subst hfirst
        rw [if_pos rfl, hchild]
        refine ih ⟨fun hle => h.1 ?_, fun hle => h.2 ?_⟩ hfound
        · exact List.cons_prefix_cons.mpr ⟨rfl, hle⟩
        · exact List.cons_prefix_cons.mpr ⟨rfl, hle⟩
      · rw [if_neg hfirst, hchild]
        exact hfound

/-- Each of these trees put at its location. -/
def planted (start : Tree) (copies : List (Location × Tree)) : Tree :=
  copies.foldl (fun tree copy => tree.put copy.1 copy.2) start

theorem descend_planted_other {start found : Tree} {copies : List (Location × Tree)}
    {other : Location} (h : ∀ copy ∈ copies, Apart copy.1 other)
    (hfound : start.descend other = some found) : (start.planted copies).descend other = some found := by
  induction copies generalizing start with
  | nil => exact hfound
  | cons copy rest ih =>
    rw [List.forall_mem_cons] at h
    exact ih h.2 (descend_put_other h.1 hfound)

theorem descend_planted {start : Tree} {copies : List (Location × Tree)}
    (h : copies.Pairwise fun a b => Apart a.1 b.1) {copy : Location × Tree} (hmem : copy ∈ copies) :
    (start.planted copies).descend copy.1 = some copy.2 := by
  induction copies generalizing start with
  | nil => cases hmem
  | cons first rest ih =>
    rw [List.pairwise_cons] at h
    rcases List.mem_cons.mp hmem with rfl | hrest
    · have hput := descend_put_self start copy.1 copy.2
      refine @descend_planted_other (start.put copy.1 copy.2) _ rest _ ?_ hput
      intro later hlater
      exact ⟨(h.1 later hlater).2, (h.1 later hlater).1⟩
    · exact ih h.2 hrest

/-- The locations of the files and links of a tree, in the order of a walk. -/
def leaves : Tree → List Location
  | .dir names child => (sortNames names).flatMap fun name => (leaves (child name)).map (name :: ·)
  | _ => [[]]

theorem descend_of_mem_leaves {tree : Tree} {loc : Location} (h : loc ∈ tree.leaves) :
    ∃ leaf, tree.descend loc = some leaf ∧ leaf.isDir = false := by
  induction tree generalizing loc with
  | file bytes =>
    cases List.mem_singleton.mp h
    exact ⟨_, rfl, rfl⟩
  | link target =>
    cases List.mem_singleton.mp h
    exact ⟨_, rfl, rfl⟩
  | dir names child ih =>
    obtain ⟨name, hname, h⟩ := List.mem_flatMap.mp h
    obtain ⟨rest, hrest, rfl⟩ := List.mem_map.mp h
    obtain ⟨leaf, hleaf, hisDir⟩ := ih name hrest
    have hmem : name ∈ names := (List.perm_insertionSort _ names).mem_iff.mp hname
    exact ⟨leaf, descend_cons.mpr ⟨names, child, rfl, hmem, hleaf⟩, hisDir⟩

end Tree

/-! ### Straight down -/

/-- The names among these components. -/
def normalNames : List Component → List Name
  | [] => []
  | .normal name :: rest => name :: normalNames rest
  | .curDir :: rest => normalNames rest
  | .parentDir :: rest => normalNames rest

theorem normalNames_append (a b : List Component) :
    normalNames (a ++ b) = normalNames a ++ normalNames b := by
  induction a with
  | nil => rfl
  | cons component rest ih =>
    cases component with
    | curDir => exact ih
    | parentDir => exact ih
    | normal name => exact congrArg (name :: ·) ih

theorem normalNames_map (names : List Name) : normalNames (names.map .normal) = names := by
  induction names with
  | nil => rfl
  | cons name rest ih => exact congrArg (name :: ·) ih

theorem foldl_pushComponent {components : List Component} (h : .parentDir ∉ components)
    (names : List Name) : components.foldl pushComponent names = names ++ normalNames components := by
  induction components generalizing names with
  | nil => exact (List.append_nil names).symm
  | cons component rest ih =>
    rw [List.mem_cons, not_or] at h
    rw [List.foldl_cons, ih h.2]
    cases component with
    | curDir => rfl
    | parentDir => exact absurd rfl h.1
    | normal name => exact List.append_assoc names [name] _

section Down
variable {root entry : Tree} {fs : FileSystem}

theorem dir_of_descend {loc rest : Location} {name : Name}
    (h : root.descend (loc ++ name :: rest) = some entry) :
    ∃ names child, root.descend loc = some (.dir names child) ∧ name ∈ names ∧
      (child name).descend rest = some entry := by
  rw [Tree.descend_append] at h
  obtain ⟨tree, htree, h⟩ := Option.bind_eq_some_iff.mp h
  obtain ⟨names, child, rfl, hmem, hrest⟩ := Tree.descend_cons.mp h
  exact ⟨names, child, htree, hmem, hrest⟩

/-- Components that end in `.` name a directory. -/
def EndsInDir (components : List Component) (entry : Tree) : Prop :=
  components.getLast? = some .curDir → entry.isDir = true

/-- Where only `.` is left, a directory stands there. -/
theorem isDir_of_normalNames_nil {components : List Component} (hparent : .parentDir ∉ components)
    (hne : components ≠ []) (hnames : normalNames components = []) (hlast : EndsInDir components entry) :
    entry.isDir = true := by
  refine hlast ?_
  induction components with
  | nil => exact absurd rfl hne
  | cons component rest ih =>
    rw [List.mem_cons, not_or] at hparent
    cases component with
    | parentDir => exact absurd rfl hparent.1
    | normal name => cases hnames
    | curDir =>
      cases rest with
      | nil => rfl
      | cons next further =>
        rw [List.getLast?_cons_cons]
        exact ih hparent.2 (List.cons_ne_nil _ _) hnames (fun h => hlast (by
          rw [List.getLast?_cons_cons]
          exact h))

theorem EndsInDir.tail {component : Component} {rest : List Component}
    (h : EndsInDir (component :: rest) entry) (hne : rest ≠ []) : EndsInDir rest entry := by
  intro hcurDir
  refine h ?_
  cases rest with
  | nil => exact absurd rfl hne
  | cons next further =>
    rw [List.getLast?_cons_cons]
    exact hcurDir

/-- A path leads straight down to what stands at its names. -/
theorem resolveFrom_down {links : Nat} {loc : Location} {components : List Component}
    (hparent : .parentDir ∉ components)
    (hentry : root.descend (loc ++ normalNames components) = some entry)
    (hlast : EndsInDir components entry) :
    resolveFrom root false links loc components = .ok (loc ++ normalNames components) := by
  induction components generalizing loc with
  | nil =>
    rw [resolveFrom_nil]
    exact congrArg Except.ok (List.append_nil loc).symm
  | cons component rest ih =>
    have hparents := hparent
    rw [List.mem_cons, not_or] at hparent
    cases component with
    | parentDir => exact absurd rfl hparent.1
    | curDir =>
      -- `.` asks for a directory: one that more names follow, or the entry itself.
      have hdir : ∃ names child, root.descend loc = some (.dir names child) := by
        cases hnames : normalNames rest with
        | cons name further =>
          have hmore : root.descend (loc ++ name :: further) = some entry := hnames ▸ hentry
          obtain ⟨names, child, hdir, -⟩ := dir_of_descend hmore
          exact ⟨names, child, hdir⟩
        | nil =>
          have hisDir := isDir_of_normalNames_nil hparents (List.cons_ne_nil _ _) hnames hlast
          rw [normalNames, hnames, List.append_nil] at hentry
          cases entry with
          | dir names child => exact ⟨names, child, hentry⟩
          | file bytes => cases hisDir
          | link target => cases hisDir
      obtain ⟨names, child, hdir⟩ := hdir
      rw [resolveFrom_cons, hdir]
      dsimp only
      by_cases hrest : rest = []
      · subst hrest
        rw [resolveFrom_nil]
        exact congrArg Except.ok (List.append_nil loc).symm
      · exact ih hparent.2 hentry (hlast.tail hrest)
    | normal name =>
      obtain ⟨names, child, hdir, hmem, hchild⟩ := dir_of_descend hentry
      have hthere : root.descend (loc ++ [name]) = some (child name) := by
        rw [Tree.descend_snoc, hdir]
        exact if_pos hmem
      have hfurther : loc ++ normalNames (.normal name :: rest) =
          (loc ++ [name]) ++ normalNames rest := by
        rw [List.append_assoc]
        rfl
      rw [resolveFrom_cons, hdir]
      dsimp only
      rw [child?_dir, if_pos hmem]
      by_cases hrest : rest = []
      · subst hrest
        cases hkind : child name with
        | link target => exact if_pos ⟨rfl, rfl⟩
        | file bytes => exact resolveFrom_nil
        | dir inner entries => exact resolveFrom_nil
      · have hgoes := ih hparent.2 (hfurther ▸ hentry) (hlast.tail hrest)
        cases hkind : child name with
        | link target =>
          -- Nothing stands below a link, and it is no directory.
          rw [hkind] at hchild
          cases hnames : normalNames rest with
          | cons next further =>
            rw [hnames] at hchild
            cases hchild
          | nil =>
            rw [hnames] at hchild
            cases hchild
            have hisDir := isDir_of_normalNames_nil hparent.2 hrest hnames (hlast.tail hrest)
            cases hisDir
        | file bytes => rw [hfurther]; exact hgoes
        | dir inner entries => rw [hfurther]; exact hgoes

theorem symlinkMetadata_down {path : Path} (habsolute : path.absolute = true)
    (hparent : .parentDir ∉ path.components)
    (hentry : fs.root.descend (normalNames path.components) = some entry)
    (hlast : EndsInDir path.components entry) : symlinkMetadata fs path = .ok entry := by
  refine entryAt_of_resolve ?_ hentry
  rw [resolve, habsolute]
  exact resolveFrom_down hparent hentry hlast

end Down

/-! ### What a walk visits -/

section Walk
variable {fs : FileSystem} {path : Path} {tree leaf : Tree} {followLast : Bool}

/-- The files and links that a walk finds, by the path it started from. -/
theorem walk_leaves (path : Path) (tree : Tree) :
    ((walk path tree).filter fun found => !found.2).map Prod.fst =
      tree.leaves.map fun names => path.append (names.map .normal) := by
  induction tree generalizing path with
  | file bytes =>
    show [path] = [path.append []]
    rw [Path.append_nil]
  | link target =>
    show [path] = [path.append []]
    rw [Path.append_nil]
  | dir names child ih =>
    rw [walk, Tree.leaves, List.filter_cons_of_neg (by simp), List.filter_flatMap, List.map_flatMap,
      List.map_flatMap]
    congr 1
    funext name
    have hchild := ih name (path.append [.normal name])
    rw [List.map_map]
    refine hchild.trans (congrArg (List.map · _) ?_)
    funext rest
    rw [Path.append_append]
    rfl

/-- What stands below a directory that a path leads to. -/
theorem entryAt_of_leadsTo {links : Nat} {loc : Location} {name : Name} {rest : Location}
    (h : LeadsTo fs path links loc) (htree : fs.root.descend loc = some tree)
    (hleaf : tree.descend (name :: rest) = some leaf)
    (hlink : followLast = false ∨ ∀ target, leaf ≠ .link target) :
    entryAt fs followLast (path.append ((name :: rest).map .normal)) = .ok leaf := by
  induction rest generalizing path loc tree name with
  | nil =>
    obtain ⟨names, child, rfl, hmem, hleaf⟩ := Tree.descend_cons.mp hleaf
    cases hleaf
    exact entryAt_name h htree hmem hlink
  | cons next further ih =>
    obtain ⟨names, child, rfl, hmem, hleaf⟩ := Tree.descend_cons.mp hleaf
    obtain ⟨inner, entries, hchild, -⟩ := Tree.descend_cons.mp hleaf
    have hthere : fs.root.descend (loc ++ [name]) = some (child name) := by
      rw [Tree.descend_snoc, htree]
      exact if_pos hmem
    have hgoes := ih (h.below htree hmem hchild) hthere hleaf
    rw [Path.append_append] at hgoes
    exact hgoes

/-- What stands in the tree at a path stands below that path. -/
theorem entryAt_below {names : List Name} (h : symlinkMetadata fs path = .ok tree)
    (hleaf : tree.descend names = some leaf)
    (hlink : followLast = false ∨ ∀ target, leaf ≠ .link target) :
    entryAt fs followLast (path.append (names.map .normal)) = .ok leaf := by
  obtain ⟨loc, hresolve, htree⟩ := entryAt_eq_ok.mp h
  cases names with
  | nil =>
    cases hleaf
    rw [List.map_nil, Path.append_nil]
    rcases hlink with rfl | hlink
    · exact h
    · exact entryAt_of_resolve (resolve_of_not_link hresolve htree hlink) htree
  | cons name rest =>
    obtain ⟨inner, child, rfl, -, -⟩ := Tree.descend_cons.mp hleaf
    obtain ⟨links, hleads⟩ := leadsTo_of_resolve hresolve htree
    exact entryAt_of_leadsTo hleads htree hleaf hlink

/-- A declared path is collected leaf by leaf. -/
theorem addDeclared_eq {c : Crates} {workspace declaredPath : Path} {step : String}
    {declared : List Path} {kind : ManifestKind} {entries : EntryMap}
    (h : symlinkMetadata fs (workspace.join declaredPath) = .ok tree) :
    addDeclared c fs workspace step declared kind entries declaredPath =
      tree.leaves.foldlM (fun entries names => addEntry c fs workspace declared entries
        ((workspace.join declaredPath).append (names.map .normal))) entries := by
  unfold addDeclared
  rw [h]
  cases tree with
  | dir names child =>
    show List.foldlM _ _ _ = _
    rw [← List.foldlM_map, walk_leaves, List.foldlM_map]
  | file bytes =>
    show _ = List.foldlM _ entries [[]]
    rw [List.foldlM_cons, List.map_nil, Path.append_nil]
    exact (bind_pure _).symm
  | link target =>
    show _ = List.foldlM _ entries [[]]
    rw [List.foldlM_cons, List.map_nil, Path.append_nil]
    exact (bind_pure _).symm

end Walk

/-! ### Texts below a base -/

/-- These components never go above the names they start from. -/
def Stays : List Name → List Component → Prop
  | _, [] => True
  | names, .curDir :: rest => Stays names rest
  | names, .parentDir :: rest => names ≠ [] ∧ Stays names.dropLast rest
  | names, .normal name :: rest => Stays (names ++ [name]) rest

theorem foldl_stays {names : List Name} {components : List Component} (h : Stays names components)
    (base : List Name) : components.foldl pushComponent (base ++ names) =
      base ++ components.foldl pushComponent names := by
  induction components generalizing names with
  | nil => rfl
  | cons component rest ih =>
    cases component with
    | curDir => exact ih h
    | parentDir =>
      show rest.foldl pushComponent (base ++ names).dropLast = _
      rw [List.dropLast_append_of_ne_nil h.1]
      exact ih h.2
    | normal name =>
      show rest.foldl pushComponent (base ++ names ++ [name]) = _
      rw [List.append_assoc]
      exact ih h

section Texts
variable {absolute : Bool} {base : List Name} {components : List Component} {declared : List Path}

theorem parentDir_notMem_names (names : List Name) : Component.parentDir ∉ names.map .normal := by
  simp

theorem lexicalNames_base (base : List Name) (components : List Component) :
    lexicalNames (base.map .normal ++ components) = components.foldl pushComponent base := by
  rw [lexicalNames, List.foldl_append, foldl_pushComponent (parentDir_notMem_names base),
    List.nil_append, normalNames_map]

theorem lexicalNormalize_names (absolute : Bool) (base : List Name) :
    lexicalNormalize (.ofNames absolute base) = .ofNames absolute base := by
  have hnames := lexicalNames_base base []
  rw [List.append_nil] at hnames
  exact congrArg (Path.ofNames absolute) hnames

theorem lexicalNormalize_append (h : .parentDir ∉ components) :
    lexicalNormalize ((Path.ofNames absolute base).append components) =
      .ofNames absolute (base ++ normalNames components) := by
  show Path.ofNames absolute (lexicalNames (base.map .normal ++ components)) = _
  rw [lexicalNames_base, foldl_pushComponent h]

theorem parts_names (absolute : Bool) (names : List Name) :
    (Path.ofNames absolute names).parts = names.map .normal := by
  refine List.filter_eq_self.mpr ?_
  intro component hmem
  obtain ⟨name, -, rfl⟩ := List.mem_map.mp hmem
  rfl

theorem parts_append (h : .parentDir ∉ components) :
    ((Path.ofNames absolute base).append components).parts =
      (base ++ normalNames components).map .normal := by
  have hfilter : components.filter (· ≠ .curDir) = (normalNames components).map .normal := by
    induction components with
    | nil => rfl
    | cons component rest ih =>
      rw [List.mem_cons, not_or] at h
      cases component with
      | curDir => exact ih h.2
      | parentDir => exact absurd rfl h.1
      | normal name => exact congrArg (Component.normal name :: ·) (ih h.2)
  rw [List.map_append, ← hfilter, ← parts_names absolute base]
  exact List.filter_append _ _

theorem startsWith_names (names front : List Name) :
    (Path.ofNames absolute names).startsWith (.ofNames absolute front) = front.isPrefixOf names := by
  rw [Path.startsWith, parts_names, parts_names]
  show (absolute == absolute && _) = _
  rw [beq_self_eq_true, Bool.true_and, Bool.eq_iff_iff, List.isPrefixOf_iff_prefix,
    List.isPrefixOf_iff_prefix]
  constructor
  · intro h
    obtain ⟨front', hprefix, hsame⟩ := List.prefix_map_iff.mp h
    have hfront := congrArg normalNames hsame
    rw [normalNames_map, normalNames_map] at hfront
    rw [hfront]
    exact hprefix
  · intro h
    exact h.map _

theorem manifestPart_ok {path path' : Path} {component : Component} {part : ManifestPath}
    (h : manifestPart path component = .ok part) : manifestPart path' component = .ok part := by
  cases component with
  | curDir => cases h
  | parentDir => cases h
  | normal name =>
    rw [manifestPart] at h ⊢
    split at h
    · cases h
    · split at h
      · rename_i hplain
        rw [dif_pos hplain]
        exact h
      · cases h

/-- The name that is recorded is the same below any base. -/
theorem normalizeRelative_moved {absolute' : Bool} {base' : List Name} {text : ManifestPath}
    (hparent : .parentDir ∉ components)
    (h : normalizeRelative (.ofNames absolute base)
      ((Path.ofNames absolute base).append components) = .ok text) :
    normalizeRelative (.ofNames absolute' base')
      ((Path.ofNames absolute' base').append components) = .ok text := by
  have hbelow (a : Bool) (b : List Name) : normalizeRelative (.ofNames a b)
      ((Path.ofNames a b).append components) = (((normalNames components).map .normal).mapM
        (manifestPart ((Path.ofNames a b).append components))).map joinParts := by
    have hpath := @lexicalNormalize_append a b components hparent
    have hnormal := lexicalNormalize_names a b
    have hrelative := @normalizeRelative_below (Path.ofNames a b) _ (normalNames components) (by
      rw [hpath, hnormal, Path.ofNames, List.map_append]
      rfl)
    rw [hnormal] at hrelative
    exact hrelative
  rw [hbelow] at h ⊢
  cases hparts : ((normalNames components).map .normal).mapM
      (manifestPart ((Path.ofNames absolute base).append components)) with
  | error e =>
    rw [hparts] at h
    cases h
  | ok parts =>
    rw [mapM_ok_mono (fun _ _ _ => manifestPart_ok) hparts, ← hparts]
    exact h

/-- The names lie below one of the declared paths, or are one of them. -/
def covered (declared : List Path) (names : List Name) : Bool :=
  declared.any fun d => (normalNames d.components).isPrefixOf names

/-- Where a link below a base leads to by its text. -/
theorem checkSymlinkContainment_below {target : Path} {targetText : String}
    (hparent : .parentDir ∉ components) (hnamed : normalNames components ≠ [])
    (hrelative : target.absolute = false)
    (hstays : Stays (normalNames components).dropLast target.components) :
    checkSymlinkContainment (.ofNames absolute base) ((Path.ofNames absolute base).append components)
      target targetText = .ok (.ofNames absolute
        (base ++ target.components.foldl pushComponent (normalNames components).dropLast)) := by
  have hnames : base ++ normalNames components ≠ [] := fun hnil =>
    hnamed (List.append_eq_nil_iff.mp hnil).2
  have hcontaining : ((Path.ofNames absolute base).append components).parent =
      some (.ofNames absolute (base ++ (normalNames components).dropLast)) := by
    rw [Path.parent, parts_append hparent, if_neg (by simpa using hnames), ← List.map_dropLast,
      List.dropLast_append_of_ne_nil hnamed]
    rfl
  have hresolved : lexicalNormalize (((((Path.ofNames absolute base).append components).parent).getD
      (.ofNames absolute base)).join target) = .ofNames absolute
        (base ++ target.components.foldl pushComponent (normalNames components).dropLast) := by
    rw [hcontaining, Option.getD_some, Path.join, hrelative, if_neg Bool.false_ne_true]
    show Path.ofNames absolute (lexicalNames ((base ++ (normalNames components).dropLast).map .normal ++
      target.components)) = _
    rw [lexicalNames_base, foldl_stays hstays]
  rw [checkSymlinkContainment, hrelative, if_neg Bool.false_ne_true, hresolved, startsWith_names]
  exact if_pos (List.isPrefixOf_iff_prefix.mpr (List.prefix_append _ _))

/-- A declared path that is joined to a base, and does not leave it by its text. -/
structure Plain (d : Path) : Prop where
  relative : d.absolute = false
  down : Component.parentDir ∉ d.components

theorem join_plain {d : Path} (h : Plain d) :
    (Path.ofNames absolute base).join d = (Path.ofNames absolute base).append d.components := by
  rw [Path.join, h.relative, if_neg Bool.false_ne_true]
  rfl

theorem covered_below {names : List Name} (hdeclared : ∀ d ∈ declared, Plain d) :
    (declared.any fun d =>
      let root := lexicalNormalize ((Path.ofNames absolute base).join d)
      decide (Path.ofNames absolute (base ++ names) = root) ||
        (Path.ofNames absolute (base ++ names)).startsWith root) = covered declared names := by
  have heach {d : Path} (hd : Plain d) :
      (decide (Path.ofNames absolute (base ++ names) =
          lexicalNormalize ((Path.ofNames absolute base).join d)) ||
        (Path.ofNames absolute (base ++ names)).startsWith
          (lexicalNormalize ((Path.ofNames absolute base).join d))) =
        (normalNames d.components).isPrefixOf names := by
    rw [join_plain hd, lexicalNormalize_append hd.down, startsWith_names, Bool.eq_iff_iff,
      Bool.or_eq_true, decide_eq_true_eq, List.isPrefixOf_iff_prefix, List.isPrefixOf_iff_prefix,
      List.prefix_append_right_inj]
    refine or_iff_right_of_imp ?_
    intro hsame
    have hnames := congrArg (normalNames ∘ Path.components) hsame
    simp only [Function.comp, Path.ofNames, normalNames_map] at hnames
    exact List.append_cancel_left hnames ▸ List.prefix_rfl
  rw [covered, Bool.eq_iff_iff, List.any_eq_true, List.any_eq_true]
  constructor
  · intro h
    obtain ⟨d, hd, h⟩ := h
    exact ⟨d, hd, (heach (hdeclared d hd)).symm.trans h⟩
  · intro h
    obtain ⟨d, hd, h⟩ := h
    exact ⟨d, hd, (heach (hdeclared d hd)).trans h⟩

end Texts

/-! ### Entries below a base -/

/-- Components that lead down from a base to this file or link, of which the target stays below. -/
structure Recordable (components : List Component) (leaf : Tree) : Prop where
  down : Component.parentDir ∉ components
  named : normalNames components ≠ []
  file : leaf.isDir = false
  stays : ∀ target, leaf = .link target → (Path.ofBytes target).absolute = false ∧
    Stays (normalNames components).dropLast (Path.ofBytes target).components

/-- A path leads to this entry, and is not followed where it is a link. -/
def Shows (fs : FileSystem) (path : Path) (leaf : Tree) : Prop :=
  ∀ followLast, (followLast = false ∨ ∀ target, leaf ≠ .link target) →
    entryAt fs followLast path = .ok leaf

section Entries
variable {c : Crates} {fs fs' : FileSystem} {absolute absolute' : Bool} {base base' : List Name}
  {components : List Component} {declared : List Path} {leaf : Tree} {line : EntryLine}
  {entries entries' : EntryMap}

theorem linkLine_below {target : Bytes} (hdeclared : ∀ d ∈ declared, Plain d)
    (h : Recordable components (.link target))
    (hshows : Shows fs ((Path.ofNames absolute base).append components) (.link target)) :
    linkLine c fs (.ofNames absolute base) ((Path.ofNames absolute base).append components) declared =
        .ok line ↔
      ∃ text, String.fromUTF8? ⟨target.toArray⟩ = some text ∧
        covered declared ((Path.ofBytes target).components.foldl pushComponent
          (normalNames components).dropLast) = true ∧ line = ⟨.link, c.blake3 (utf8 text)⟩ := by
  have hread : readLink fs ((Path.ofNames absolute base).append components) = .ok target := by
    rw [readLink, hshows false (Or.inl rfl)]
    rfl
  rw [linkLine, hread]
  dsimp only
  cases htext : String.fromUTF8? ⟨target.toArray⟩ with
  | none => simp
  | some text =>
    obtain ⟨hrelative, hstays⟩ := h.stays target rfl
    dsimp only
    rw [checkSymlinkContainment_below h.down h.named hrelative hstays, except_ok_bind,
      covered_below hdeclared]
    split
    · rename_i hcovered
      constructor
      · intro hline
        cases hline
        exact ⟨text, rfl, hcovered, rfl⟩
      · intro hline
        obtain ⟨_, hsome, -, hline⟩ := hline
        cases hsome
        rw [hline]
    · rename_i hcovered
      constructor
      · intro hline
        cases hline
      · intro hline
        obtain ⟨_, -, hin, -⟩ := hline
        exact absurd hin hcovered

theorem lineAt_moved (hdeclared : ∀ d ∈ declared, Plain d) (h : Recordable components leaf)
    (hshows : Shows fs ((Path.ofNames absolute base).append components) leaf)
    (hshows' : Shows fs' ((Path.ofNames absolute' base').append components) leaf)
    (hline : lineAt c fs (.ofNames absolute base) declared
      ((Path.ofNames absolute base).append components) = .ok line) :
    lineAt c fs' (.ofNames absolute' base') declared
      ((Path.ofNames absolute' base').append components) = .ok line := by
  rw [lineAt, symlinkMetadata, hshows false (Or.inl rfl)] at hline
  rw [lineAt, symlinkMetadata, hshows' false (Or.inl rfl)]
  cases leaf with
  | dir names child => cases h.file
  | link target =>
    exact (linkLine_below hdeclared h hshows').mpr ((linkLine_below hdeclared h hshows).mp hline)
  | file bytes =>
    have hplain : ∀ target, Tree.file bytes ≠ .link target := nofun
    dsimp only at hline ⊢
    rw [fileLine, readFile, hshows true (Or.inr hplain)] at hline
    rw [fileLine, readFile, hshows' true (Or.inr hplain)]
    exact hline

theorem addEntry_moved (hdeclared : ∀ d ∈ declared, Plain d) (h : Recordable components leaf)
    (hshows : Shows fs ((Path.ofNames absolute base).append components) leaf)
    (hshows' : Shows fs' ((Path.ofNames absolute' base').append components) leaf)
    (hadded : addEntry c fs (.ofNames absolute base) declared entries
      ((Path.ofNames absolute base).append components) = .ok entries') :
    addEntry c fs' (.ofNames absolute' base') declared entries
      ((Path.ofNames absolute' base').append components) = .ok entries' := by
  obtain ⟨text, line, htext, hline, hentries⟩ := addEntry_eq_ok.mp hadded
  exact addEntry_eq_ok.mpr ⟨text, line, normalizeRelative_moved h.down htext,
    lineAt_moved hdeclared h hshows hshows' hline, hentries⟩

end Entries

/-! ### Hashes of copies -/

section Moved
variable {c : Crates} {fs fs' : FileSystem} {workspace : Path} {root : List Name}
  {declared : List Path} {step run : String}

/-- What stands at a declared path, through the text of the workspace. -/
abbrev declaredAt (fs : FileSystem) (workspace d : Path) : Except IoError Tree :=
  symlinkMetadata fs ((lexicalNormalize workspace).join d)

/-- The links at and below a declared path are relative, and none leaves the workspace on its way by
the text of its target. -/
def LinksStay (fs : FileSystem) (workspace d : Path) : Prop :=
  ∀ entry names target, declaredAt fs workspace d = .ok entry →
    entry.descend names = some (.link target) → (Path.ofBytes target).absolute = false ∧
      Stays (normalNames d.components ++ names).dropLast (Path.ofBytes target).components

/-- The workspace and the directory of the copies show the same at the declared paths. -/
structure SameDeclared (fs fs' : FileSystem) (workspace : Path) (root : List Name)
    (declared : List Path) : Prop where
  plain : ∀ d ∈ declared, Plain d
  named : ∀ d ∈ declared, normalNames d.components ≠ []
  same : ∀ d ∈ declared, ∀ entry, declaredAt fs workspace d = .ok entry →
    symlinkMetadata fs' ((Path.ofNames true root).join d) = .ok entry
  links : ∀ d ∈ declared, LinksStay fs workspace d

theorem addDeclared_moved (h : SameDeclared fs fs' workspace root declared) {d : Path}
    (hd : d ∈ declared) {kind : ManifestKind} {entries entries' : EntryMap}
    (hadded : addDeclared c fs (lexicalNormalize workspace) step declared kind entries d =
      .ok entries') :
    addDeclared c fs' (.ofNames true root) step declared kind entries d = .ok entries' := by
  cases hentry : declaredAt fs workspace d with
  | error e =>
    have hmissing : symlinkMetadata fs ((lexicalNormalize workspace).join d) = .error e := hentry
    unfold addDeclared at hadded
    rw [hmissing] at hadded
    cases kind <;> cases hadded
  | ok entry =>
    have hentry' := h.same d hd entry hentry
    rw [addDeclared_eq hentry] at hadded
    rw [addDeclared_eq hentry']
    refine foldlM_ok_mono ?_ hadded
    intro names hnames entries entries' hadded
    obtain ⟨leaf, hleaf, hfile⟩ := Tree.descend_of_mem_leaves hnames
    have hplain := h.plain d hd
    have hall : normalNames (d.components ++ names.map .normal) = normalNames d.components ++ names := by
      rw [normalNames_append, normalNames_map]
    have hrecordable : Recordable (d.components ++ names.map .normal) leaf := by
      refine ⟨?_, ?_, hfile, ?_⟩
      · rw [List.mem_append, not_or]
        exact ⟨hplain.down, parentDir_notMem_names names⟩
      · rw [hall]
        exact List.append_ne_nil_of_left_ne_nil (h.named d hd) names
      · intro target htarget
        rw [hall]
        exact h.links d hd entry names target hentry (htarget ▸ hleaf)
    have hpath (a : Bool) (b : List Name) : ((Path.ofNames a b).join d).append (names.map .normal) =
        (Path.ofNames a b).append (d.components ++ names.map .normal) := by
      rw [join_plain hplain, Path.append_append]
    have hworkspace : lexicalNormalize workspace =
      .ofNames workspace.absolute (lexicalNames workspace.components) := rfl
    rw [hpath]
    rw [hworkspace, hpath] at hadded
    refine addEntry_moved h.plain hrecordable ?_ ?_ hadded
    · intro followLast hlink
      rw [← hpath]
      exact entryAt_below hentry hleaf hlink
    · intro followLast hlink
      rw [← hpath]
      exact entryAt_below hentry' hleaf hlink

/-- A copy has the hash of what it was made from. -/
theorem hashInputs_copied (h : SameDeclared fs fs' workspace root declared) {hash : String}
    (hhash : hashInputs c fs workspace step run declared = .ok hash) :
    hashInputs c fs' (.ofNames true root) step run declared = .ok hash := by
  obtain ⟨manifest, hmanifest, hhash⟩ := except_bind_eq_ok.mp hhash
  obtain ⟨entries, hentries, hmanifest⟩ := except_bind_eq_ok.mp hmanifest
  have hmoved : collectEntries c fs' (.ofNames true root) step declared .input = .ok entries := by
    rw [collectEntries, lexicalNormalize_names]
    exact foldlM_ok_mono (fun d hd _ _ hadded => addDeclared_moved h hd hadded) hentries
  refine except_bind_eq_ok.mpr ⟨manifest, ?_, hhash⟩
  exact except_bind_eq_ok.mpr ⟨entries, hmoved, hmanifest⟩

end Moved

end Attest.Hashing
