import Attest.Hashing.FileSystem
import Attest.Library.Fallible
import Mathlib.Data.List.Induction

/-! Resolving a path part by part.

Whatever links the first components of a path pass, they lead to one directory, and the
rest of the path is resolved from there with the links that are left (`resolveFrom_split`).
From a directory, one more name is what the directory holds under it, and `.` is the
directory itself. -/
namespace Attest.Hashing
open Library.Fallible
open Trust (Bytes)

section Split
variable {root : Tree} {followLast : Bool} {loc out : Location} {first rest : List Component}

/-- These components lead to this directory, from where so many links may still be passed. -/
def Leads (root : Tree) (links : Nat) (loc : Location) (components : List Component)
    (links' : Nat) (loc' : Location) : Prop :=
  (∃ names child, root.descend loc' = some (.dir names child)) ∧
    ∀ followLast rest, rest ≠ [] →
      resolveFrom root followLast links loc (components ++ rest) =
        resolveFrom root followLast links' loc' rest

theorem resolveFrom_cons {links : Nat} {component : Component} :
    resolveFrom root followLast links loc (component :: rest) =
      match root.descend loc with
      | some (.dir names child) =>
        match component with
        | .curDir => resolveFrom root followLast links loc rest
        | .parentDir => resolveFrom root followLast links loc.dropLast rest
        | .normal name =>
          match (Tree.dir names child).child? name with
          | none => .error .notFound
          | some (.link target) =>
            if rest = [] ∧ followLast = false then .ok (loc ++ [name])
            else
              match links with
              | 0 => .error .tooManyLinks
              | links + 1 =>
                resolveFrom root followLast links (if (Path.ofBytes target).absolute then [] else loc)
                  ((Path.ofBytes target).components ++ rest)
          | some _ => resolveFrom root followLast links (loc ++ [name]) rest
      | _ => .error .notADirectory := by
  cases links with
  | zero => rfl
  | succ links => rfl

theorem resolveFrom_nil {links : Nat} : resolveFrom root followLast links loc [] = .ok loc := by
  cases links <;> rfl

/-- A component that is passed, and what is resolved then, whatever comes after it. -/
theorem passes_of_resolves {links : Nat} {component : Component} (hrest : rest ≠ [])
    (h : resolveFrom root followLast links loc (component :: rest) = .ok out) :
    ∃ links' loc' before, (links' < links ∨ links' = links ∧ before = []) ∧
      (∃ names child, root.descend loc = some (.dir names child)) ∧
      ∀ followLast rest, rest ≠ [] →
        resolveFrom root followLast links loc (component :: rest) =
          resolveFrom root followLast links' loc' (before ++ rest) := by
  rw [resolveFrom_cons] at h
  split at h
  next names child hdir =>
    cases component with
    | curDir =>
      refine ⟨links, loc, [], .inr ⟨rfl, rfl⟩, ⟨names, child, hdir⟩, ?_⟩
      intro followLast rest hrest
      rw [resolveFrom_cons, hdir]
      rfl
    | parentDir =>
      refine ⟨links, loc.dropLast, [], .inr ⟨rfl, rfl⟩, ⟨names, child, hdir⟩, ?_⟩
      intro followLast rest hrest
      rw [resolveFrom_cons, hdir]
      rfl
    | normal name =>
      dsimp only at h
      split at h
      next => cases h
      next target hlink =>
        rw [if_neg fun hand => hrest hand.1] at h
        split at h
        next => cases h
        next links =>
          refine ⟨links, if (Path.ofBytes target).absolute then [] else loc,
            (Path.ofBytes target).components, .inl (Nat.lt_succ_self _), ⟨names, child, hdir⟩, ?_⟩
          intro followLast rest hrest
          rw [resolveFrom_cons, hdir]
          dsimp only
          rw [hlink]
          dsimp only
          rw [if_neg fun hand => hrest hand.1]
      next entry hnolink hentry =>
        refine ⟨links, loc ++ [name], [], .inr ⟨rfl, rfl⟩, ⟨names, child, hdir⟩, ?_⟩
        intro followLast rest hrest
        rw [resolveFrom_cons, hdir]
        dsimp only
        rw [hentry]
        cases entry with
        | link target => exact absurd rfl (hnolink target)
        | file bytes => rfl
        | dir names child => rfl
  next => cases h

/-- A path that leads somewhere splits at any component before its last. -/
theorem resolveFrom_split (links : Nat) (loc : Location) (first rest : List Component)
    (hrest : rest ≠ []) (h : resolveFrom root followLast links loc (first ++ rest) = .ok out) :
    ∃ links' loc', Leads root links loc first links' loc' := by
  induction links using Nat.strong_induction_on generalizing loc first with
  | _ links ihLinks =>
    induction first generalizing loc with
    | nil =>
      obtain ⟨component, rest, rfl⟩ := List.exists_cons_of_ne_nil hrest
      refine ⟨links, loc, ?_, fun _ _ _ => rfl⟩
      rw [List.nil_append, resolveFrom_cons] at h
      split at h
      next names child hdir => exact ⟨names, child, hdir⟩
      next => cases h
    | cons component first ih =>
      have hne : ∀ rest : List Component, rest ≠ [] → first ++ rest ≠ [] :=
        fun rest hrest => List.append_ne_nil_of_right_ne_nil first hrest
      obtain ⟨links', loc', before, hless, _, hpasses⟩ := passes_of_resolves (hne rest hrest) h
      have hnext := (hpasses followLast (first ++ rest) (hne rest hrest)).symm.trans h
      have hsplit : ∃ links'' loc'', Leads root links' loc' (before ++ first) links'' loc'' := by
        rcases hless with hless | ⟨rfl, rfl⟩
        · exact ihLinks links' hless loc' (before ++ first) (by rw [List.append_assoc]; exact hnext)
        · exact ih loc' hnext
      obtain ⟨links'', loc'', hdir, hleads⟩ := hsplit
      refine ⟨links'', loc'', hdir, ?_⟩
      intro followLast rest hrest
      rw [List.cons_append, hpasses followLast (first ++ rest) (hne rest hrest), ← List.append_assoc]
      exact hleads followLast rest hrest

end Split

/-! ### One more component -/

section Steps
variable {root : Tree} {start loc : Location} {links links' : Nat} {components : List Component}
  {names : List Name} {child : Name → Tree} {name : Name} {followLast : Bool}

theorem leads_nil (hdir : root.descend start = some (.dir names child)) :
    Leads root links start [] links start :=
  ⟨⟨names, child, hdir⟩, fun _ _ _ => rfl⟩

theorem Leads.curDir (h : Leads root links start components links' loc) :
    Leads root links start (components ++ [.curDir]) links' loc := by
  obtain ⟨⟨names, child, hdir⟩, hleads⟩ := h
  refine ⟨⟨names, child, hdir⟩, ?_⟩
  intro followLast rest hrest
  rw [List.append_assoc, List.singleton_append, hleads followLast _ (List.cons_ne_nil _ _),
    resolveFrom_cons, hdir]

theorem Leads.parentDir (h : Leads root links start components links' loc) {above : Location}
    (habove : loc.dropLast = above) (hdir : ∃ names child, root.descend above = some (.dir names child)) :
    Leads root links start (components ++ [.parentDir]) links' above := by
  obtain ⟨⟨names, child, hloc⟩, hleads⟩ := h
  refine ⟨hdir, ?_⟩
  intro followLast rest hrest
  rw [List.append_assoc, List.singleton_append, hleads followLast _ (List.cons_ne_nil _ _),
    resolveFrom_cons, hloc]
  dsimp only
  rw [habove]

theorem child?_dir : (Tree.dir names child).child? name =
    if name ∈ names then some (child name) else none := rfl

/-- A directory in a directory. -/
theorem Leads.below (h : Leads root links start components links' loc)
    (hdir : root.descend loc = some (.dir names child)) (hmem : name ∈ names)
    {inner : List Name} {entries : Name → Tree} (hchild : child name = .dir inner entries) :
    Leads root links start (components ++ [.normal name]) links' (loc ++ [name]) := by
  refine ⟨⟨inner, entries, ?_⟩, ?_⟩
  · rw [Tree.descend_snoc, hdir]
    show (Tree.dir names child).child? name = _
    rw [child?_dir, if_pos hmem, hchild]
  · intro followLast rest hrest
    rw [List.append_assoc, List.singleton_append, h.2 followLast _ (List.cons_ne_nil _ _),
      resolveFrom_cons, hdir]
    dsimp only
    rw [child?_dir, if_pos hmem, hchild]

end Steps

section Files
variable {fs : FileSystem} {base : Path} {loc : Location} {links : Nat} {name : Name}
  {names : List Name} {child : Name → Tree} {followLast : Bool}

/-- A path with these components after its own. -/
def Path.append (base : Path) (components : List Component) : Path :=
  ⟨base.absolute, base.components ++ components⟩

theorem Path.append_append (base : Path) (a b : List Component) :
    (base.append a).append b = base.append (a ++ b) := by
  simp only [Path.append, List.append_assoc]

theorem Path.append_nil (base : Path) : base.append [] = base := by
  simp only [Path.append, List.append_nil]

def startOf (fs : FileSystem) (path : Path) : Location := if path.absolute then [] else fs.cwd

/-- The path leads to this directory. -/
def LeadsTo (fs : FileSystem) (path : Path) (links : Nat) (loc : Location) : Prop :=
  Leads fs.root maxLinks (startOf fs path) path.components links loc

theorem leadsTo_of_entryAt {components : List Component} {entry : Tree} (hne : components ≠ [])
    (h : entryAt fs followLast (base.append components) = .ok entry) :
    ∃ links loc, LeadsTo fs base links loc := by
  unfold entryAt resolve at h
  cases hresolve : resolveFrom fs.root followLast maxLinks
      (if (base.append components).absolute then [] else fs.cwd) (base.append components).components with
  | error e =>
    rw [hresolve] at h
    cases h
  | ok out => exact resolveFrom_split maxLinks _ base.components components hne hresolve

theorem resolve_of_leadsTo {components : List Component} (h : LeadsTo fs base links loc)
    (hne : components ≠ []) : resolve fs followLast (base.append components) =
      resolveFrom fs.root followLast links loc components :=
  h.2 followLast components hne

theorem entryAt_of_resolve {path : Path} {entry : Tree} (hresolve : resolve fs followLast path = .ok loc)
    (hentry : fs.root.descend loc = some entry) : entryAt fs followLast path = .ok entry := by
  unfold entryAt
  rw [hresolve, except_ok_bind, hentry]

theorem entryAt_eq_ok {path : Path} {entry : Tree} : entryAt fs followLast path = .ok entry ↔
    ∃ loc, resolve fs followLast path = .ok loc ∧ fs.root.descend loc = some entry := by
  constructor
  · intro h
    unfold entryAt at h
    obtain ⟨loc, hresolve, h⟩ := except_bind_eq_ok.mp h
    split at h
    next found hfound =>
      cases h
      exact ⟨loc, hresolve, hfound⟩
    next => cases h
  · intro ⟨loc, hresolve, hentry⟩
    exact entryAt_of_resolve hresolve hentry

theorem entryAt_name (h : LeadsTo fs base links loc)
    (hdir : fs.root.descend loc = some (.dir names child)) (hmem : name ∈ names)
    (hlink : followLast = false ∨ ∀ target, child name ≠ .link target) :
    entryAt fs followLast (base.append [.normal name]) = .ok (child name) := by
  have hdescend : fs.root.descend (loc ++ [name]) = some (child name) := by
    rw [Tree.descend_snoc, hdir]
    show (Tree.dir names child).child? name = _
    rw [child?_dir, if_pos hmem]
  have hresolve : resolve fs followLast (base.append [.normal name]) = .ok (loc ++ [name]) := by
    rw [resolve_of_leadsTo h (List.cons_ne_nil _ _), resolveFrom_cons, hdir]
    dsimp only
    rw [child?_dir, if_pos hmem]
    cases hchild : child name with
    | link target =>
      have hfollow := hlink.resolve_right fun hno => hno target hchild
      exact if_pos ⟨rfl, hfollow⟩
    | file bytes => cases links <;> rfl
    | dir below entries => cases links <;> rfl
  exact entryAt_of_resolve hresolve hdescend

theorem symlinkMetadata_name_of_notMem (h : LeadsTo fs base links loc)
    (hdir : fs.root.descend loc = some (.dir names child)) (hmem : name ∉ names) :
    symlinkMetadata fs (base.append [.normal name]) = .error .notFound := by
  unfold symlinkMetadata entryAt
  rw [resolve_of_leadsTo h (List.cons_ne_nil _ _), resolveFrom_cons, hdir]
  dsimp only
  rw [child?_dir, if_neg hmem]
  rfl

theorem symlinkMetadata_curDir (h : LeadsTo fs base links loc)
    (hdir : fs.root.descend loc = some (.dir names child)) :
    symlinkMetadata fs (base.append [.curDir]) = .ok (.dir names child) := by
  apply entryAt_of_resolve _ hdir
  rw [resolve_of_leadsTo h (List.cons_ne_nil _ _), resolveFrom_cons, hdir]
  cases links <;> rfl

theorem symlinkMetadata_parentDir (h : LeadsTo fs base links loc)
    (hdir : fs.root.descend loc.dropLast = some (.dir names child)) :
    symlinkMetadata fs (base.append [.parentDir]) = .ok (.dir names child) := by
  obtain ⟨inner, entries, hloc⟩ := h.1
  apply entryAt_of_resolve _ hdir
  rw [resolve_of_leadsTo h (List.cons_ne_nil _ _), resolveFrom_cons, hloc]
  cases links <;> rfl

/-- What stands under a name, by the directory that holds it. -/
theorem of_symlinkMetadata_name {entry : Tree} (h : LeadsTo fs base links loc)
    (hentry : symlinkMetadata fs (base.append [.normal name]) = .ok entry) :
    ∃ names child, fs.root.descend loc = some (.dir names child) ∧ name ∈ names ∧
      child name = entry := by
  obtain ⟨names, child, hdir⟩ := h.1
  refine ⟨names, child, hdir, ?_⟩
  by_cases hmem : name ∈ names
  · refine ⟨hmem, ?_⟩
    have hfound := entryAt_name h hdir hmem (.inl rfl)
    exact Except.ok.inj (hfound.symm.trans hentry)
  · rw [symlinkMetadata_name_of_notMem h hdir hmem] at hentry
    cases hentry

theorem LeadsTo.below (h : LeadsTo fs base links loc)
    (hdir : fs.root.descend loc = some (.dir names child)) (hmem : name ∈ names)
    {inner : List Name} {entries : Name → Tree} (hchild : child name = .dir inner entries) :
    LeadsTo fs (base.append [.normal name]) links (loc ++ [name]) :=
  Leads.below h hdir hmem hchild

theorem LeadsTo.parentDir (h : LeadsTo fs base links loc) {above : Location}
    (habove : loc.dropLast = above)
    (hdir : ∃ names child, fs.root.descend above = some (.dir names child)) :
    LeadsTo fs (base.append [.parentDir]) links above :=
  Leads.parentDir h habove hdir

theorem LeadsTo.curDir (h : LeadsTo fs base links loc) :
    LeadsTo fs (base.append [.curDir]) links loc :=
  Leads.curDir h

/-! ### The last component -/

/-- The directory a path that leads somewhere is resolved in at last. -/
theorem leadsTo_init {path : Path} (h : resolve fs followLast path = .ok loc) :
    path.components = [] ∨
      ∃ base component links start, path = base.append [component] ∧ LeadsTo fs base links start ∧
        resolveFrom fs.root followLast links start [component] = .ok loc := by
  obtain ⟨absolute, components⟩ := path
  cases components using List.reverseRecOn with
  | nil => exact .inl rfl
  | append_singleton first component =>
    obtain ⟨links, start, hleads⟩ :=
      resolveFrom_split maxLinks _ first [component] (List.cons_ne_nil _ _) h
    refine .inr ⟨⟨absolute, first⟩, component, links, start, rfl, hleads, ?_⟩
    exact (hleads.2 followLast [component] (List.cons_ne_nil _ _)).symm.trans h

/-- A path that is a directory leads to it. -/
theorem leadsTo_of_resolve {path : Path} (h : resolve fs false path = .ok loc)
    (hdir : fs.root.descend loc = some (.dir names child)) : ∃ links, LeadsTo fs path links loc := by
  rcases leadsTo_init h with hnil | ⟨base, component, links, start, rfl, hbase, hlast⟩
  · unfold resolve at h
    rw [hnil, resolveFrom_nil] at h
    cases h
    refine ⟨maxLinks, ⟨names, child, hdir⟩, ?_⟩
    intro followLast rest _
    rw [hnil, List.nil_append]
    rfl
  · obtain ⟨inner, entries, hstart⟩ := hbase.1
    rw [resolveFrom_cons, hstart] at hlast
    cases component with
    | curDir =>
      cases resolveFrom_nil.symm.trans hlast
      exact ⟨links, hbase.curDir⟩
    | parentDir =>
      cases resolveFrom_nil.symm.trans hlast
      exact ⟨links, hbase.parentDir rfl ⟨names, child, hdir⟩⟩
    | normal name =>
      by_cases hmem : name ∈ inner
      · have hthere : fs.root.descend (start ++ [name]) = some (entries name) := by
          rw [Tree.descend_snoc, hstart]
          show (Tree.dir inner entries).child? name = _
          rw [child?_dir, if_pos hmem]
        dsimp only at hlast
        rw [child?_dir, if_pos hmem] at hlast
        have hloc : start ++ [name] = loc := by
          cases hentry : entries name with
          | link target =>
            rw [hentry] at hlast
            exact Except.ok.inj ((if_pos ⟨rfl, rfl⟩).symm.trans hlast)
          | file bytes =>
            rw [hentry] at hlast
            exact Except.ok.inj (resolveFrom_nil.symm.trans hlast)
          | dir below further =>
            rw [hentry] at hlast
            exact Except.ok.inj (resolveFrom_nil.symm.trans hlast)
        rw [← hloc, hthere] at hdir
        rw [← hloc]
        exact ⟨links, hbase.below hstart hmem (Option.some.inj hdir)⟩
      · dsimp only at hlast
        rw [child?_dir, if_neg hmem] at hlast
        cases hlast

/-- What is no link is the same whether a link would be followed or not. -/
theorem resolve_of_not_link {path : Path} {entry : Tree} (h : resolve fs false path = .ok loc)
    (hentry : fs.root.descend loc = some entry) (hlink : ∀ target, entry ≠ .link target) :
    resolve fs followLast path = .ok loc := by
  rcases leadsTo_init h with hnil | ⟨base, component, links, start, rfl, hbase, hlast⟩
  · unfold resolve at h ⊢
    rw [hnil, resolveFrom_nil] at h ⊢
    exact h
  · rw [resolve_of_leadsTo hbase (List.cons_ne_nil _ _)]
    obtain ⟨inner, entries, hstart⟩ := hbase.1
    rw [resolveFrom_cons, hstart] at hlast ⊢
    cases component with
    | curDir => exact resolveFrom_nil.trans (resolveFrom_nil.symm.trans hlast)
    | parentDir => exact resolveFrom_nil.trans (resolveFrom_nil.symm.trans hlast)
    | normal name =>
      dsimp only at hlast ⊢
      split at hlast
      next => cases hlast
      next target hchild =>
        -- The link itself would be the entry.
        have hloc := Except.ok.inj ((if_pos ⟨rfl, rfl⟩).symm.trans hlast)
        rw [← hloc, Tree.descend_snoc, hstart] at hentry
        exact absurd (Option.some.inj (hentry.symm.trans hchild)) (hlink target)
      next found hnolink hchild => exact resolveFrom_nil.trans (resolveFrom_nil.symm.trans hlast)

/-- The directory a path leads to is the one its `.` is. -/
theorem resolve_curDir {path : Path} : resolve fs followLast (path.append [.curDir]) = .ok loc ↔
    ∃ links, LeadsTo fs path links loc := by
  have hcurDir : ∀ {links start}, LeadsTo fs path links start →
      resolve fs followLast (path.append [.curDir]) = .ok start := by
    intro links start hleads
    obtain ⟨names, child, hdir⟩ := hleads.1
    rw [resolve_of_leadsTo hleads (List.cons_ne_nil _ _), resolveFrom_cons, hdir]
    exact resolveFrom_nil
  constructor
  · intro h
    obtain ⟨links, start, hleads⟩ :=
      resolveFrom_split maxLinks _ path.components [.curDir] (List.cons_ne_nil _ _) h
    cases (hcurDir hleads).symm.trans h
    exact ⟨links, hleads⟩
  · intro ⟨links, hleads⟩
    exact hcurDir hleads

end Files

end Attest.Hashing
