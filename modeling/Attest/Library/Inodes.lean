import Mathlib.Data.List.Basic
import Mathlib.Logic.Function.Basic

/-! Files by their inodes, and what a user may do with them.

A tree says where an inode stands; its mode is kept apart, so that one inode can stand in
several places. A path is followed name by name, and each directory on the way has to be one
that the user may enter. Only the rights to read and to enter decide where a path leads, so
taking or giving rights to write changes no path (`looksAlike_setMode`). -/
namespace Attest.Library.Inodes

/-! ### Paths -/

inductive Component (ν : Type)
  | curDir
  | parentDir
  | normal (name : ν)

structure Path (ν : Type) where
  absolute : Bool
  components : List (Component ν)

namespace Path
variable {ν : Type}

def join (base path : Path ν) : Path ν :=
  if path.absolute then path else ⟨base.absolute, base.components ++ path.components⟩

def push (path : Path ν) (name : ν) : Path ν := ⟨path.absolute, path.components ++ [.normal name]⟩

end Path

/-! ### Trees -/

inductive Entry (ν ι : Type)
  | file (ino : ι)
  /-- A pipe, a socket or a device; not all of them can be opened. -/
  | special (ino : ι) (opens : Bool)
  | link (ino : ι) (target : Path ν)
  | dir (ino : ι) (names : List ν) (child : ν → Entry ν ι)

namespace Entry
variable {ν ι : Type}

def ino : Entry ν ι → ι
  | file ino => ino
  | special ino _ => ino
  | link ino _ => ino
  | dir ino _ _ => ino

def isLink : Entry ν ι → Bool
  | link _ _ => true
  | _ => false

variable [DecidableEq ν]

def child? : Entry ν ι → ν → Option (Entry ν ι)
  | dir _ names child, name => if name ∈ names then some (child name) else none
  | _, _ => none

def descend (entry : Entry ν ι) : List ν → Option (Entry ν ι)
  | [] => some entry
  | name :: rest => (entry.child? name).bind fun sub => sub.descend rest

theorem descend_append (entry : Entry ν ι) (a b : List ν) :
    entry.descend (a ++ b) = (entry.descend a).bind fun sub => sub.descend b := by
  induction a generalizing entry with
  | nil => rfl
  | cons name rest ih =>
    rw [List.cons_append, descend, descend]
    cases entry.child? name with
    | none => rfl
    | some sub => exact ih sub

theorem descend_snoc (entry : Entry ν ι) (loc : List ν) (name : ν) :
    entry.descend (loc ++ [name]) = (entry.descend loc).bind fun sub => sub.child? name := by
  rw [descend_append]
  congr 1
  funext sub
  show (sub.child? name).bind some = _
  cases sub.child? name <;> rfl

/-- What has something below it is a directory. -/
theorem dir_of_descend {entry sub : Entry ν ι} {name : ν} {rest : List ν}
    (h : entry.descend (name :: rest) = some sub) : ∃ ino names child,
    entry = .dir ino names child ∧ name ∈ names ∧ (child name).descend rest = some sub := by
  obtain ⟨below, hchild, hrest⟩ := Option.bind_eq_some_iff.mp h
  cases entry with
  | dir ino names child =>
    rw [child?] at hchild
    split at hchild
    next hmem =>
      obtain rfl := Option.some.inj hchild
      exact ⟨ino, names, child, rfl, hmem, hrest⟩
    next => cases hchild
  | file ino => cases hchild
  | special ino opens => cases hchild
  | link ino target => cases hchild

end Entry

/-! ### Rights -/

/-- The permission bits, with set-user-ID, set-group-ID and the sticky bit above them. -/
abbrev Mode := BitVec 12

def writeBits : Mode := 0o222

def setGroupId : Mode := 0o2000

/-- What an inode has, as one user sees it. -/
structure Attributes where
  mode : Mode
  /-- The inode is the user's. -/
  owned : Bool
  /-- The user is in the group of the inode. -/
  inGroup : Bool

namespace Attributes

/-- One of the three bits of the class that the user is in. -/
def permits (a : Attributes) (bit : Fin 3) : Bool :=
  a.mode.getLsbD (if a.owned then bit + 6 else if a.inGroup then bit + 3 else bit)

def mayRead (a : Attributes) : Bool := a.permits 2

def mayEnter (a : Attributes) : Bool := a.permits 0

/-- The mode that `chmod` leaves: set-group-ID is dropped where the user is not in the group. -/
def settle (a : Attributes) (mode : Mode) : Mode :=
  if a.inGroup then mode else mode &&& ~~~setGroupId

end Attributes

/-- What a user who is not the superuser sees of the files. -/
structure Disk (ν ι : Type) where
  root : Entry ν ι
  cwd : List ν
  attributes : ι → Attributes

/-! ### Resolution -/

/-- How many links a path may pass. -/
def maxLinks : Nat := 40

section Resolution
variable {ν ι : Type} [DecidableEq ν]

/-- The components from a location on, up to the next link that is followed: `onLink` goes on
from there. A last component that is a link is not followed. -/
def advance (root : Entry ν ι) (enters : ι → Bool)
    (onLink : List ν → List (Component ν) → Option (List ν)) :
    List ν → List (Component ν) → Option (List ν)
  | loc, [] => some loc
  | loc, component :: rest =>
    match root.descend loc with
    | some (.dir ino names child) =>
      if enters ino then
        match component with
        | .curDir => advance root enters onLink loc rest
        | .parentDir => advance root enters onLink loc.dropLast rest
        | .normal name =>
          match (Entry.dir ino names child).child? name with
          | none => none
          | some (.link _ target) =>
            if rest.isEmpty then some (loc ++ [name])
            else onLink (if target.absolute then [] else loc) (target.components ++ rest)
          | some _ => advance root enters onLink (loc ++ [name]) rest
      else none
    | _ => none

/-- A resolution that may pass so many links. -/
def resolveFrom (root : Entry ν ι) (enters : ι → Bool) :
    Nat → List ν → List (Component ν) → Option (List ν)
  | 0 => advance root enters fun _ _ => none
  | links + 1 => advance root enters (resolveFrom root enters links)

namespace Disk
variable (disk : Disk ν ι)

def mayEnter (ino : ι) : Bool := (disk.attributes ino).mayEnter

def mayRead (ino : ι) : Bool := (disk.attributes ino).mayRead

/-- Where a path leads, a last link not followed. -/
def resolve (path : Path ν) : Option (List ν) :=
  resolveFrom disk.root disk.mayEnter maxLinks (if path.absolute then [] else disk.cwd) path.components

/-- `lstat`. -/
def metadata (path : Path ν) : Option (Entry ν ι) := (disk.resolve path).bind disk.root.descend

/-- `open` for reading, with `O_NOFOLLOW` and `O_NONBLOCK`. -/
def openFile (path : Path ν) : Option ι :=
  match disk.metadata path with
  | some (.file ino) => if disk.mayRead ino then some ino else none
  | some (.dir ino _ _) => if disk.mayRead ino then some ino else none
  | some (.special ino opens) => if opens && disk.mayRead ino then some ino else none
  | _ => none

/-- An inode with another mode. -/
def setMode [DecidableEq ι] (ino : ι) (mode : Mode) : Disk ν ι :=
  { disk with
    attributes := Function.update disk.attributes ino { disk.attributes ino with mode := mode } }

/-- `fchmod`. -/
def chmod [DecidableEq ι] (ino : ι) (mode : Mode) : Option (Disk ν ι) :=
  if (disk.attributes ino).owned then
    some (disk.setMode ino ((disk.attributes ino).settle mode))
  else none

end Disk

/-- What a walk finds, links left out: a directory before what it holds, and nothing in one that
cannot be listed. A directory is listed by its path, so `reached` says whether the directories
above may be entered. -/
def walk (reads enters : ι → Bool) (reached : Bool) (path : Path ν) : Entry ν ι → List (Path ν)
  | .dir ino names child =>
    path :: if reached && reads ino then
      names.flatMap fun name => walk reads enters (enters ino) (path.push name) (child name)
    else []
  | .link _ _ => []
  | _ => [path]

end Resolution

/-! ### Below a directory -/

section Below
variable {ν ι : Type} [DecidableEq ν] {root : Entry ν ι} {enters : ι → Bool} {loc l l' : List ν}
  {ino : ι} {names : List ν} {child : ν → Entry ν ι} {name : ν}

theorem resolveFrom_nil {links : Nat} : resolveFrom root enters links loc [] = some loc := by
  cases links <;> rfl

/-- One component further down from a directory. -/
theorem advance_name {onLink : List ν → List (Component ν) → Option (List ν)}
    (hdir : root.descend loc = some (.dir ino names child))
    (h : advance root enters onLink loc [.normal name] = some l) :
    enters ino = true ∧ name ∈ names ∧ l = loc ++ [name] := by
  rw [advance, hdir] at h
  dsimp only at h
  split at h
  next henters =>
    split at h
    next => cases h
    next hchild =>
      obtain ⟨hmem, _⟩ := Option.ite_none_right_eq_some.mp hchild
      exact ⟨henters, hmem, (Option.some.inj h).symm⟩
    next hchild =>
      obtain ⟨hmem, _⟩ := Option.ite_none_right_eq_some.mp hchild
      rw [advance] at h
      exact ⟨henters, hmem, (Option.some.inj h).symm⟩
  next => cases h

theorem advance_push {onLink : List ν → List (Component ν) → Option (List ν)}
    {components : List (Component ν)}
    (hlink : ∀ loc components l', onLink loc components = some l →
      onLink loc (components ++ [.normal name]) = some l' →
        enters ino = true ∧ name ∈ names ∧ l' = l ++ [name])
    (hdir : root.descend l = some (.dir ino names child))
    (h : advance root enters onLink loc components = some l)
    (hpush : advance root enters onLink loc (components ++ [.normal name]) = some l') :
    enters ino = true ∧ name ∈ names ∧ l' = l ++ [name] := by
  induction components generalizing loc with
  | nil =>
    obtain rfl := Option.some.inj h
    exact advance_name hdir hpush
  | cons component rest ih =>
    rw [List.cons_append] at hpush
    rw [advance] at h hpush
    split at h
    next ino' names' child' hhere =>
      rw [hhere] at hpush
      dsimp only at hpush
      split at h
      next henters =>
        rw [if_pos henters] at hpush
        cases component with
        | curDir => exact ih h hpush
        | parentDir => exact ih h hpush
        | normal next =>
          dsimp only at h hpush
          cases hchild : (Entry.dir ino' names' child').child? next with
          | none =>
            rw [hchild] at h
            cases h
          | some below =>
            rw [hchild] at h hpush
            cases below with
            | file ino => exact ih h hpush
            | special ino opens => exact ih h hpush
            | dir ino names child => exact ih h hpush
            | link linkIno target =>
              dsimp only at h hpush
              rw [if_neg (by simp)] at hpush
              split at h
              next =>
                -- a link that ends the path is no directory
                obtain rfl := Option.some.inj h
                rw [Entry.descend_snoc, hhere, Option.bind_some, hchild] at hdir
                cases hdir
              next =>
                rw [← List.append_assoc] at hpush
                exact hlink _ _ _ h hpush
      next => cases h
    next => cases h

/-- What leads to a directory leads, with one name more, to what stands there by that name. -/
theorem resolveFrom_push {links : Nat} {components : List (Component ν)}
    (hdir : root.descend l = some (.dir ino names child))
    (h : resolveFrom root enters links loc components = some l)
    (hpush : resolveFrom root enters links loc (components ++ [.normal name]) = some l') :
    enters ino = true ∧ name ∈ names ∧ l' = l ++ [name] := by
  induction links generalizing loc components l' with
  | zero =>
    refine advance_push ?_ hdir h hpush
    intro _ _ _ hnone _
    cases hnone
  | succ links ih =>
    refine advance_push ?_ hdir h hpush
    intro loc components l' h hpush
    exact ih h hpush

namespace Disk
variable {disk disk' : Disk ν ι} {path : Path ν}

theorem resolve_push (hdir : disk.root.descend l = some (.dir ino names child))
    (h : disk.resolve path = some l) (hpush : disk.resolve (path.push name) = some l') :
    disk.mayEnter ino = true ∧ name ∈ names ∧ l' = l ++ [name] :=
  resolveFrom_push hdir h hpush

theorem metadata_of_resolve (h : disk.resolve path = some l) :
    disk.metadata path = disk.root.descend l := by
  rw [metadata, h, Option.bind_some]

theorem resolve_of_metadata {entry : Entry ν ι} (h : disk.metadata path = some entry) :
    ∃ l, disk.resolve path = some l ∧ disk.root.descend l = some entry :=
  Option.bind_eq_some_iff.mp h

end Disk

/-- The user may list every directory above the end of these names. -/
def Listed (reads : ι → Bool) : Entry ν ι → List ν → Prop
  | _, [] => True
  | .dir ino _ child, name :: rest => reads ino = true ∧ Listed reads (child name) rest
  | _, _ :: _ => True

omit [DecidableEq ν] in
theorem head_mem_walk {reads enters : ι → Bool} {reached : Bool} {path : Path ν} {entry : Entry ν ι}
    (h : entry.isLink = false) : path ∈ walk reads enters reached path entry := by
  cases entry with
  | file ino => exact List.mem_singleton_self _
  | special ino opens => exact List.mem_singleton_self _
  | link ino target => cases h
  | dir ino names child => exact List.mem_cons_self

/-- **A walk that could look at all it found has found everything** that stands below it in
directories that can be listed. -/
theorem mem_walk {disk : Disk ν ι} {path : Path ν} {entry sub : Entry ν ι} {below : List ν}
    (hpath : disk.resolve path = some l) (hentry : disk.root.descend l = some entry)
    (hseen : ∀ found ∈ walk disk.mayRead disk.mayEnter true path entry, disk.metadata found ≠ none)
    (hsub : entry.descend below = some sub) (hlink : sub.isLink = false)
    (hlisted : Listed disk.mayRead entry below) :
    ⟨path.absolute, path.components ++ below.map .normal⟩ ∈
        walk disk.mayRead disk.mayEnter true path entry ∧
      disk.resolve ⟨path.absolute, path.components ++ below.map .normal⟩ = some (l ++ below) := by
  induction below generalizing path entry l with
  | nil =>
    obtain rfl := Option.some.inj hsub
    rw [List.map_nil, List.append_nil, List.append_nil]
    exact ⟨head_mem_walk hlink, hpath⟩
  | cons name rest ih =>
    obtain ⟨ino, names, child, rfl, hmem, hrest⟩ := Entry.dir_of_descend hsub
    obtain ⟨hreads, hlisted⟩ := hlisted
    have hwithin : ∀ found ∈ walk disk.mayRead disk.mayEnter (disk.mayEnter ino) (path.push name)
        (child name), found ∈ walk disk.mayRead disk.mayEnter true path (.dir ino names child) := by
      intro found hfound
      rw [walk, Bool.true_and, if_pos hreads]
      exact List.mem_cons_of_mem _ (List.mem_flatMap.mpr ⟨name, hmem, hfound⟩)
    have hchild : (child name).isLink = false := by
      cases rest with
      | nil =>
        obtain rfl := Option.some.inj hrest
        exact hlink
      | cons next further =>
        obtain ⟨_, _, _, hdir, _⟩ := Entry.dir_of_descend hrest
        rw [hdir]
        rfl
    -- the child was looked at by its path, so the directory may be entered
    have hlooked := hseen _ (hwithin _ (head_mem_walk hchild))
    obtain ⟨below, hbelow⟩ := Option.ne_none_iff_exists'.mp hlooked
    obtain ⟨l', hpush, _⟩ := Disk.resolve_of_metadata hbelow
    obtain ⟨henters, _, rfl⟩ := Disk.resolve_push hentry hpath hpush
    rw [henters] at hwithin
    have hthere : disk.root.descend (l ++ [name]) = some (child name) := by
      rw [Entry.descend_snoc, hentry, Option.bind_some, Entry.child?, if_pos hmem]
    obtain ⟨hfound, hresolve⟩ := ih hpush hthere (fun found hfound => hseen found (hwithin found hfound))
      hrest hlisted
    have hsame : (path.push name).components ++ rest.map .normal =
        path.components ++ (name :: rest).map .normal := by
      rw [Path.push, List.append_assoc, List.map_cons, List.singleton_append]
    rw [hsame] at hfound hresolve
    refine ⟨hwithin _ hfound, ?_⟩
    rw [List.append_assoc] at hresolve
    exact hresolve

end Below

/-! ### Rights to write -/

section Write
variable {ν ι : Type}

/-- The bits that decide what may be read and entered. -/
def lookBits : Mode := 0o555

/-- Two modes with the same rights to read and to enter. -/
def SameLook (a b : Mode) : Prop := a &&& lookBits = b &&& lookBits

theorem SameLook.permits {a b : Attributes} {bit : Fin 3} (h : SameLook a.mode b.mode)
    (howned : a.owned = b.owned) (hgroup : a.inGroup = b.inGroup)
    (hbits : ∀ n ∈ [bit.val, bit.val + 3, bit.val + 6], lookBits.getLsbD n = true) :
    a.permits bit = b.permits bit := by
  have hsame : ∀ n ∈ [bit.val, bit.val + 3, bit.val + 6], a.mode.getLsbD n = b.mode.getLsbD n := by
    intro n hn
    have hbit : (a.mode &&& lookBits).getLsbD n = (b.mode &&& lookBits).getLsbD n := by rw [h]
    rwa [BitVec.getLsbD_and, BitVec.getLsbD_and, hbits n hn, Bool.and_true, Bool.and_true] at hbit
  unfold Attributes.permits
  rw [howned, hgroup]
  apply hsame
  split
  next => simp
  next => split <;> simp

theorem SameLook.mayRead {a b : Attributes} (h : SameLook a.mode b.mode) (howned : a.owned = b.owned)
    (hgroup : a.inGroup = b.inGroup) : a.mayRead = b.mayRead :=
  h.permits howned hgroup (by decide)

theorem SameLook.mayEnter {a b : Attributes} (h : SameLook a.mode b.mode) (howned : a.owned = b.owned)
    (hgroup : a.inGroup = b.inGroup) : a.mayEnter = b.mayEnter :=
  h.permits howned hgroup (by decide)

/-- A mode without its rights to write. -/
def withoutWrite (mode : Mode) : Mode := mode &&& ~~~writeBits

theorem withoutWrite_writeBits (mode : Mode) : withoutWrite mode &&& writeBits = 0 := by
  rw [withoutWrite, BitVec.and_assoc, show ~~~writeBits &&& writeBits = 0 by decide]
  exact BitVec.and_zero

theorem sameLook_withoutWrite (mode : Mode) : SameLook (withoutWrite mode) mode := by
  rw [SameLook, withoutWrite, BitVec.and_assoc, show ~~~writeBits &&& lookBits = lookBits by decide]

theorem sameLook_settle (a : Attributes) (mode : Mode) : SameLook (a.settle mode) mode := by
  unfold Attributes.settle
  split
  next => rfl
  next =>
    rw [SameLook, BitVec.and_assoc, show ~~~setGroupId &&& lookBits = lookBits by decide]

theorem settle_writeBits {a : Attributes} {mode : Mode} (h : mode &&& writeBits = 0) :
    a.settle mode &&& writeBits = 0 := by
  unfold Attributes.settle
  split
  next => exact h
  next =>
    rw [BitVec.and_assoc, BitVec.and_comm (~~~setGroupId), ← BitVec.and_assoc, h]
    exact BitVec.zero_and

/-- Two disks on which every path leads to the same. -/
structure LooksAlike (a b : Disk ν ι) : Prop where
  root : b.root = a.root
  cwd : b.cwd = a.cwd
  owned : ∀ ino, (b.attributes ino).owned = (a.attributes ino).owned
  inGroup : ∀ ino, (b.attributes ino).inGroup = (a.attributes ino).inGroup
  look : ∀ ino, SameLook (b.attributes ino).mode (a.attributes ino).mode

namespace LooksAlike
variable {a b c : Disk ν ι}

theorem refl (a : Disk ν ι) : LooksAlike a a := ⟨rfl, rfl, fun _ => rfl, fun _ => rfl, fun _ => rfl⟩

theorem trans (h : LooksAlike a b) (h' : LooksAlike b c) : LooksAlike a c where
  root := h'.root.trans h.root
  cwd := h'.cwd.trans h.cwd
  owned ino := (h'.owned ino).trans (h.owned ino)
  inGroup ino := (h'.inGroup ino).trans (h.inGroup ino)
  look ino := Eq.trans (h'.look ino) (h.look ino)

theorem mayRead (h : LooksAlike a b) : b.mayRead = a.mayRead := by
  funext ino
  exact (h.look ino).mayRead (h.owned ino) (h.inGroup ino)

theorem mayEnter (h : LooksAlike a b) : b.mayEnter = a.mayEnter := by
  funext ino
  exact (h.look ino).mayEnter (h.owned ino) (h.inGroup ino)

variable [DecidableEq ν] {path : Path ν}

theorem resolve (h : LooksAlike a b) : b.resolve path = a.resolve path := by
  rw [Disk.resolve, Disk.resolve, h.root, h.cwd, h.mayEnter]

theorem metadata (h : LooksAlike a b) : b.metadata path = a.metadata path := by
  rw [Disk.metadata, Disk.metadata, h.resolve, h.root]

theorem openFile (h : LooksAlike a b) : b.openFile path = a.openFile path := by
  rw [Disk.openFile, Disk.openFile, h.metadata, h.mayRead]

end LooksAlike

variable [DecidableEq ι] {disk : Disk ν ι} {ino other : ι} {mode : Mode}

theorem chmod_eq_some {disk' : Disk ν ι} : disk.chmod ino mode = some disk' ↔
    (disk.attributes ino).owned = true ∧
      disk' = disk.setMode ino ((disk.attributes ino).settle mode) := by
  unfold Disk.chmod
  split
  next h => simp [h, eq_comm]
  next h => simp [h]

@[simp] theorem setMode_mode_self : ((disk.setMode ino mode).attributes ino).mode = mode := by
  simp [Disk.setMode]

theorem setMode_mode_other (h : other ≠ ino) :
    ((disk.setMode ino mode).attributes other).mode = (disk.attributes other).mode := by
  simp [Disk.setMode, Function.update_of_ne h]

@[simp] theorem setMode_owned :
    ((disk.setMode ino mode).attributes other).owned = (disk.attributes other).owned := by
  by_cases h : other = ino
  · simp [Disk.setMode, h]
  · simp [Disk.setMode, Function.update_of_ne h]

@[simp] theorem setMode_inGroup :
    ((disk.setMode ino mode).attributes other).inGroup = (disk.attributes other).inGroup := by
  by_cases h : other = ino
  · simp [Disk.setMode, h]
  · simp [Disk.setMode, Function.update_of_ne h]

/-- A mode with other rights to write changes no path. -/
theorem looksAlike_setMode (h : SameLook mode (disk.attributes ino).mode) :
    LooksAlike disk (disk.setMode ino mode) := by
  refine ⟨rfl, rfl, fun _ => setMode_owned, fun _ => setMode_inGroup, fun other => ?_⟩
  by_cases hother : other = ino
  · rw [hother, setMode_mode_self]
    exact h
  · rw [setMode_mode_other hother]
    rfl

end Write

end Attest.Library.Inodes
