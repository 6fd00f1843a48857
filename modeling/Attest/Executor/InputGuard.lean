import Attest.Hashing.Paths
import Attest.Library.Fallible
import Attest.Library.Inodes

/-! The guard on declared inputs, as `executor/mod.rs` has it.

Every file and directory below a declared input loses its rights to write, and the guard
remembers each inode it took them from with the mode it had. Rights to write decide no path,
so whatever was found is found again. `guard_gives_back` says what the guard takes, what it
gives back, and that a step cannot turn it against other files. -/
namespace Attest.Executor.InputGuard
open Library.Fallible Library.Inodes
open Hashing (Name)

/-- Device and inode. -/
abbrev Ino := UInt64 × UInt64

abbrev InputPath := Path Name
abbrev Files := Disk Name Ino

/-- Path, original mode, and the inode the mode belongs to. -/
structure Restore where
  path : InputPath
  mode : Mode
  ino : Ino

structure Guard where
  restore : List Restore
  enforced : Bool

inductive GuardError
  | metadata (path : InputPath)
  | cannotOpen (path : InputPath)
  | changed (path : InputPath)
  | cannotMakeReadOnly (path : InputPath)
  /-- Whatever else stops the program at a path. -/
  | io (path : InputPath)

/-! ### Taking and giving back -/

/-- The files, and what has been taken so far. -/
structure Held where
  restore : List Restore
  files : Files

def okOr {α : Type} (x : Option α) (e : GuardError) : Except GuardError α :=
  match x with
  | some a => .ok a
  | none => .error e

section Hold
variable (stops : Held → InputPath → Bool)

/-- One path of the loop. The change of the mode is the last that can fail. -/
def acquire (held : Held) (path : InputPath) : Except GuardError Held := do
  refuseIf (stops held path = true) (.io path)
  let entry ← okOr (held.files.metadata path) (.metadata path)
  let mode := (held.files.attributes entry.ino).mode
  if mode &&& writeBits = 0 then return held
  let ino ← okOr (held.files.openFile path) (.cannotOpen path)
  refuseIf (ino ≠ entry.ino) (.changed path)
  let files ← okOr (held.files.chmod ino (withoutWrite mode)) (.cannotMakeReadOnly path)
  return { restore := held.restore ++ [⟨path, mode, entry.ino⟩], files := files }

def take (path : InputPath) : EStateM GuardError Held Unit := fun held =>
  match acquire stops held path with
  | .ok held' => .ok () held'
  | .error e => .error e held

/-- What is found of one declared input. -/
def pathsOf (files : Files) (root : InputPath) : List InputPath :=
  match files.metadata root with
  | none => []
  | some (.link _ _) => []
  | some entry => walk files.mayRead files.mayEnter true root entry

def takeInput (workspace input : InputPath) : EStateM GuardError Held Unit := do
  let paths ← reading fun held => .ok (pathsOf held.files (workspace.join input))
  paths.forM (take stops)

/-- `InputGuard::drop`, for one inode. -/
def giveBack (files : Files) (record : Restore) : Files :=
  match files.openFile record.path with
  | none => files
  | some ino => if ino ≠ record.ino then files else (files.chmod ino record.mode).getD files

def drop (restore : List Restore) (files : Files) : Files := restore.reverse.foldl giveBack files

/-- `InputGuard::hold`: a guard that is not complete is dropped. -/
def hold (superuser : Bool) (workspace : InputPath) (inputs : List InputPath) (files : Files) :
    Except GuardError Guard × Files :=
  if superuser then (.ok ⟨[], false⟩, files)
  else
    match inputs.forM (takeInput stops workspace) ⟨[], files⟩ with
    | .ok _ held => (.ok ⟨held.restore, true⟩, held.files)
    | .error e held => (.error e, drop held.restore held.files)

end Hold

/-! ### What has been taken -/

section Taken
variable {stops : Held → InputPath → Bool} {before : Files} {held held' : Held}
  {workspace path : InputPath}

def recorded (restore : List Restore) : List Ino := restore.map Restore.ino

/-- What the guard has on its way: nothing but rights to write is gone, from the inodes it has
recorded, and each of these can be found again. -/
structure Holds (before : Files) (held : Held) : Prop where
  alike : LooksAlike before held.files
  nodup : (recorded held.restore).Nodup
  found : ∀ r ∈ held.restore, before.openFile r.path = some r.ino ∧
    (before.attributes r.ino).owned = true ∧ r.mode = (before.attributes r.ino).mode
  bare : ∀ r ∈ held.restore, (held.files.attributes r.ino).mode &&& writeBits = 0
  untouched : ∀ ino ∉ recorded held.restore,
    (held.files.attributes ino).mode = (before.attributes ino).mode

/-- What a path leads to has no rights to write. -/
def Bare (before : Files) (path : InputPath) (held : Held) : Prop :=
  ∃ entry, before.metadata path = some entry ∧
    (held.files.attributes entry.ino).mode &&& writeBits = 0

theorem holds_start (files : Files) : Holds files ⟨[], files⟩ where
  alike := .refl files
  nodup := List.nodup_nil
  found _ h := absurd h List.not_mem_nil
  bare _ h := absurd h List.not_mem_nil
  untouched _ _ := rfl

theorem okOr_eq_ok {α : Type} {x : Option α} {e : GuardError} {a : α} :
    okOr x e = .ok a ↔ x = some a := by
  cases x with
  | none => simp [okOr]
  | some b => simp [okOr]

/-- What one path can do: it has no rights to write already, or it loses them. -/
theorem acquire_eq_ok (h : acquire stops held path = .ok held') :
    ∃ entry, held.files.metadata path = some entry ∧
      ((held.files.attributes entry.ino).mode &&& writeBits = 0 ∧ held' = held ∨
        ¬ (held.files.attributes entry.ino).mode &&& writeBits = 0 ∧
        held.files.openFile path = some entry.ino ∧
        (held.files.attributes entry.ino).owned = true ∧
        held' = ⟨held.restore ++ [⟨path, (held.files.attributes entry.ino).mode, entry.ino⟩],
          held.files.setMode entry.ino ((held.files.attributes entry.ino).settle
            (withoutWrite (held.files.attributes entry.ino).mode))⟩) := by
  unfold acquire at h
  obtain ⟨_, _, h⟩ := except_bind_eq_ok.mp h
  obtain ⟨entry, hentry, h⟩ := except_bind_eq_ok.mp h
  rw [okOr_eq_ok] at hentry
  refine ⟨entry, hentry, ?_⟩
  dsimp only at h
  split at h
  next hbare =>
    obtain rfl := Except.ok.inj h
    exact .inl ⟨hbare, rfl⟩
  next hbits =>
    obtain ⟨ino, hino, h⟩ := except_bind_eq_ok.mp h
    obtain ⟨_, hsame, h⟩ := except_bind_eq_ok.mp h
    obtain ⟨files, hfiles, hdone⟩ := except_bind_eq_ok.mp h
    rw [okOr_eq_ok] at hino hfiles
    obtain rfl := not_not.mp (refuseIf_eq_ok.mp hsame)
    obtain rfl := Except.ok.inj hdone
    obtain ⟨howned, rfl⟩ := chmod_eq_some.mp hfiles
    exact .inr ⟨hbits, hino, howned, rfl⟩

theorem Holds.acquire (h : Holds before held) (hacquire : acquire stops held path = .ok held') :
    Holds before held' ∧ Bare before path held' ∧
      ∀ other, Bare before other held → Bare before other held' := by
  obtain ⟨entry, hentry, hcases⟩ := acquire_eq_ok hacquire
  rw [h.alike.metadata] at hentry
  rcases hcases with ⟨hbare, rfl⟩ | ⟨hbits, hopen, howned, rfl⟩
  · exact ⟨h, ⟨entry, hentry, hbare⟩, fun _ h => h⟩
  · have hnew : entry.ino ∉ recorded held.restore := by
      intro hmem
      obtain ⟨r, hr, hino⟩ := List.mem_map.mp hmem
      rw [← hino] at hbits
      exact hbits (h.bare r hr)
    have hmode := h.untouched entry.ino hnew
    rw [h.alike.openFile] at hopen
    rw [h.alike.owned] at howned
    have hlook : SameLook ((held.files.attributes entry.ino).settle
        (withoutWrite (held.files.attributes entry.ino).mode)) (held.files.attributes entry.ino).mode :=
      Eq.trans (sameLook_settle _ _) (sameLook_withoutWrite _)
    have hnone : (held.files.attributes entry.ino).settle
        (withoutWrite (held.files.attributes entry.ino).mode) &&& writeBits = 0 :=
      settle_writeBits (withoutWrite_writeBits _)
    have hinos : recorded (held.restore ++ [⟨path, (held.files.attributes entry.ino).mode, entry.ino⟩]) =
        recorded held.restore ++ [entry.ino] := List.map_append
    have hbare : ∀ ino, (held.files.attributes ino).mode &&& writeBits = 0 →
        ((held.files.setMode entry.ino ((held.files.attributes entry.ino).settle
          (withoutWrite (held.files.attributes entry.ino).mode))).attributes ino).mode &&& writeBits = 0 := by
      intro ino hino
      by_cases hsame : ino = entry.ino
      · rw [hsame, setMode_mode_self, hnone]
      · rw [setMode_mode_other hsame, hino]
    refine ⟨⟨h.alike.trans (looksAlike_setMode hlook), ?_, ?_, ?_, ?_⟩, ?_, ?_⟩
    · rw [hinos]
      exact List.nodup_append.mpr ⟨h.nodup, List.nodup_singleton _, fun a ha b hb hab =>
        hnew ((List.mem_singleton.mp hb) ▸ hab ▸ ha)⟩
    · intro r hr
      rcases List.mem_append.mp hr with hr | hr
      · exact h.found r hr
      · obtain rfl := List.mem_singleton.mp hr
        exact ⟨hopen, howned, hmode⟩
    · intro r hr
      rcases List.mem_append.mp hr with hr | hr
      · exact hbare _ (h.bare r hr)
      · obtain rfl := List.mem_singleton.mp hr
        rw [setMode_mode_self, hnone]
    · intro ino hino
      rw [hinos, List.mem_append, List.mem_singleton, not_or] at hino
      rw [setMode_mode_other hino.2]
      exact h.untouched ino hino.1
    · exact ⟨entry, hentry, by rw [setMode_mode_self, hnone]⟩
    · intro other hother
      obtain ⟨entry', hentry', hbits'⟩ := hother
      exact ⟨entry', hentry', hbare _ hbits'⟩

theorem take_spec (h : Holds before held) : EndsIn (take stops path) held
    (fun _ held' => Holds before held' ∧ Bare before path held' ∧
      ∀ other, Bare before other held → Bare before other held') (Holds before) := by
  unfold EndsIn take
  cases hacquire : acquire stops held path with
  | ok held' => exact h.acquire hacquire
  | error e => exact h

theorem pathsOf_alike {root : InputPath} (h : LooksAlike before held.files) :
    pathsOf held.files root = pathsOf before root := by
  rw [pathsOf, pathsOf, h.metadata, h.mayRead, h.mayEnter]

/-- Every path of a declared input leads to what has no rights to write. -/
def BareInput (before : Files) (workspace input : InputPath) (held : Held) : Prop :=
  ∀ path ∈ pathsOf before (workspace.join input), Bare before path held

theorem takeInput_spec {input : InputPath} (h : Holds before held) :
    EndsIn (takeInput stops workspace input) held
      (fun _ held' => Holds before held' ∧ BareInput before workspace input held' ∧
        ∀ other, BareInput before workspace other held → BareInput before workspace other held')
      (Holds before) := by
  unfold takeInput
  refine endsIn_bind.mpr ?_
  show EndsIn ((pathsOf held.files (workspace.join input)).forM (take stops)) held _ _
  rw [pathsOf_alike h.alike]
  refine (endsIn_forM (fun path _ held h => take_spec h) h).mono ?_ fun _ h => h
  intro _ held' hloop
  exact ⟨hloop.1, hloop.2.1, fun other hother path hpath => hloop.2.2 path (hother path hpath)⟩

theorem takeInputs_spec {inputs : List InputPath} :
    EndsIn (inputs.forM (takeInput stops workspace)) ⟨[], before⟩
      (fun _ held => Holds before held ∧ ∀ input ∈ inputs, BareInput before workspace input held)
      (Holds before) := by
  refine (endsIn_forM (fun input _ held h => takeInput_spec h) (holds_start before)).mono ?_ fun _ h => h
  intro _ held hloop
  exact ⟨hloop.1, hloop.2.1⟩

end Taken

/-! ### What is given back -/

section Given
variable {stops : Held → InputPath → Bool} {before files : Files} {held : Held}
  {records : List Restore} {record : Restore}

/-- One inode that can be found gets its mode. -/
theorem giveBack_found (halike : LooksAlike before files)
    (hfound : before.openFile record.path = some record.ino)
    (howned : (before.attributes record.ino).owned = true) :
    giveBack files record =
      files.setMode record.ino ((files.attributes record.ino).settle record.mode) := by
  have hopen : files.openFile record.path = some record.ino := by rw [halike.openFile, hfound]
  have hchmod : files.chmod record.ino record.mode =
      some (files.setMode record.ino ((files.attributes record.ino).settle record.mode)) :=
    chmod_eq_some.mpr ⟨by rw [halike.owned, howned], rfl⟩
  unfold giveBack
  rw [hopen]
  dsimp only
  rw [if_neg (not_not.mpr rfl), hchmod, Option.getD_some]

theorem settle_congr {a b : Attributes} (h : a.inGroup = b.inGroup) (mode : Mode) :
    a.settle mode = b.settle mode := by
  rw [Attributes.settle, Attributes.settle, h]

theorem mem_recorded_cons {ino : Ino} :
    ino ∈ recorded (record :: records) ↔ ino = record.ino ∨ ino ∈ recorded records := List.mem_cons

/-- Each recorded inode has its mode again, and the others the one they have. -/
theorem foldl_giveBack (halike : LooksAlike before files)
    (hfound : ∀ r ∈ records, before.openFile r.path = some r.ino ∧
      (before.attributes r.ino).owned = true ∧ r.mode = (before.attributes r.ino).mode) :
    (records.foldl giveBack files).root = before.root ∧
    ∀ ino, ((records.foldl giveBack files).attributes ino).mode =
      if ino ∈ recorded records then (before.attributes ino).settle (before.attributes ino).mode
      else (files.attributes ino).mode := by
  induction records generalizing files with
  | nil => exact ⟨halike.root, fun ino => by simp [recorded]⟩
  | cons record rest ih =>
    rw [List.forall_mem_cons] at hfound
    obtain ⟨⟨hopen, howned, hmode⟩, hrest⟩ := hfound
    have hsettle : (files.attributes record.ino).settle record.mode =
        (before.attributes record.ino).settle (before.attributes record.ino).mode := by
      rw [settle_congr (halike.inGroup record.ino), hmode]
    rw [List.foldl_cons, giveBack_found halike hopen howned, hsettle]
    have hlook : SameLook ((before.attributes record.ino).settle (before.attributes record.ino).mode)
        (files.attributes record.ino).mode :=
      Eq.trans (sameLook_settle _ _) (Eq.symm (halike.look record.ino))
    obtain ⟨hroot, hmodes⟩ := ih (halike.trans (looksAlike_setMode hlook)) hrest
    refine ⟨hroot, fun ino => ?_⟩
    rw [hmodes ino]
    by_cases hmem : ino ∈ recorded rest
    · rw [if_pos hmem, if_pos (mem_recorded_cons.mpr (.inr hmem))]
    · rw [if_neg hmem]
      by_cases hsame : ino = record.ino
      · rw [hsame, setMode_mode_self, if_pos (mem_recorded_cons.mpr (.inl rfl))]
      · rw [setMode_mode_other hsame, if_neg]
        exact fun hcons => (mem_recorded_cons.mp hcons).elim hsame hmem

/-- The modes are as they were, but for a set-group-ID bit that the user may not set. -/
structure GivenBack (before after : Files) : Prop where
  root : after.root = before.root
  mode : ∀ ino, (after.attributes ino).mode = (before.attributes ino).mode ∨
    (before.attributes ino).inGroup = false ∧
      (after.attributes ino).mode = (before.attributes ino).mode &&& ~~~setGroupId

theorem Holds.givenBack (h : Holds before held) : GivenBack before (drop held.restore held.files) := by
  obtain ⟨hroot, hmodes⟩ := @foldl_giveBack before held.files held.restore.reverse h.alike
    fun r hr => h.found r (List.mem_reverse.mp hr)
  refine ⟨hroot, fun ino => ?_⟩
  rw [drop, hmodes ino]
  split
  next =>
    unfold Attributes.settle
    split
    next => exact .inl rfl
    next hgroup => exact .inr ⟨Bool.eq_false_of_not_eq_true hgroup, rfl⟩
  next hnot =>
    refine .inl (h.untouched ino ?_)
    rw [recorded, List.map_reverse, List.mem_reverse] at hnot
    exact hnot

/-- Whatever the files are by then, one record changes at most its inode. -/
theorem giveBack_only (files : Files) (record : Restore) :
    (giveBack files record).root = files.root ∧
    (∀ ino, ((giveBack files record).attributes ino).inGroup = (files.attributes ino).inGroup) ∧
    ∀ ino, ((giveBack files record).attributes ino).mode = (files.attributes ino).mode ∨
      record.ino = ino ∧
        ((giveBack files record).attributes ino).mode = (files.attributes ino).settle record.mode := by
  unfold giveBack
  split
  next => exact ⟨rfl, fun _ => rfl, fun _ => .inl rfl⟩
  next ino _ =>
    split
    next => exact ⟨rfl, fun _ => rfl, fun _ => .inl rfl⟩
    next hsame =>
      obtain rfl := not_not.mp hsame
      cases hchmod : files.chmod record.ino record.mode with
      | none => exact ⟨rfl, fun _ => rfl, fun _ => .inl rfl⟩
      | some files' =>
        obtain ⟨_, rfl⟩ := chmod_eq_some.mp hchmod
        rw [Option.getD_some]
        refine ⟨rfl, fun _ => setMode_inGroup, fun other => ?_⟩
        by_cases hother : other = record.ino
        · rw [hother, setMode_mode_self]
          exact .inr ⟨rfl, rfl⟩
        · exact .inl (setMode_mode_other hother)

theorem foldl_giveBack_only (records : List Restore) (files : Files) :
    (records.foldl giveBack files).root = files.root ∧
    ∀ ino, ((records.foldl giveBack files).attributes ino).mode = (files.attributes ino).mode ∨
      ∃ r ∈ records, r.ino = ino ∧
        ((records.foldl giveBack files).attributes ino).mode = (files.attributes ino).settle r.mode := by
  induction records generalizing files with
  | nil => exact ⟨rfl, fun _ => .inl rfl⟩
  | cons record rest ih =>
    obtain ⟨hroot, hgroup, hmode⟩ := giveBack_only files record
    obtain ⟨hroot', hmode'⟩ := ih (giveBack files record)
    rw [List.foldl_cons]
    refine ⟨hroot'.trans hroot, fun ino => ?_⟩
    rcases hmode' ino with hkept | ⟨r, hr, hino, hset⟩
    · rcases hmode ino with hkept' | ⟨hino, hset⟩
      · exact .inl (hkept.trans hkept')
      · exact .inr ⟨record, List.mem_cons_self, hino, hkept.trans hset⟩
    · rw [settle_congr (hgroup ino)] at hset
      exact .inr ⟨r, List.mem_cons_of_mem _ hr, hino, hset⟩

end Given

/-! ### The guard -/

section Guards
variable {stops : Held → InputPath → Bool} {superuser : Bool} {workspace : InputPath}
  {inputs : List InputPath} {files left : Files} {guard : Guard}

/-- Nothing that stands below a path, links apart, has rights to write, as far as the
directories above it can be listed. -/
def Unwritable (before held : Files) (root : InputPath) : Prop :=
  ∀ loc top below sub, before.resolve root = some loc → before.root.descend loc = some top →
    top.descend below = some sub → sub.isLink = false → Listed before.mayRead top below →
    (held.attributes sub.ino).mode &&& writeBits = 0

theorem unwritable_of_bare {before : Files} {held : Held} {root : InputPath}
    (h : ∀ path ∈ pathsOf before root, Bare before path held) :
    Unwritable before held.files root := by
  intro loc top below sub hloc htop hsub hlink hlisted
  have htopLink : top.isLink = false := by
    cases below with
    | nil =>
      obtain rfl := Option.some.inj hsub
      exact hlink
    | cons name rest =>
      obtain ⟨ino, names, child, rfl, _⟩ := Entry.dir_of_descend hsub
      rfl
  have hpaths : pathsOf before root = walk before.mayRead before.mayEnter true root top := by
    unfold pathsOf
    rw [Disk.metadata_of_resolve hloc, htop]
    cases top with
    | link ino target => cases htopLink
    | file ino => rfl
    | special ino opens => rfl
    | dir ino names child => rfl
  rw [hpaths] at h
  have hseen : ∀ found ∈ walk before.mayRead before.mayEnter true root top,
      before.metadata found ≠ none := by
    intro found hfound
    obtain ⟨entry, hentry, _⟩ := h found hfound
    rw [hentry]
    exact Option.some_ne_none entry
  obtain ⟨hmem, hresolve⟩ := mem_walk hloc htop hseen hsub hlink hlisted
  obtain ⟨entry, hentry, hbare⟩ := h _ hmem
  rw [Disk.metadata_of_resolve hresolve, Entry.descend_append, htop, Option.bind_some, hsub] at hentry
  obtain rfl := Option.some.inj hentry
  exact hbare

/-- What there is to say of a guard that is complete, and of the files it leaves. -/
structure Guards (files : Files) (workspace : InputPath) (inputs : List InputPath) (guard : Guard)
    (held : Files) : Prop where
  /-- Dropped at once, it leaves the modes as they were. -/
  givenBack : GivenBack files (drop guard.restore held)
  /-- Where it is enforced, nothing below a declared input can be written. -/
  unwritable : guard.enforced = true → ∀ input ∈ inputs, Unwritable files held (workspace.join input)
  /-- Whatever the files are by then, only what it has recorded gets a mode, and the recorded one. -/
  only : ∀ changed : Files, (drop guard.restore changed).root = changed.root ∧
    ∀ ino, ((drop guard.restore changed).attributes ino).mode = (changed.attributes ino).mode ∨
      ∃ r ∈ guard.restore, r.ino = ino ∧ r.mode = (files.attributes ino).mode ∧
        ((drop guard.restore changed).attributes ino).mode = (changed.attributes ino).settle r.mode

theorem Holds.guards {held : Held} (h : Holds files held)
    (hbare : ∀ input ∈ inputs, BareInput files workspace input held) :
    Guards files workspace inputs ⟨held.restore, true⟩ held.files where
  givenBack := h.givenBack
  unwritable _ input hinput := unwritable_of_bare (hbare input hinput)
  only changed := by
    obtain ⟨hroot, hmode⟩ := foldl_giveBack_only held.restore.reverse changed
    refine ⟨hroot, fun ino => ?_⟩
    rcases hmode ino with hkept | ⟨r, hr, hino, hset⟩
    · exact .inl hkept
    · have hmem := List.mem_reverse.mp hr
      refine .inr ⟨r, hmem, hino, ?_, hset⟩
      rw [← hino]
      exact (h.found r hmem).2.2

/-- **The guard gives back what it took**, and takes all there is to take: whatever stops it on
its way, and whatever the step does in between. -/
theorem guard_gives_back (stops : Held → InputPath → Bool) (superuser : Bool)
    (workspace : InputPath) (inputs : List InputPath) (files : Files) :
    match hold stops superuser workspace inputs files with
    | (.ok guard, held) => Guards files workspace inputs guard held ∧ guard.enforced = !superuser
    | (.error _, left) => GivenBack files left := by
  unfold hold
  cases superuser with
  | true =>
    refine ⟨⟨⟨rfl, fun _ => .inl rfl⟩, fun henforced => ?_, fun changed => ⟨rfl, fun _ => .inl rfl⟩⟩, rfl⟩
    cases henforced
  | false =>
    have hspec := @takeInputs_spec stops files workspace inputs
    unfold EndsIn at hspec
    rw [if_neg Bool.false_ne_true]
    cases hrun : inputs.forM (takeInput stops workspace) ⟨[], files⟩ with
    | ok u held =>
      rw [hrun] at hspec
      exact ⟨hspec.1.guards hspec.2, rfl⟩
    | error e held =>
      rw [hrun] at hspec
      exact hspec.givenBack

end Guards

/-! ### What it does not hold -/

/-- A name, by its letter. -/
def letter (byte : UInt8) (h : Name.WellFormed [byte] := by decide) : Name := ⟨[byte], h⟩

def sampleDir : Ino := (0, 2)

def sampleFile : Ino := (0, 3)

/-- A directory with a file in it, at the root. -/
def sampleFiles (dirMode : Mode) (inGroup : Bool) : Files where
  root := .dir (0, 1) [letter 100] fun _ => .dir sampleDir [letter 102] fun _ => .file sampleFile
  cwd := []
  attributes ino :=
    if ino = sampleDir then ⟨dirMode, true, inGroup⟩
    else if ino = sampleFile then ⟨0o644, true, true⟩
    else ⟨0o755, true, true⟩

/-- The guard on the directory, with nothing in its way. -/
def sampleHold (superuser : Bool) (files : Files) : Except GuardError Guard × Files :=
  hold (fun _ _ => false) superuser ⟨true, []⟩ [⟨false, [.normal (letter 100)]⟩] files

example : ((sampleHold false (sampleFiles 0o755 true)).2.attributes sampleFile).mode = 0o444 := by
  decide

/-- **What the guard does not hold or give back**: anything, for the superuser; a set-group-ID bit
of a group that the user is not in; and a file in a directory that cannot be listed. -/
theorem guard_limits :
    (∃ guard held, sampleHold true (sampleFiles 0o755 true) = (.ok guard, held) ∧
      (held.attributes sampleFile).mode &&& writeBits ≠ 0) ∧
    (∃ guard held, sampleHold false (sampleFiles 0o2755 false) = (.ok guard, held) ∧
      ((drop guard.restore held).attributes sampleDir).mode = 0o755) ∧
    ∃ guard held, sampleHold false (sampleFiles 0o111 true) = (.ok guard, held) ∧
      (held.attributes sampleFile).mode &&& writeBits ≠ 0 := by
  refine ⟨⟨_, _, rfl, ?_⟩, ⟨_, _, rfl, ?_⟩, _, _, rfl, ?_⟩
  · decide
  · decide
  · decide

end Attest.Executor.InputGuard
