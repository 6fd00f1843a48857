import Attest.Evidence.Capsules
import Attest.Executor.Snapshots
import Attest.Executor.Steps
import Attest.Library.Lossy

/-! The command line a capsule is run with, after `capsule.rs`.

The arguments are texts that the container runtime reads again: options up to the image, then what
runs in it. `runs_as_declared_iff` says for which manifests, workspaces and inputs it reads what was
declared. An image is held to end in a digest and not to what it begins with; a path stands between
colons whatever stands in it; and an input that leads nowhere is left out. -/
namespace Attest.Executor.CapsuleRun
open Library Library.Text Library.Fallible Library.StableSort Hashing Snapshot
open Trust (Bytes Crates utf8 utf8_injective)
open Evidence (CapsuleManifest)

/-! ### The model -/

/-- The inputs to mount, and the directory they are mounted from. -/
structure InputMounts where
  root : Location
  paths : List (List Name)

/-- `PathBuf::push` of a name: a slash is put in between where there is none. -/
def joinName (base : Bytes) (name : Name) : Bytes :=
  (if base.getLast? = none ∨ base.getLast? = some slash then base else base ++ [slash]) ++ name.bytes

/-- An absolute path as it is written. -/
def locationBytes (location : Location) : Bytes := location.foldl joinName [slash]

/-- `Path::display`. -/
def display (path : Bytes) : String := (String.fromUTF8? ⟨path.toArray⟩).getD (Lossy.text path)

def nameKey (name : Name) : List Nat := name.bytes.map UInt8.toNat

/-- The first component of each input, sorted and each once. -/
def topsOf (paths : List (List Name)) : List Name :=
  (sortByKey nameKey (paths.filterMap List.head?)).destutter (· ≠ ·)

/-- `Path::exists`: links are followed. -/
def pathExists (fs : FileSystem) (location : Location) : Bool :=
  (entryAt fs true (.ofNames true location)).toOption.isSome

/-- What is mounted of the inputs: what is there. -/
def presentTops (fs : FileSystem) (inputs : InputMounts) : List Name :=
  (topsOf inputs.paths).filter fun top => pathExists fs (inputs.root ++ [top])

def workspaceMount (manifest : CapsuleManifest) (workspace : Bytes) : String :=
  display workspace ++ ":" ++ manifest.workspace

def inputMount (manifest : CapsuleManifest) (root : Location) (top : Name) : String :=
  display (joinName (locationBytes root) top) ++ ":" ++
    display (joinName (utf8 manifest.workspace) top) ++ ":ro"

/-- The manifest's environment with the normalization set on top. -/
def capsuleEnv (manifest : CapsuleManifest) : SortedMap String String :=
  (SortedMap.empty.insertAll manifest.env).insertAll hermeticVariables

def envText (entry : String × String) : String := entry.1 ++ "=" ++ entry.2

/-- What follows the other options: the entrypoint, the image and the command. -/
def imageArgs (manifest : CapsuleManifest) (command : List String) : List String :=
  match manifest.entrypoint with
  | some (program :: arguments) =>
    ["--entrypoint", program] ++ manifest.image :: (arguments ++ command)
  | _ => manifest.image :: command

/-- The arguments after `run`. -/
def runArgs (fs : FileSystem) (manifest : CapsuleManifest) (workspace : Bytes) (inputs : InputMounts)
    (command : List String) : List String :=
  ["--rm", "--network", Evidence.capsuleNetworkNone, "--read-only", "-v",
    workspaceMount manifest workspace] ++
  ((presentTops fs inputs).flatMap fun top => ["-v", inputMount manifest inputs.root top]) ++
  ["-w", manifest.workspace] ++
  ((capsuleEnv manifest).entries.flatMap fun entry => ["-e", envText entry]) ++
  imageArgs manifest command

/-! ### The runtime's command line -/

/-- A mount, with the bytes of its paths. -/
structure Mount where
  host : Bytes
  container : Bytes
  readOnly : Bool
deriving DecidableEq

/-- A container as a command line asks for it. -/
structure Container where
  network : Option String := none
  readOnly : Bool := false
  mounts : List Mount := []
  workdir : Option String := none
  /-- A later value of a variable replaces an earlier one. -/
  env : SortedMap String String := .empty
  entrypoint : Option String := none
  image : String := ""
  command : List String := []

inductive CliOption where
  | rm
  | network
  | readOnly
  | volume
  | workdir
  | env
  | entrypoint
deriving DecidableEq

/-- The options that are used here; no other is read. -/
def cliOptions : List (String × CliOption) :=
  [("--rm", .rm), ("--network", .network), ("--read-only", .readOnly), ("-v", .volume),
    ("-w", .workdir), ("-e", .env), ("--entrypoint", .entrypoint)]

/-- A mount of these two paths, as texts. -/
def mountOf (host container : List Char) (readOnly : Bool) : Mount :=
  ⟨utf8 (.ofList host), utf8 (.ofList container), readOnly⟩

/-- `container` or `container:ro`, after a host path. -/
def readContainer (host rest : List Char) : Option Mount :=
  match splitOnce ':' rest with
  | none => if host = [] ∨ rest = [] then none else some (mountOf host rest false)
  | some (container, mode) =>
    if host = [] ∨ container = [] ∨ mode ≠ ['r', 'o'] then none
    else some (mountOf host container true)

/-- `host:container` or `host:container:ro`. -/
def readMount (text : String) : Option Mount :=
  (splitOnce ':' text.toList).bind fun split => readContainer split.1 split.2

/-- `name=value`. -/
def readAssignment (text : String) : Option (String × String) :=
  (splitOnce '=' text.toList).bind fun split =>
    if split.1 = [] then none else some (.ofList split.1, .ofList split.2)

/-- What an option with a value sets. -/
def setOption (container : Container) (value : String) : CliOption → Option Container
  | .network => some { container with network := some value }
  | .volume => (readMount value).map fun mount =>
    { container with mounts := container.mounts ++ [mount] }
  | .workdir => some { container with workdir := some value }
  | .env => (readAssignment value).map fun entry =>
    { container with env := container.env.insert entry.1 entry.2 }
  | .entrypoint => some { container with entrypoint := some value }
  | .rm | .readOnly => none

/-- An option and its value in one argument: `-vVALUE` or `--network=VALUE`. -/
def attached (arg : String) : Option (CliOption × String) :=
  match arg.toList with
  | '-' :: '-' :: rest =>
    (splitOnce '=' rest).bind fun split =>
      (cliOptions.lookup (.ofList ('-' :: '-' :: split.1))).map fun option => (option, .ofList split.2)
  | '-' :: letter :: value =>
    (cliOptions.lookup (.ofList ['-', letter])).map fun option => (option, .ofList value)
  | _ => none

/-- An argument that is no option. -/
def Positional (arg : String) : Prop := arg.toList.head? ≠ some '-'

instance (arg : String) : Decidable (Positional arg) := inferInstanceAs (Decidable (_ ≠ _))

/-- Options up to the first argument that is none: that is the image. -/
def readArgs : List String → Container → Option Container
  | [], _ => none
  | arg :: rest, container =>
    if Positional arg then some { container with image := arg, command := rest }
    else
      match cliOptions.lookup arg with
      | some .rm => readArgs rest container
      | some .readOnly => readArgs rest { container with readOnly := true }
      | some option =>
        match rest with
        | [] => none
        | value :: rest => (setOption container value option).bind fun next => readArgs rest next
      | none =>
        (attached arg).bind fun (option, value) =>
          (setOption container value option).bind fun next => readArgs rest next

/-! ### What is declared -/

/-- The name is the first component of a declared input. -/
def FirstOf (inputs : List Path) (top : Name) : Prop :=
  ∃ d ∈ inputs, (normalNames d.components).head? = some top

/-- The read-only mount of an input. -/
def topMount (manifest : CapsuleManifest) (root : Location) (top : Name) : Mount :=
  ⟨joinName (locationBytes root) top, joinName (utf8 manifest.workspace) top, true⟩

/-- The boundary that a manifest, a workspace and inputs below `root` declare. -/
structure RunsAs (manifest : CapsuleManifest) (workspace : Bytes) (root : Location)
    (inputs : List Path) (container : Container) : Prop where
  network : container.network = some "none"
  readOnly : container.readOnly = true
  once : container.mounts.Nodup
  mounts : ∀ mount, mount ∈ container.mounts ↔
    mount = ⟨workspace, utf8 manifest.workspace, false⟩ ∨
      ∃ top, FirstOf inputs top ∧ mount = topMount manifest root top
  env : ∀ name, container.env.lookup name =
    ((SortedMap.empty.insertAll hermeticVariables).lookup name).or
      ((SortedMap.empty.insertAll manifest.env).lookup name)
  image : container.image = manifest.image

/-- A text that may stand between colons. -/
def Field (chars : List Char) : Prop := chars ≠ [] ∧ ':' ∉ chars

/-- The path is the bytes of such a text. -/
def Spelled (path : Bytes) : Prop := ∃ text : String, utf8 text = path ∧ Field text.toList

def NamesRead (entries : List (String × String)) : Prop :=
  ∀ entry ∈ entries, entry.1.toList ≠ [] ∧ '=' ∉ entry.1.toList

/-- Nothing that is declared reads as something else, or as nothing. -/
structure ReadsBack (fs : FileSystem) (manifest : CapsuleManifest) (workspace : Bytes)
    (root : Location) (inputs : List Path) : Prop where
  image : Positional manifest.image
  workspace : Spelled workspace
  mount : Spelled (utf8 manifest.workspace)
  inputs : ∀ top, FirstOf inputs top → Spelled (joinName (locationBytes root) top) ∧
    Spelled (joinName (utf8 manifest.workspace) top) ∧ pathExists fs (root ++ [top]) = true
  env : NamesRead manifest.env

/-! ### Reading a mount and a variable -/

section Fields
variable {host container a b : List Char} {readOnly : Bool} {mount : Mount} {text : String}

/-- The text of a mount. -/
def mountChars (host container : List Char) (readOnly : Bool) : List Char :=
  host ++ ':' :: (container ++ if readOnly then [':', 'r', 'o'] else [])

theorem readMount_eq_some : readMount text = some mount ↔
    ∃ host container, Field host ∧ Field container ∧ mount = mountOf host container mount.readOnly ∧
      text.toList = mountChars host container mount.readOnly := by
  rw [readMount, Option.bind_eq_some_iff]
  constructor
  · intro h
    obtain ⟨⟨host, rest⟩, hsplit, h⟩ := h
    have hhost := notMem_of_splitOnce hsplit
    have htext := of_splitOnce hsplit
    rw [readContainer] at h
    cases hrest : splitOnce ':' rest with
    | none =>
      simp only [hrest] at h
      obtain ⟨hne, h⟩ := Option.ite_none_left_eq_some.mp h
      obtain rfl := Option.some.inj h
      rw [not_or] at hne
      refine ⟨host, rest, ⟨hne.1, hhost⟩, ⟨hne.2, splitOnce_eq_none.mp hrest⟩, rfl, ?_⟩
      simp [htext, mountChars, mountOf]
    | some split =>
      simp only [hrest] at h
      obtain ⟨hne, h⟩ := Option.ite_none_left_eq_some.mp h
      obtain rfl := Option.some.inj h
      rw [not_or, not_or, not_not] at hne
      refine ⟨host, split.1, ⟨hne.1, hhost⟩, ⟨hne.2.1, notMem_of_splitOnce hrest⟩, rfl, ?_⟩
      rw [htext, of_splitOnce hrest, hne.2.2]
      rfl
  · intro h
    obtain ⟨host, container, hhost, hcontainer, hmount, htext⟩ := h
    rw [htext, mountChars]
    refine ⟨_, splitOnce_append hhost.2 _, ?_⟩
    rw [hmount, readContainer]
    cases mount.readOnly with
    | false => simp [splitOnce_eq_none.mpr hcontainer.2, hhost.1, hcontainer.1, mountOf]
    | true => simp [splitOnce_append hcontainer.2, hhost.1, hcontainer.1, mountOf]

theorem count_mountChars : (mountChars a b readOnly).count ':' =
    a.count ':' + b.count ':' + (if readOnly then 2 else 1) := by
  rw [mountChars, List.count_append, List.count_cons_self, List.count_append]
  cases readOnly with
  | false => exact (Nat.add_assoc _ _ 1).symm
  | true => exact (Nat.add_assoc _ _ 2).symm

/-- A mount is read back as it was written only from texts without a colon. -/
theorem readMount_written : readMount (.ofList (mountChars a b readOnly)) = some mount ∧
      (mount.readOnly = true → readOnly = true) ↔
    Field a ∧ Field b ∧ mount = mountOf a b readOnly := by
  constructor
  · intro h
    obtain ⟨hread, hmode⟩ := h
    obtain ⟨host, container, hhost, hcontainer, hmount, htext⟩ := readMount_eq_some.mp hread
    rw [String.toList_ofList] at htext
    -- A text with the colons of its mode alone has none in its fields.
    have hcount := congrArg (List.count ':') htext
    rw [count_mountChars, count_mountChars, List.count_eq_zero.mpr hhost.2,
      List.count_eq_zero.mpr hcontainer.2] at hcount
    have hmodes : mount.readOnly = readOnly ∧ a.count ':' = 0 ∧ b.count ':' = 0 := by
      cases hread : mount.readOnly with
      | false =>
        rw [hread, if_neg Bool.false_ne_true] at hcount
        cases readOnly with
        | false =>
          rw [if_neg Bool.false_ne_true] at hcount
          exact ⟨rfl, by omega, by omega⟩
        | true =>
          rw [if_pos rfl] at hcount
          omega
      | true =>
        rw [hread, hmode hread, if_pos rfl] at hcount
        exact ⟨(hmode hread).symm, by omega, by omega⟩
    obtain ⟨hsame, ha, hb⟩ := hmodes
    rw [hsame] at htext hmount
    have hsplit := congrArg (splitOnce ':') htext
    rw [mountChars, mountChars, splitOnce_append (List.count_eq_zero.mp ha),
      splitOnce_append hhost.2] at hsplit
    obtain ⟨rfl, hrest⟩ := Prod.mk.inj (Option.some.inj hsplit)
    obtain rfl := List.append_cancel_right hrest
    exact ⟨hhost, hcontainer, hmount⟩
  · intro h
    obtain ⟨ha, hb, rfl⟩ := h
    refine ⟨readMount_eq_some.mpr ⟨a, b, ha, hb, rfl, String.toList_ofList⟩, id⟩

theorem readAssignment_eq_some {entry : String × String} (h : readAssignment text = some entry) :
    entry.1.toList ≠ [] ∧ '=' ∉ entry.1.toList := by
  obtain ⟨⟨name, value⟩, hsplit, h⟩ := Option.bind_eq_some_iff.mp h
  obtain ⟨hne, h⟩ := Option.ite_none_left_eq_some.mp h
  obtain rfl := Option.some.inj h
  rw [String.toList_ofList]
  exact ⟨hne, notMem_of_splitOnce hsplit⟩

theorem readAssignment_envText {entry : String × String}
    (h : entry.1.toList ≠ [] ∧ '=' ∉ entry.1.toList) : readAssignment (envText entry) = some entry := by
  have htext : (envText entry).toList = entry.1.toList ++ '=' :: entry.2.toList := by
    simp [envText]
  rw [readAssignment, htext, splitOnce_append h.2, Option.bind_some]
  show (if entry.1.toList = [] then none else _) = _
  rw [if_neg h.1, String.ofList_toList, String.ofList_toList]

end Fields

/-! ### Reading the arguments -/

section Reading
variable {arg flag value : String} {option : CliOption} {rest texts command : List String}
  {container read : Container} {manifest : CapsuleManifest} {mounts : List Mount}
  {entries : List (String × String)}

theorem readArgs_positional (h : Positional arg) :
    readArgs (arg :: rest) container = some { container with image := arg, command := rest } := by
  rw [readArgs, if_pos h]

/-- What was read begins no option. -/
theorem positional_of_readArgs (h : readArgs rest container = some read) : Positional read.image := by
  fun_induction readArgs rest container with
  | case1 => cases h
  | case2 container arg rest hpos =>
    obtain rfl := Option.some.inj h
    exact hpos
  | case3 container arg rest hpos hoption ih => exact ih h
  | case4 container arg rest hpos hoption ih => exact ih h
  | case5 => cases h
  | case6 container arg hpos option hrm hro hoption value rest ih =>
    obtain ⟨next, -, h⟩ := Option.bind_eq_some_iff.mp h
    exact ih next h
  | case7 container arg rest hpos hoption ih =>
    obtain ⟨split, -, h⟩ := Option.bind_eq_some_iff.mp h
    obtain ⟨next, -, h⟩ := Option.bind_eq_some_iff.mp h
    exact ih next h

/-- The options with a value. -/
def Valued (flag : String) (option : CliOption) : Prop :=
  ¬ Positional flag ∧ cliOptions.lookup flag = some option ∧ option ≠ .rm ∧ option ≠ .readOnly

theorem readArgs_valued (h : Valued flag option) : readArgs (flag :: value :: rest) container =
    (setOption container value option).bind fun next => readArgs rest next := by
  obtain ⟨hpos, hlookup, hrm, hro⟩ := h
  rw [readArgs, if_neg hpos, hlookup]
  cases option with
  | rm => exact absurd rfl hrm
  | readOnly => exact absurd rfl hro
  | network => rfl
  | volume => rfl
  | workdir => rfl
  | env => rfl
  | entrypoint => rfl

theorem valued_network : Valued "--network" .network := ⟨by decide, rfl, nofun, nofun⟩
theorem valued_volume : Valued "-v" .volume := ⟨by decide, rfl, nofun, nofun⟩
theorem valued_workdir : Valued "-w" .workdir := ⟨by decide, rfl, nofun, nofun⟩
theorem valued_env : Valued "-e" .env := ⟨by decide, rfl, nofun, nofun⟩
theorem valued_entrypoint : Valued "--entrypoint" .entrypoint := ⟨by decide, rfl, nofun, nofun⟩

/-- Options of one kind, whose values are read one by one and put in one after the other. -/
theorem readArgs_options {α : Type} {readValue : String → Option α} {put : Container → α → Container}
    (hflag : Valued flag option)
    (hset : ∀ container text, setOption container text option = (readValue text).map (put container)) :
    readArgs ((texts.flatMap fun text => [flag, text]) ++ rest) container = some read ↔
      ∃ values : List α, texts.map readValue = values.map some ∧
        readArgs rest (values.foldl put container) = some read := by
  induction texts generalizing container with
  | nil =>
    constructor
    · intro h
      exact ⟨[], rfl, h⟩
    · intro h
      obtain ⟨values, hvalues, h⟩ := h
      obtain rfl := List.map_eq_nil_iff.mp hvalues.symm
      exact h
  | cons text texts ih =>
    show readArgs (flag :: text :: ((texts.flatMap fun text => [flag, text]) ++ rest)) container = _ ↔ _
    rw [readArgs_valued hflag, hset]
    constructor
    · intro h
      obtain ⟨next, hnext, h⟩ := Option.bind_eq_some_iff.mp h
      obtain ⟨value, hvalue, rfl⟩ := Option.map_eq_some_iff.mp hnext
      obtain ⟨values, hvalues, h⟩ := ih.mp h
      refine ⟨value :: values, ?_, h⟩
      rw [List.map_cons, List.map_cons, hvalue, hvalues]
    · intro h
      obtain ⟨values, hvalues, h⟩ := h
      cases values with
      | nil => cases hvalues
      | cons value values =>
        rw [List.map_cons, List.map_cons] at hvalues
        obtain ⟨hvalue, hvalues⟩ := List.cons.inj hvalues
        rw [hvalue]
        exact ih.mpr ⟨values, hvalues, h⟩

theorem readArgs_volumes :
    readArgs ((texts.flatMap fun text => ["-v", text]) ++ rest) container = some read ↔
      ∃ mounts, texts.map readMount = mounts.map some ∧
        readArgs rest { container with mounts := container.mounts ++ mounts } = some read := by
  have hfold : ∀ (mounts : List Mount) (container : Container), mounts.foldl (fun container mount =>
      { container with mounts := container.mounts ++ [mount] }) container =
        { container with mounts := container.mounts ++ mounts } := by
    intro mounts
    induction mounts with
    | nil =>
      intro container
      rw [List.append_nil, List.foldl_nil]
    | cons mount mounts ih =>
      intro container
      rw [List.foldl_cons, ih, List.append_assoc, List.singleton_append]
  rw [readArgs_options valued_volume fun _ _ => rfl]
  simp only [hfold]

theorem readArgs_variables :
    readArgs ((texts.flatMap fun text => ["-e", text]) ++ rest) container = some read ↔
      ∃ entries, texts.map readAssignment = entries.map some ∧
        readArgs rest { container with env := container.env.insertAll entries } = some read := by
  have hfold : ∀ (entries : List (String × String)) (container : Container),
      entries.foldl (fun container entry =>
        { container with env := container.env.insert entry.1 entry.2 }) container =
          { container with env := container.env.insertAll entries } := by
    intro entries
    induction entries with
    | nil => exact fun _ => rfl
    | cons entry entries ih => exact fun container => ih _
  rw [readArgs_options valued_env fun _ _ => rfl]
  simp only [hfold]

/-- What follows the options leaves them as they are. -/
theorem readArgs_imageArgs (h : Positional manifest.image) : ∃ entrypoint arguments,
    readArgs (imageArgs manifest command) container =
      some { container with entrypoint, image := manifest.image, command := arguments } := by
  unfold imageArgs
  split
  next program arguments _ =>
    show ∃ _ _, readArgs ("--entrypoint" :: program :: manifest.image :: _) container = _
    rw [readArgs_valued valued_entrypoint]
    exact ⟨some program, _, readArgs_positional h⟩
  next => exact ⟨container.entrypoint, command, readArgs_positional h⟩

/-- A container with the mounts and the variables that were read. -/
def bounded (manifest : CapsuleManifest) (mounts : List Mount) (entries : List (String × String)) :
    Container where
  network := some Evidence.capsuleNetworkNone
  readOnly := true
  mounts := mounts
  workdir := some manifest.workspace
  env := SortedMap.empty.insertAll entries

theorem readArgs_runArgs {fs : FileSystem} {workspace : Bytes} {inputs : InputMounts} :
    readArgs (runArgs fs manifest workspace inputs command) {} = some read ↔
      ∃ mount mounts entries, readMount (workspaceMount manifest workspace) = some mount ∧
        (presentTops fs inputs).map (fun top => readMount (inputMount manifest inputs.root top)) =
          mounts.map some ∧
        (capsuleEnv manifest).entries.map (fun entry => readAssignment (envText entry)) =
          entries.map some ∧
        readArgs (imageArgs manifest command) (bounded manifest (mount :: mounts) entries) =
          some read := by
  have hargs : runArgs fs manifest workspace inputs command =
      "--rm" :: "--network" :: Evidence.capsuleNetworkNone :: "--read-only" :: "-v" ::
        workspaceMount manifest workspace ::
        ((((presentTops fs inputs).map (inputMount manifest inputs.root)).flatMap fun text =>
            ["-v", text]) ++
          ("-w" :: manifest.workspace ::
            ((((capsuleEnv manifest).entries.map envText).flatMap fun text => ["-e", text]) ++
              imageArgs manifest command))) := by
    rw [List.flatMap_map, List.flatMap_map]
    simp only [runArgs, List.append_assoc, List.cons_append, List.nil_append]
  have hrm : ∀ rest container, readArgs ("--rm" :: rest) container = readArgs rest container :=
    fun _ _ => rfl
  have hro : ∀ rest container, readArgs ("--read-only" :: rest) container =
      readArgs rest { container with readOnly := true } := fun _ _ => rfl
  rw [hargs, hrm, readArgs_valued valued_network, setOption, Option.bind_some, hro,
    readArgs_valued valued_volume, setOption]
  constructor
  · intro h
    obtain ⟨_, hvolume, h⟩ := Option.bind_eq_some_iff.mp h
    obtain ⟨mount, hmount, rfl⟩ := Option.map_eq_some_iff.mp hvolume
    obtain ⟨mounts, hmounts, h⟩ := readArgs_volumes.mp h
    rw [readArgs_valued valued_workdir, setOption, Option.bind_some] at h
    obtain ⟨entries, hentries, h⟩ := readArgs_variables.mp h
    rw [List.map_map] at hmounts hentries
    exact ⟨mount, mounts, entries, hmount, hmounts, hentries, h⟩
  · intro h
    obtain ⟨mount, mounts, entries, hmount, hmounts, hentries, h⟩ := h
    rw [hmount, Option.map_some, Option.bind_some]
    refine readArgs_volumes.mpr ⟨mounts, (List.map_map ..).trans hmounts, ?_⟩
    rw [readArgs_valued valued_workdir, setOption, Option.bind_some]
    exact readArgs_variables.mpr ⟨entries, (List.map_map ..).trans hentries, h⟩

end Reading

/-! ### Paths as they are written -/

section Written
variable {path base : Bytes} {a b : List Char} {manifest : CapsuleManifest} {root : Location}
  {top : Name} {paths : List (List Name)}

theorem display_utf8 (text : String) : display (utf8 text) = text := by
  have hread : String.fromUTF8? ⟨(utf8 text).toArray⟩ = some text := Lossy.fromUTF8?_bytesOf text
  rw [display, hread, Option.getD_some]

/-- A path is spelled when it is what is displayed, and that is a field. -/
theorem spelled_iff : Spelled path ↔ utf8 (display path) = path ∧ Field (display path).toList := by
  constructor
  · intro h
    obtain ⟨text, rfl, hfield⟩ := h
    rw [display_utf8]
    exact ⟨rfl, hfield⟩
  · intro h
    exact ⟨display path, h.1, h.2⟩

theorem joinName_injective (base : Bytes) : Function.Injective (joinName base) := by
  intro a b h
  exact Name.ext_bytes (List.append_cancel_left h)

theorem nameKey_injective : Function.Injective nameKey := by
  intro a b h
  exact Name.ext_bytes (List.map_injective_iff.mpr (fun _ _ h => UInt8.toNat_inj.mp h) h)

theorem mem_topsOf : top ∈ topsOf paths ↔ ∃ path ∈ paths, path.head? = some top := by
  rw [topsOf, destutter_sortByKey nameKey_injective, List.mem_dedup, mem_sortByKey,
    List.mem_filterMap]

theorem nodup_topsOf (paths : List (List Name)) : (topsOf paths).Nodup := by
  rw [topsOf, destutter_sortByKey nameKey_injective]
  exact List.nodup_dedup _

theorem workspaceMount_eq (workspace : Bytes) : workspaceMount manifest workspace =
    .ofList (mountChars (display workspace).toList manifest.workspace.toList false) := by
  rw [← String.toList_inj, String.toList_ofList, workspaceMount]
  simp [mountChars]

theorem inputMount_eq : inputMount manifest root top =
    .ofList (mountChars (display (joinName (locationBytes root) top)).toList
      (display (joinName (utf8 manifest.workspace) top)).toList true) := by
  rw [← String.toList_inj, String.toList_ofList, inputMount]
  simp [mountChars]

theorem mountOf_display {host container : Bytes} (hhost : Spelled host) (hcontainer : Spelled container)
    (readOnly : Bool) : mountOf (display host).toList (display container).toList readOnly =
      ⟨host, container, readOnly⟩ := by
  rw [mountOf, String.ofList_toList, String.ofList_toList, (spelled_iff.mp hhost).1,
    (spelled_iff.mp hcontainer).1]

end Written

/-! ### The boundary -/

section Boundary
variable {fs : FileSystem} {manifest : CapsuleManifest} {workspace : Bytes} {root : Location}
  {inputs : List Path} {top : Name} {tops : List Name} {mount : Mount} {mounts : List Mount}
  {entries : List (String × String)}

theorem readMount_workspace : readMount (workspaceMount manifest workspace) = some mount ∧
      mount.readOnly = false ↔
    Field (display workspace).toList ∧ Field manifest.workspace.toList ∧
      mount = mountOf (display workspace).toList manifest.workspace.toList false := by
  rw [workspaceMount_eq, ← readMount_written]
  simp

theorem readMount_input : readMount (inputMount manifest root top) = some mount ↔
    Field (display (joinName (locationBytes root) top)).toList ∧
      Field (display (joinName (utf8 manifest.workspace) top)).toList ∧
      mount = mountOf (display (joinName (locationBytes root) top)).toList
        (display (joinName (utf8 manifest.workspace) top)).toList true := by
  rw [inputMount_eq, ← readMount_written]
  simp

/-- Mounts that are those declared were read from texts that say what they mean. -/
theorem spelled_of_mounts (htops : ∀ top ∈ tops, FirstOf inputs top)
    (hfirst : readMount (workspaceMount manifest workspace) = some mount)
    (hrest : tops.map (fun top => readMount (inputMount manifest root top)) = mounts.map some)
    (hmounts : ∀ other, other ∈ mount :: mounts ↔ other = ⟨workspace, utf8 manifest.workspace, false⟩ ∨
      ∃ top, FirstOf inputs top ∧ other = topMount manifest root top) :
    (Spelled workspace ∧ Spelled (utf8 manifest.workspace)) ∧
      ∀ top, FirstOf inputs top → Spelled (joinName (locationBytes root) top) ∧
        Spelled (joinName (utf8 manifest.workspace) top) ∧ top ∈ tops := by
  have hread : ∀ other ∈ mounts, ∃ top ∈ tops,
      readMount (inputMount manifest root top) = some other := by
    intro other hother
    have hmem : some other ∈ mounts.map some := List.mem_map_of_mem hother
    rw [← hrest] at hmem
    exact List.mem_map.mp hmem
  have hmount : mount = ⟨workspace, utf8 manifest.workspace, false⟩ := by
    rcases List.mem_cons.mp ((hmounts _).mpr (.inl rfl)) with h | h
    · exact h.symm
    · -- The mount of an input is read-only.
      obtain ⟨top, -, htop⟩ := hread _ h
      exact absurd (congrArg Mount.readOnly (readMount_input.mp htop).2.2) Bool.false_ne_true
  have hworkspace := readMount_workspace.mp ⟨hfirst, congrArg Mount.readOnly hmount⟩
  have hspelled : ∀ top, FirstOf inputs top → Spelled (joinName (locationBytes root) top) ∧
      Spelled (joinName (utf8 manifest.workspace) top) ∧
      ∃ found ∈ tops, utf8 (display (joinName (locationBytes root) found)) =
        joinName (locationBytes root) top := by
    intro top htop
    have hmem : topMount manifest root top ∈ mounts := by
      rcases List.mem_cons.mp ((hmounts _).mpr (.inr ⟨top, htop, rfl⟩)) with h | h
      · rw [hmount] at h
        exact absurd (congrArg Mount.readOnly h) Bool.false_ne_true.symm
      · exact h
    obtain ⟨found, hfound, hinput⟩ := hread _ hmem
    obtain ⟨hhost, hinside, hsame⟩ := readMount_input.mp hinput
    rw [mountOf, String.ofList_toList, String.ofList_toList] at hsame
    have hhostSame := (congrArg Mount.host hsame).symm
    exact ⟨⟨_, hhostSame, hhost⟩, ⟨_, (congrArg Mount.container hsame).symm, hinside⟩, found,
      hfound, hhostSame⟩
  rw [hmount, mountOf, String.ofList_toList, String.ofList_toList] at hworkspace
  refine ⟨⟨⟨_, (congrArg Mount.host hworkspace.2.2).symm, hworkspace.1⟩, _, rfl, hworkspace.2.1⟩, ?_⟩
  intro top htop
  obtain ⟨hhost, hinside, found, hfound, hsame⟩ := hspelled top htop
  refine ⟨hhost, hinside, ?_⟩
  -- What was found is spelled too, so it is this input and no other.
  obtain ⟨hfoundHost, -⟩ := hspelled found (htops found hfound)
  rw [(spelled_iff.mp hfoundHost).1] at hsame
  rw [← joinName_injective _ hsame]
  exact hfound

/-- Texts that say what they mean are read as the mounts declared. -/
theorem read_of_spelled (hworkspace : Spelled workspace) (hmount : Spelled (utf8 manifest.workspace))
    (htops : ∀ top ∈ tops, Spelled (joinName (locationBytes root) top) ∧
      Spelled (joinName (utf8 manifest.workspace) top)) :
    readMount (workspaceMount manifest workspace) =
        some ⟨workspace, utf8 manifest.workspace, false⟩ ∧
      tops.map (fun top => readMount (inputMount manifest root top)) =
        (tops.map (topMount manifest root)).map some := by
  constructor
  · have hdisplay : display (utf8 manifest.workspace) = manifest.workspace := display_utf8 _
    have hsame := mountOf_display hworkspace hmount false
    have hfield := (spelled_iff.mp hmount).2
    rw [hdisplay] at hsame hfield
    exact (readMount_workspace.mpr ⟨(spelled_iff.mp hworkspace).2, hfield, hsame.symm⟩).1
  · rw [List.map_map]
    refine List.map_congr_left ?_
    intro top htop
    obtain ⟨hhost, hinside⟩ := htops top htop
    exact readMount_input.mpr ⟨(spelled_iff.mp hhost).2, (spelled_iff.mp hinside).2,
      (mountOf_display hhost hinside true).symm⟩

theorem nodup_mounts (h : tops.Nodup) :
    (⟨workspace, utf8 manifest.workspace, false⟩ :: tops.map (topMount manifest root) :
      List Mount).Nodup := by
  refine List.nodup_cons.mpr ⟨?_, h.map ?_⟩
  · intro hmem
    obtain ⟨top, -, hsame⟩ := List.mem_map.mp hmem
    exact absurd (congrArg Mount.readOnly hsame) Bool.false_ne_true.symm
  · intro a b hsame
    exact joinName_injective _ (congrArg Mount.host hsame)

/-- A name of the environment is the manifest's or one of the set. -/
theorem mem_keys_capsuleEnv {name : String} : name ∈ (capsuleEnv manifest).keys ↔
    name ∈ manifest.env.map Prod.fst ∨ name ∈ hermeticVariables.map Prod.fst := by
  rw [capsuleEnv, SortedMap.mem_keys_insertAll, SortedMap.mem_keys_insertAll]
  simp [SortedMap.keys]

/-- The variables are read back as they were written when their names are names. -/
theorem read_capsuleEnv (h : NamesRead manifest.env) :
    (capsuleEnv manifest).entries.map (fun entry => readAssignment (envText entry)) =
      (capsuleEnv manifest).entries.map some := by
  refine List.map_congr_left ?_
  intro entry hentry
  refine readAssignment_envText ?_
  rcases mem_keys_capsuleEnv.mp (List.mem_map_of_mem hentry) with hname | hname
  · obtain ⟨other, hother, hsame⟩ := List.mem_map.mp hname
    rw [← hsame]
    exact h other hother
  · have hset : ∀ name ∈ hermeticVariables.map Prod.fst, name.toList ≠ [] ∧ '=' ∉ name.toList := by
      decide
    exact hset _ hname

/-- Variables that were read have names. -/
theorem namesRead_of_read
    (hread : (capsuleEnv manifest).entries.map (fun entry => readAssignment (envText entry)) =
      entries.map some)
    (henv : ∀ name, (SortedMap.empty.insertAll entries).lookup name = (capsuleEnv manifest).lookup name) :
    NamesRead manifest.env := by
  intro entry hentry
  have hkey : entry.1 ∈ (capsuleEnv manifest).keys :=
    mem_keys_capsuleEnv.mpr (.inl (List.mem_map_of_mem hentry))
  obtain ⟨value, hvalue⟩ := SortedMap.mem_keys.mp hkey
  rw [← henv] at hvalue
  have hmem := (SortedMap.mem_keys_insertAll.mp (SortedMap.mem_keys.mpr ⟨value, hvalue⟩)).resolve_left
    List.not_mem_nil
  obtain ⟨found, hfound, hsame⟩ := List.mem_map.mp hmem
  have hsome : some found ∈ entries.map some := List.mem_map_of_mem hfound
  rw [← hread] at hsome
  obtain ⟨written, -, hassigned⟩ := List.mem_map.mp hsome
  rw [← hsame]
  exact readAssignment_eq_some hassigned

theorem lookup_capsuleEnv (name : String) : (capsuleEnv manifest).lookup name =
    ((SortedMap.empty.insertAll hermeticVariables).lookup name).or
      ((SortedMap.empty.insertAll manifest.env).lookup name) :=
  SortedMap.lookup_insertAll _ _ _

end Boundary

/-! ### Capsules -/

section Capsules
variable {c : Crates} {fs : FileSystem} {temporary : TemporaryDirectory} {source : Path}
  {copied : List Name → Except SnapshotError Tree} {step run expected : String} {inputs : List Path}
  {snapshot : InputSnapshot}

theorem mem_topsOf_snapshot
    (h : take c fs temporary copied source step run inputs expected = .ok snapshot) {top : Name} :
    top ∈ topsOf snapshot.paths ↔ FirstOf inputs top := by
  obtain ⟨hvalid, -, copies, -, rfl, -⟩ := take_eq_ok.mp h
  rw [mem_topsOf]
  constructor
  · intro hmem
    obtain ⟨path, hpath, htop⟩ := hmem
    obtain ⟨d, hd, rfl⟩ := mem_of_mem_snapshotPaths hpath
    exact ⟨d, hd, htop⟩
  · intro hmem
    obtain ⟨d, hd, htop⟩ := hmem
    obtain ⟨path, hpath, hprefix⟩ := snapshotPaths_cover hd
    obtain ⟨other, hother, rfl⟩ := mem_of_mem_snapshotPaths hpath
    refine ⟨_, hpath, ?_⟩
    -- What is copied has a name, and the input begins with it.
    obtain ⟨first, rest, hnames⟩ :=
      List.exists_cons_of_ne_nil (validateInputPaths_eq_ok.mp hvalid other hother).2
    obtain ⟨more, hmore⟩ := hprefix
    rw [← hmore, hnames] at htop
    rw [hnames]
    exact htop

/-- **A capsule runs with the declared boundary exactly when nothing of it reads as something
else.** -/
theorem runs_as_declared_iff
    (h : take c fs temporary copied source step run inputs expected = .ok snapshot)
    (manifest : CapsuleManifest) (workspace : Bytes) (command : List String) :
    (∃ container, readArgs (runArgs (temporary.holding snapshot.content) manifest workspace
        ⟨temporary.location, snapshot.paths⟩ command) {} = some container ∧
      RunsAs manifest workspace temporary.location inputs container) ↔
    ReadsBack (temporary.holding snapshot.content) manifest workspace temporary.location inputs := by
  have htops : ∀ top ∈ presentTops (temporary.holding snapshot.content)
      ⟨temporary.location, snapshot.paths⟩, FirstOf inputs top := fun top htop =>
    (mem_topsOf_snapshot h).mp (List.mem_filter.mp htop).1
  constructor
  · intro hruns
    obtain ⟨container, hread, hruns⟩ := hruns
    obtain ⟨mount, mounts, entries, hfirst, hrest, hentries, hread⟩ := readArgs_runArgs.mp hread
    have himage : Positional manifest.image := hruns.image ▸ positional_of_readArgs hread
    obtain ⟨entrypoint, arguments, hkept⟩ := readArgs_imageArgs himage
    obtain rfl := Option.some.inj (hkept.symm.trans hread)
    obtain ⟨⟨hworkspace, hmount⟩, hinputs⟩ := spelled_of_mounts htops hfirst hrest hruns.mounts
    refine ⟨himage, hworkspace, hmount, ?_, ?_⟩
    · intro top htop
      obtain ⟨hhost, hinside, hmem⟩ := hinputs top htop
      exact ⟨hhost, hinside, (List.mem_filter.mp hmem).2⟩
    · refine namesRead_of_read hentries ?_
      intro name
      rw [lookup_capsuleEnv]
      exact hruns.env name
  · intro hreads
    have hpresent : presentTops (temporary.holding snapshot.content)
        ⟨temporary.location, snapshot.paths⟩ = topsOf snapshot.paths := by
      refine List.filter_eq_self.mpr ?_
      intro top htop
      exact (hreads.inputs top ((mem_topsOf_snapshot h).mp htop)).2.2
    obtain ⟨hfirst, hrest⟩ := read_of_spelled hreads.workspace hreads.mount fun top htop =>
      have hinput := hreads.inputs top (htops top htop)
      ⟨hinput.1, hinput.2.1⟩
    obtain ⟨entrypoint, arguments, hkept⟩ := readArgs_imageArgs hreads.image
    refine ⟨_, readArgs_runArgs.mpr ⟨_, _, _, hfirst, hrest, read_capsuleEnv hreads.env, hkept⟩, ?_⟩
    refine ⟨rfl, rfl, ?_, ?_, ?_, rfl⟩
    · rw [hpresent]
      exact nodup_mounts (nodup_topsOf _)
    · intro mount
      rw [hpresent]
      show mount ∈ _ :: _ ↔ _
      simp only [List.mem_cons, List.mem_map, mem_topsOf_snapshot h, eq_comm]
    · intro name
      rw [← lookup_capsuleEnv]
      exact congrArg (SortedMap.lookup · name) (SortedMap.insertAll_entries _)

end Capsules

/-! A capsule with an image that is one, and one whose image begins an option. -/

def imageOf (repo : String) : String :=
  repo ++ "@sha256:" ++ "0000000000000000000000000000000000000000000000000000000000000000"

def capsuleWith (image : String) : CapsuleManifest where
  format := Evidence.capsuleFormat
  name := "build"
  image := image
  entrypoint := none
  env := [("A", "1")]
  workspace := "/work"
  network := Evidence.capsuleNetworkNone
  capsuleHash := none

theorem namesRead_capsuleWith (image : String) : NamesRead (capsuleWith image).env := by
  intro entry hentry
  cases List.mem_singleton.mp hentry
  decide

def takenA : InputSnapshot :=
  ⟨[[nameA]], Tree.emptyDir.planted [([nameA], .file (utf8 "x"))]⟩

theorem take_takenA : ∃ expected, take cratesOfX (filesOfX [nameA]) elsewhere
    (copyInput (filesOfX [nameA]) (.ofString "/w")) (.ofString "/w") "build" "true" [.ofString "a"]
      expected = .ok takenA := by
  have hpaths : snapshotPaths [.ofString "a"] = [[nameA]] :=
    snapshotPaths_of_sorted (List.pairwise_singleton _ _)
  refine ⟨_, take_eq_ok.mpr ⟨rfl, ⟨[nameW], rfl, by decide⟩, [([nameA], .file (utf8 "x"))], ?_, ?_,
    hashInputs_of_entries rfl⟩⟩
  · rw [hpaths]
    rfl
  · rw [hpaths]
    rfl

theorem runs_as_declared_busybox : ∃ container,
    readArgs (runArgs (elsewhere.holding takenA.content) (capsuleWith (imageOf "busybox"))
      (utf8 "/w") ⟨elsewhere.location, takenA.paths⟩ ["true"]) {} = some container ∧
    RunsAs (capsuleWith (imageOf "busybox")) (utf8 "/w") elsewhere.location [.ofString "a"]
      container := by
  obtain ⟨expected, htake⟩ := take_takenA
  refine (runs_as_declared_iff htake _ _ _).mpr ⟨by decide, ⟨"/w", rfl, by decide, by decide⟩,
    ⟨"/work", rfl, by decide, by decide⟩, ?_, ?_⟩
  · intro top htop
    obtain ⟨d, hd, htop⟩ := htop
    cases List.mem_singleton.mp hd
    have hname : top = nameA := (Option.some.inj htop).symm
    rw [hname]
    exact ⟨⟨"/t/a", rfl, by decide, by decide⟩, ⟨"/work/a", rfl, by decide, by decide⟩, rfl⟩
  · exact namesRead_capsuleWith _

/-- An accepted image reference that is read as a variable, whatever image is then run. -/
theorem image_read_as_option :
    (capsuleWith (imageOf "-eB=x")).validate = .ok () ∧
      (∃ expected, take cratesOfX (filesOfX [nameA]) elsewhere
        (copyInput (filesOfX [nameA]) (.ofString "/w")) (.ofString "/w") "build" "true"
        [.ofString "a"] expected = .ok takenA) ∧
      ¬ ∃ container, readArgs (runArgs (elsewhere.holding takenA.content)
          (capsuleWith (imageOf "-eB=x")) (utf8 "/w") ⟨elsewhere.location, takenA.paths⟩
          ["sh", "-c", "true"]) {} = some container ∧
        RunsAs (capsuleWith (imageOf "-eB=x")) (utf8 "/w") elsewhere.location [.ofString "a"]
          container := by
  refine ⟨by decide, take_takenA, ?_⟩
  intro hruns
  obtain ⟨container, hread, hruns⟩ := hruns
  have hpositional := positional_of_readArgs hread
  rw [hruns.image] at hpositional
  exact absurd hpositional (by decide)

end Attest.Executor.CapsuleRun
