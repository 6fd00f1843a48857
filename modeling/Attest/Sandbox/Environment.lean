import Attest.Sandbox.Command
import Attest.Trust.Specs
import Attest.Trust.Time

/-! The variables of a step that runs as a process.

What a command sees is put together from the runner's environment, the variables that the
step declares and those of deterministic time, layer over layer. A step without isolation
has the time over its own variables and an isolated one its own over the time, so the two
agree as long as no variable is set to two values (`overlay_comm_iff`). Reading the whole
environment stops the runner where a variable is not Unicode; a command that inherits it
unread does not. -/
namespace Attest.Sandbox
open Library
open Trust (Bytes DateTime fromUTF8?_utf8 utf8 utf8_of_fromUTF8? utf8_injective)

/-! ### Deterministic time -/

structure DeterministicTime where
  fixedTimestamp : Option DateTime
  startTime : DateTime

namespace DeterministicTime

theorem defaultStart_inRange : Trust.minSecs ≤ 1704067200 ∧ 1704067200 ≤ Trust.maxSecs := by decide

/-- 2024-01-01T00:00:00Z. -/
def defaultStart : DateTime := ⟨1704067200, 0, defaultStart_inRange, DateTime.zero_nanos_lt⟩

def new (fixedTimestamp : Option DateTime) : DeterministicTime :=
  ⟨fixedTimestamp, fixedTimestamp.getD defaultStart⟩

/-- Nothing advances the virtual time. -/
def currentTime (time : DeterministicTime) : DateTime := time.fixedTimestamp.getD time.startTime

/-- `%H:%M:%S`. -/
def clockText (t : DateTime) : String :=
  let second := (t.secs % 86400).toNat
  DateTime.padded 2 (second / 3600) ++ ":" ++ DateTime.padded 2 (second / 60 % 60) ++ ":" ++
    DateTime.padded 2 (second % 60 + t.nanos / 1000000000)

def environmentVariables (time : DeterministicTime) : SortedMap String String :=
  let current := time.currentTime
  let timestamp := toString current.secs
  let (year, month, day) := DateTime.civil (current.secs / 86400)
  let second := (current.secs % 86400).toNat
  SortedMap.empty.insertAll [
    ("ATTEST_DETERMINISTIC_TIME", "1"),
    ("ATTEST_FIXED_TIMESTAMP", timestamp),
    ("ATTEST_FIXED_TIME_RFC3339", current.toRfc3339),
    ("ATTEST_UNIX_TIMESTAMP", timestamp),
    ("ATTEST_UNIX_TIMESTAMP_MS", toString (current.secs * 1000 + current.nanos / 1000000)),
    ("ATTEST_YEAR", DateTime.yearText year),
    ("ATTEST_MONTH", DateTime.padded 2 month),
    ("ATTEST_DAY", DateTime.padded 2 day),
    ("ATTEST_HOUR", DateTime.padded 2 (second / 3600)),
    ("ATTEST_MINUTE", DateTime.padded 2 (second / 60 % 60)),
    ("ATTEST_SECOND", DateTime.padded 2 (second % 60 + current.nanos / 1000000000)),
    ("ATTEST_ISO_DATE", current.dateText),
    ("ATTEST_ISO_DATETIME", current.dateText ++ "T" ++ clockText current ++ "Z"),
    ("BUILD_TIMESTAMP", timestamp),
    ("BUILD_DATE", current.dateText),
    ("BUILD_TIME", clockText current),
    ("SOURCE_DATE_EPOCH", timestamp)]

end DeterministicTime

/-! ### Variables -/

/-- An environment, by what a name is found to be. -/
abbrev Variables := Bytes → Option Bytes

/-- `HashMap::extend`: what is new counts. -/
def overlay (base new : Variables) : Variables := fun name => (new name).or (base name)

def noVariables : Variables := fun _ => none

def ofMap (m : SortedMap String String) : Variables := fun name => do
  let key ← String.fromUTF8? ⟨name.toArray⟩
  let value ← m.lookup key
  return utf8 value

/-- The runner's own environment, whose names and values are any bytes. -/
abbrev Ambient := AList (fun _ : Bytes => Bytes)

def isUnicode (bytes : Bytes) : Bool := (String.fromUTF8? ⟨bytes.toArray⟩).isSome

def Ambient.unicode (ambient : Ambient) : Bool :=
  ambient.entries.all fun entry => isUnicode entry.1 && isUnicode entry.2

/-- `std::env::vars`, which stops the program at a name or a value that is not Unicode. -/
def Ambient.vars (ambient : Ambient) : Option Variables :=
  if ambient.unicode then some ambient.lookup else none

/-- `std::env::var("PATH").ok()`, as the one variable it is. -/
def Ambient.path (ambient : Ambient) : Variables := fun name =>
  if name = utf8 "PATH" then (ambient.lookup name).filter isUnicode else none

/-- The variables a command is given, and whether it is given nothing else. -/
structure CommandEnv where
  clears : Bool
  vars : Variables

/-- The environment that the command is started with. -/
def CommandEnv.capture (env : CommandEnv) (ambient : Ambient) : Variables :=
  if env.clears then env.vars else overlay ambient.lookup env.vars

section Modes
variable (config : SandboxConfig) (time : Option DeterministicTime) (ambient : Ambient)
  (env : SortedMap String String)

def timeVariables : Variables :=
  match time with
  | none => noVariables
  | some time => ofMap time.environmentVariables

/-- The variables of `execute_direct`; nothing where it stops. -/
def directEnv : Option CommandEnv := do
  let ambientEnv ← if config.inheritEnvironment then ambient.vars else some ambient.path
  let effective := overlay ambientEnv (ofMap env)
  return ⟨!config.inheritEnvironment, overlay effective (timeVariables time)⟩

/-- The variables of `execute_unix_isolated`. -/
def unixIsolatedEnv : CommandEnv :=
  let effective := overlay (timeVariables time) (ofMap env)
  if config.inheritEnvironment then ⟨false, effective⟩
  else
    let path := if (effective (utf8 "PATH")).isNone then ambient.path else noVariables
    ⟨true, overlay path effective⟩

end Modes

/-! ### Layers -/

section Layers
variable {base a b : Variables} {name value : Bytes}

/-- Two layers can be laid either way round exactly where they agree on what both set. -/
theorem overlay_comm_iff : overlay (overlay base a) b = overlay base (overlay b a) ↔
    ∀ name v w, a name = some v → b name = some w → v = w := by
  constructor
  · intro h name v w ha hb
    have hname := congrFun h name
    unfold overlay at hname
    rw [ha, hb] at hname
    exact (Option.some.inj hname).symm
  · intro h
    funext name
    unfold overlay
    cases ha : a name with
    | none => rfl
    | some v =>
      cases hb : b name with
      | none => rfl
      | some w =>
        rw [h name v w ha hb]
        rfl

/-- A layer over a copy of itself. -/
theorem overlay_self : overlay base (overlay (overlay base a) b) = overlay (overlay base a) b := by
  funext name
  unfold overlay
  cases b name <;> cases a name <;> cases base name <;> rfl

theorem ofMap_eq_some {m : SortedMap String String} : ofMap m name = some value ↔
    ∃ key text, name = utf8 key ∧ m.lookup key = some text ∧ value = utf8 text := by
  unfold ofMap
  constructor
  · intro h
    obtain ⟨key, hkey, h⟩ := Option.bind_eq_some_iff.mp h
    obtain ⟨text, htext, h⟩ := Option.bind_eq_some_iff.mp h
    cases h
    exact ⟨key, text, (utf8_of_fromUTF8? hkey).symm, htext, rfl⟩
  · intro ⟨key, text, hname, htext, hvalue⟩
    rw [hname, fromUTF8?_utf8, hvalue]
    show (m.lookup key >>= fun value => some (utf8 value)) = some (utf8 text)
    rw [htext]
    rfl

/-- Whether the kept path is left out or laid under one that is set makes no difference. -/
theorem overlay_path (ambient : Ambient) : overlay
    (if (a (utf8 "PATH")).isNone then ambient.path else noVariables) a = overlay ambient.path a := by
  funext name
  unfold overlay
  split
  next => rfl
  next hset =>
    cases hname : a name with
    | some value => rfl
    | none =>
      have hother : name ≠ utf8 "PATH" := by
        intro heq
        rw [← heq, hname] at hset
        exact hset rfl
      show none = ambient.path name
      unfold Ambient.path
      rw [if_neg hother]

end Layers

/-! ### The two modes -/

section Same
variable {config : SandboxConfig} {time : Option DeterministicTime} {ambient : Ambient}
  {env : SortedMap String String}

/-- What a command without isolation sees: the time over the step's own variables. -/
theorem capture_direct : (directEnv config time ambient env).map (·.capture ambient) =
    (if config.inheritEnvironment then ambient.vars else some ambient.path).map fun base =>
      overlay (overlay base (ofMap env)) (timeVariables time) := by
  unfold directEnv CommandEnv.capture
  cases config.inheritEnvironment with
  | false => rfl
  | true =>
    unfold Ambient.vars
    cases ambient.unicode with
    | false => rfl
    | true => exact congrArg some overlay_self

/-- What an isolated command sees: the step's own variables over the time. -/
theorem capture_unixIsolated : (unixIsolatedEnv config time ambient env).capture ambient =
    overlay (if config.inheritEnvironment then ambient.lookup else ambient.path)
      (overlay (timeVariables time) (ofMap env)) := by
  unfold unixIsolatedEnv CommandEnv.capture
  cases config.inheritEnvironment with
  | false => exact overlay_path ambient
  | true => rfl

theorem agree_iff : (∀ name v w, ofMap env name = some v → timeVariables time name = some w → v = w) ↔
    ∀ t, time = some t → ∀ key v w, env.lookup key = some v →
      t.environmentVariables.lookup key = some w → v = w := by
  constructor
  · intro h t htime key v w hv hw
    subst htime
    have hv := ofMap_eq_some.mpr ⟨key, v, rfl, hv, rfl⟩
    have hw := ofMap_eq_some.mpr ⟨key, w, rfl, hw, rfl⟩
    exact utf8_injective (h _ _ _ hv hw)
  · intro h name v w hv hw
    cases time with
    | none => cases hw
    | some t =>
      obtain ⟨key, text, hname, hkey, hvalue⟩ := ofMap_eq_some.mp hv
      obtain ⟨key', text', hname', hkey', hvalue'⟩ := ofMap_eq_some.mp hw
      have hsame := utf8_injective (hname.symm.trans hname')
      subst hsame
      rw [hvalue, hvalue', h t rfl key text text' hkey hkey']

/-- A step sees the same variables in both modes exactly where reading the runner's
environment does not stop the run without isolation, and no variable that the step
declares is set to something else by deterministic time. -/
theorem sees_same_iff (config : SandboxConfig) (time : Option DeterministicTime)
    (ambient : Ambient) (env : SortedMap String String) :
    (directEnv config time ambient env).map (·.capture ambient) =
        some ((unixIsolatedEnv config time ambient env).capture ambient) ↔
      (config.inheritEnvironment = true → ambient.unicode = true) ∧
        ∀ t, time = some t → ∀ key v w, env.lookup key = some v →
          t.environmentVariables.lookup key = some w → v = w := by
  rw [capture_direct, capture_unixIsolated, ← agree_iff]
  cases config.inheritEnvironment with
  | false =>
    rw [if_neg Bool.false_ne_true, if_neg Bool.false_ne_true, Option.map_some, Option.some_inj,
      overlay_comm_iff]
    simp
  | true =>
    rw [if_pos rfl, if_pos rfl]
    unfold Ambient.vars
    cases ambient.unicode with
    | false => simp
    | true =>
      rw [if_pos rfl, Option.map_some, Option.some_inj, overlay_comm_iff]
      simp

/-- `SandboxConfig::default`. -/
def defaultConfig : SandboxConfig where
  isolationLevel := .process
  resourceLimits := ⟨none, some ⟨"1"⟩, none, some 1000⟩
  networkPolicy := .disabled
  containerConfig := none
  seccompProfile := some "minimal"
  securityLevel := .minimal
  inheritEnvironment := true

/-- A step that pins the epoch of its build. -/
def pinnedEnv : SortedMap String String := SortedMap.empty.insert "SOURCE_DATE_EPOCH" "1"

theorem lookup_sourceDateEpoch (time : DeterministicTime) :
    time.environmentVariables.lookup "SOURCE_DATE_EPOCH" =
      some (toString time.currentTime.secs) := by
  show (SortedMap.insert _ "SOURCE_DATE_EPOCH" _).lookup "SOURCE_DATE_EPOCH" = _
  rw [SortedMap.lookup_insert, if_pos rfl]

/-- With the default configuration the step sees the epoch it has pinned or that of
deterministic time, by the mode it runs in. -/
theorem pinned_epoch_differs :
    (directEnv defaultConfig (some (.new none)) ∅ pinnedEnv).map (·.capture ∅) ≠
      some ((unixIsolatedEnv defaultConfig (some (.new none)) ∅ pinnedEnv).capture ∅) := by
  intro h
  rw [capture_direct, capture_unixIsolated] at h
  have hagree := agree_iff.mp (overlay_comm_iff.mp (Option.some.inj h)) _ rfl "SOURCE_DATE_EPOCH"
    "1" "1704067200" (by rw [pinnedEnv, SortedMap.lookup_insert, if_pos rfl])
    (lookup_sourceDateEpoch _)
  exact absurd hagree (by decide)

end Same

end Attest.Sandbox
