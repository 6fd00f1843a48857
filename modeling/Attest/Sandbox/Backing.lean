import Attest.Sandbox.Command
import Attest.Library.Text

/-! Which rows of the report the command applies. -/
namespace Attest.Sandbox
open Library
open Storage (ControlStatus IsolationControl IsolationReport)

/-! ### What a row says of the command -/

/-- The report lists the control as enforced. -/
def Enforced (report : IsolationReport) (name : String) : Prop :=
  ∃ row ∈ report.controls, row.name = name ∧ row.status = .enforced

/-- A memory limit of so many megabytes. -/
def AppliesMemory (command : BuiltCommand) (memory : UInt64) : Prop :=
  (∃ limit, (Resource.addressSpace, limit) ∈ command.rlimits ∧
    limit.toNat = memory.toNat * 1024 * 1024) ∨
  ("--memory", some s!"{memory}m") ∈ command.options

/-- A limit on open files: the configured one on a process, any on a container. -/
def AppliesOpenFiles (config : SandboxConfig) (command : BuiltCommand) : Prop :=
  (∃ files, config.resourceLimits.maxFiles = some files ∧
    (Resource.openFiles, files) ∈ command.rlimits) ∨
  ∃ limit, ("--ulimit", some ("nofile=" ++ limit)) ∈ command.options

/-- Nothing of the runner's environment: it is cleared, or variables are given one by one. -/
def AppliesEnvironment (command : BuiltCommand) : Prop :=
  command.clearsEnv = true ∨
    command.options ≠ [] ∧
      ∀ value, ("-e", value) ∈ command.options → ∃ key text, value = some (key ++ "=" ++ text)

/-- The profile the report names is passed. -/
def AppliesProfile (config : SandboxConfig) (command : BuiltCommand) : Prop :=
  (∃ file, ("--security-opt", some ("seccomp=" ++ file)) ∈ command.options) ∧
    command.profile = some (reportedProfile config)

/-- The run is over when the configured time has passed. -/
def BoundedBy (command : BuiltCommand) (timeout : UInt64) : Prop :=
  ∃ limit, command.killAfter = some limit ∧ limit ≤ timeout

/-- Every row that is listed as enforced is applied by the command. -/
structure RowsBacked (report : IsolationReport) (config : SandboxConfig) (command : BuiltCommand) :
    Prop where
  network : Enforced report "network" → ("--network", some "none") ∈ command.options
  filesystem : Enforced report "filesystem" → ("--read-only", none) ∈ command.options
  capabilities : Enforced report "capabilities" → AppliesProfile config command
  environment : Enforced report "environment" → AppliesEnvironment command
  memory : Enforced report "memory" → ∀ memory, config.resourceLimits.memoryMb = some memory →
    AppliesMemory command memory
  openFiles : Enforced report "open-files" → AppliesOpenFiles config command
  cpu : Enforced report "cpu" → ∀ cores, config.resourceLimits.cpuCores = some cores →
    ("--cpus", some cores.text) ∈ command.options
  timeout : Enforced report "timeout" → ∀ timeout, config.resourceLimits.timeoutSecs = some timeout →
    BoundedBy command timeout

/-! ### When they are -/

/-- The limits a container is really run with are the configured ones. -/
structure LimitsAgree (limits : ResourceLimits) (used : ContainerLimits) : Prop where
  memory : limits.memoryMb = none ∨ limits.memoryMb = used.memoryMb
  cpu : limits.cpuCores = none ∨ limits.cpuCores = used.cpuCores
  timeout : limits.timeoutSecs = none

/-- The configurations whose report is kept. -/
def Kept (platform : Platform) (config : SandboxConfig) (hermeticEnv : Bool) : Prop :=
  match config.isolationLevel with
  | .none => hermeticEnv = true → config.inheritEnvironment = false
  | .vm => True
  | .process => platform.unix = true →
      ∀ memory, config.resourceLimits.memoryMb = some memory → memory.toNat * 1024 * 1024 < 2 ^ 64
  | .container => ∀ container, config.containerConfig = some container →
      LimitsAgree config.resourceLimits plainLimits ∧
        (container.runtime = .containerd → config.networkPolicy ≠ .disabled ∧
          config.resourceLimits.memoryMb = none ∧ config.resourceLimits.cpuCores = none)
  | .strictContainer => ∀ container, config.containerConfig = some container →
      LimitsAgree config.resourceLimits (createResourceLimits config.securityLevel) ∧
        reportedProfile config = config.securityLevel.text ∧ container.runtime ≠ .containerd ∧
        (config.securityLevel = .maximum → container.runtime = .docker)

/-! ### The rows of the report -/

section Rows
variable {platform : Platform} {config : SandboxConfig} {hermeticEnv : Bool}

theorem enforced_limitControl {name enforced missing : String} {set : Bool} :
    (limitControl name enforced missing set).status = .enforced ↔ set = true := by
  cases set <;> simp [limitControl]

theorem name_limitControl (name enforced missing : String) (set : Bool) :
    (limitControl name enforced missing set).name = name := by
  cases set <;> rfl

theorem name_rlimitControl (platform : Platform) (name what : String) (set : Bool) :
    (rlimitControl platform name what set).name = name := by
  unfold rlimitControl
  split
  · rfl
  · split <;> rfl

theorem enforced_rlimitControl {name what : String} {set : Bool} :
    (rlimitControl platform name what set).status = .enforced ↔
      platform.unix = true ∧ set = true := by
  unfold rlimitControl
  cases platform.unix <;> cases set <;> simp

theorem name_containerNetworkControl (policy : NetworkPolicy) :
    (containerNetworkControl policy).name = "network" := by
  unfold containerNetworkControl
  split <;> rfl

theorem enforced_containerNetworkControl {policy : NetworkPolicy} :
    (containerNetworkControl policy).status = .enforced ↔ policy = .disabled := by
  cases policy <;> simp [containerNetworkControl]

theorem name_environmentControl (hermeticEnv : Bool) :
    (environmentControl hermeticEnv).name = "environment" := by
  cases hermeticEnv <;> rfl

theorem enforced_environmentControl :
    (environmentControl hermeticEnv).status = .enforced ↔ hermeticEnv = true := by
  cases hermeticEnv <;> simp [environmentControl]

attribute [local simp] name_limitControl enforced_limitControl name_rlimitControl
  enforced_rlimitControl name_containerNetworkControl enforced_containerNetworkControl
  name_environmentControl enforced_environmentControl

/-- The rows without isolation: only the environment can be enforced. -/
theorem enforced_unisolated {name : String} :
    Enforced (unisolatedReport platform hermeticEnv) name ↔
      "environment" = name ∧ hermeticEnv = true := by
  simp [Enforced, unisolatedReport]

theorem enforced_process {name : String} (h : config.isolationLevel = .process) :
    Enforced (isolationReport platform config hermeticEnv) name ↔
      "environment" = name ∧ (hermeticEnv = true ∧ config.inheritEnvironment = false) ∨
      "memory" = name ∧ platform.unix = true ∧ config.resourceLimits.memoryMb.isSome = true ∨
      "open-files" = name ∧ platform.unix = true ∧ config.resourceLimits.maxFiles.isSome = true ∨
      "timeout" = name ∧ config.resourceLimits.timeoutSecs.isSome = true := by
  simp [Enforced, isolationReport, h, processControls]

theorem enforced_container {name : String} (h : config.isolationLevel = .container) :
    Enforced (isolationReport platform config hermeticEnv) name ↔
      "network" = name ∧ config.networkPolicy = .disabled ∨
      "environment" = name ∨
      "memory" = name ∧ config.resourceLimits.memoryMb.isSome = true ∨
      "cpu" = name ∧ config.resourceLimits.cpuCores.isSome = true ∨
      "timeout" = name ∧ config.resourceLimits.timeoutSecs.isSome = true := by
  simp [Enforced, isolationReport, h, containerControls]

theorem enforced_strict {name : String} (h : config.isolationLevel = .strictContainer) :
    Enforced (isolationReport platform config hermeticEnv) name ↔
      "network" = name ∧ config.networkPolicy = .disabled ∨
      "filesystem" = name ∧ config.securityLevel ≠ .minimal ∨
      "capabilities" = name ∨ "environment" = name ∨
      "memory" = name ∧ config.resourceLimits.memoryMb.isSome = true ∨
      "open-files" = name ∧ config.securityLevel = .maximum ∨
      "cpu" = name ∧ config.resourceLimits.cpuCores.isSome = true ∨
      "timeout" = name ∧ config.resourceLimits.timeoutSecs.isSome = true := by
  simp [Enforced, isolationReport, h, strictControls]

end Rows

/-! ### The options of a command line -/

section Options
variable {run : ContainerRunConfig} {value : Option String}

/-- What is asked of the runtime besides its limits is asked under four names. -/
theorem mem_commonOptions {flag : String}
    (h : flag ≠ "-e" ∧ flag ≠ "-v" ∧ flag ≠ "-w" ∧ flag ≠ "--user") :
    (flag, value) ∈ commonOptions run ↔ (flag, value) ∈ limitOptions run.resourceLimits := by
  obtain ⟨he, hv, hw, hu⟩ := h
  simp [commonOptions, envOptions, volumeOptions, placeOptions, he.symm, hv.symm, hw.symm, hu.symm]

theorem mem_limitOptions_memory {limits : ContainerLimits} :
    ("--memory", value) ∈ limitOptions limits ↔
      ∃ memory, limits.memoryMb = some memory ∧ value = some s!"{memory}m" := by
  simp [limitOptions, eq_comm]

theorem mem_limitOptions_cpu {limits : ContainerLimits} :
    ("--cpus", value) ∈ limitOptions limits ↔
      ∃ cpu, limits.cpuCores = some cpu ∧ value = some cpu.text := by
  simp [limitOptions, eq_comm]

theorem mem_limitOptions_other {limits : ContainerLimits} {flag : String}
    (h : flag ≠ "--memory" ∧ flag ≠ "--cpus") : (flag, value) ∉ limitOptions limits := by
  simp [limitOptions, h.1.symm, h.2.symm]

end Options

/-! ### Level by level -/

section Levels
variable {platform : Platform} {config : SandboxConfig} {hermeticEnv : Bool} {run : Invocation}
  {timeout : Option UInt64}

theorem appliesEnvironment_direct :
    AppliesEnvironment (directCommand config run timeout) ↔ config.inheritEnvironment = false := by
  simp [AppliesEnvironment, directCommand]

theorem backed_none :
    RowsBacked (unisolatedReport platform hermeticEnv) config (directCommand config run timeout) ↔
      (hermeticEnv = true → config.inheritEnvironment = false) := by
  constructor
  · intro h hhermetic
    exact appliesEnvironment_direct.mp (h.environment (enforced_unisolated.mpr ⟨rfl, hhermetic⟩))
  · intro h
    constructor
    case environment =>
      intro henforced
      exact appliesEnvironment_direct.mpr (h (enforced_unisolated.mp henforced).2)
    all_goals
      intro henforced
      exact absurd (enforced_unisolated.mp henforced).1 (by decide)

/-- The configured time bounds the effective one. -/
theorem effectiveTimeout_le (step : Option UInt64) (configured : UInt64) :
    ∃ limit, effectiveTimeout step (some configured) = some limit ∧ limit ≤ configured := by
  cases step with
  | none => exact ⟨configured, rfl, UInt64.le_refl configured⟩
  | some a =>
    refine ⟨min a configured, rfl, ?_⟩
    show (if a ≤ configured then a else configured) ≤ configured
    split
    next hle => exact hle
    next => exact UInt64.le_refl configured

/-- The product of the megabytes does not wrap. -/
theorem toNat_megabytes {memory : UInt64} :
    (memory * 1024 * 1024).toNat = memory.toNat * 1024 * 1024 ↔
      memory.toNat * 1024 * 1024 < 2 ^ 64 := by
  constructor
  · intro h
    rw [← h]
    exact UInt64.toNat_lt _
  · intro h
    have hinner : memory.toNat * 1024 < 2 ^ 64 :=
      lt_of_le_of_lt (Nat.le_mul_of_pos_right _ (by decide)) h
    rw [UInt64.toNat_mul, UInt64.toNat_mul]
    show (memory.toNat * 1024 % 2 ^ 64) * 1024 % 2 ^ 64 = _
    rw [Nat.mod_eq_of_lt hinner, Nat.mod_eq_of_lt h]

theorem appliesMemory_unix {memory : UInt64} (h : config.resourceLimits.memoryMb = some memory) :
    AppliesMemory (unixIsolatedCommand config run timeout) memory ↔
      memory.toNat * 1024 * 1024 < 2 ^ 64 := by
  rw [← toNat_megabytes]
  simp [AppliesMemory, unixIsolatedCommand, directCommand, h]

theorem backed_process_unix (hlevel : config.isolationLevel = .process)
    (hunix : platform.unix = true) :
    RowsBacked (isolationReport platform config hermeticEnv) config
        (unixIsolatedCommand config run
          (effectiveTimeout run.timeoutSecs config.resourceLimits.timeoutSecs)) ↔
      ∀ memory, config.resourceLimits.memoryMb = some memory →
        memory.toNat * 1024 * 1024 < 2 ^ 64 := by
  constructor
  · intro h memory hmemory
    have henforced := (@enforced_process platform config hermeticEnv "memory" hlevel).mpr
      (.inr (.inl ⟨rfl, hunix, by simp [hmemory]⟩))
    exact (appliesMemory_unix hmemory).mp (h.memory henforced memory hmemory)
  · intro h
    constructor
    case environment =>
      intro henforced
      simp only [enforced_process hlevel, true_and, String.reduceEq, false_and, or_false]
        at henforced
      exact .inl (by simp [unixIsolatedCommand, directCommand, henforced.2])
    case memory =>
      intro _ memory hmemory
      exact (appliesMemory_unix hmemory).mpr (h memory hmemory)
    case openFiles =>
      intro henforced
      have hfiles : config.resourceLimits.maxFiles.isSome = true := by
        simpa [enforced_process hlevel, hunix] using henforced
      obtain ⟨files, hfiles⟩ := Option.isSome_iff_exists.mp hfiles
      exact .inl ⟨files, hfiles, by simp [unixIsolatedCommand, hfiles]⟩
    case timeout =>
      intro _ timeout htimeout
      rw [htimeout]
      exact effectiveTimeout_le run.timeoutSecs timeout
    all_goals
      intro henforced
      simp [enforced_process hlevel] at henforced

theorem backed_process_other (hlevel : config.isolationLevel = .process)
    (hunix : platform.unix = false) :
    RowsBacked (isolationReport platform config hermeticEnv) config
      (directCommand config run
        (effectiveTimeout run.timeoutSecs config.resourceLimits.timeoutSecs)) := by
  constructor
  case environment =>
    intro henforced
    simp only [enforced_process hlevel, true_and, String.reduceEq, false_and, or_false] at henforced
    exact appliesEnvironment_direct.mpr henforced.2
  case timeout =>
    intro _ timeout htimeout
    rw [htimeout]
    exact effectiveTimeout_le run.timeoutSecs timeout
  all_goals
    intro henforced
    simp [enforced_process hlevel, hunix] at henforced

end Levels

/-! ### Containers -/

section Containers
variable {platform : Platform} {config : SandboxConfig} {hermeticEnv : Bool} {run : Invocation}
  {container : ContainerConfig} {accessible : String → Bool}

theorem memoryText_inj {a b : UInt64} (h : s!"{a}m" = s!"{b}m") : a = b := by
  have hlist := congrArg String.toList h
  have htext : (toString a).toList = (toString b).toList := by
    simpa [String.toList_append] using hlist
  have hdigits : Nat.toDigits 10 a.toNat = Nat.toDigits 10 b.toNat := by
    simpa [ToString.toString, Nat.repr, String.toList_inj, String.ofList_inj] using htext
  apply UInt64.toNat_inj.mp
  have hvalue := congrArg (fun digits => Nat.ofDigitChars 10 digits 0) hdigits
  simpa using hvalue

/-- The options of a container runtime that takes options. -/
structure TakesOptions (command : BuiltCommand) (network : String) (limits : ContainerLimits) :
    Prop where
  network : ("--network", some network) ∈ command.options
  memory : ∀ value, ("--memory", value) ∈ command.options ↔
    ∃ memory, limits.memoryMb = some memory ∧ value = some s!"{memory}m"
  cpu : ∀ value, ("--cpus", value) ∈ command.options ↔
    ∃ cpu, limits.cpuCores = some cpu ∧ value = some cpu.text
  environment : AppliesEnvironment command
  killed : command.killAfter = none
  rlimits : command.rlimits = []

/-- An option that asks for no limit and gives no variable. -/
def Aside (option : String × Option String) : Prop :=
  option.1 ≠ "--memory" ∧ option.1 ≠ "--cpus" ∧ option.1 ≠ "-e"

theorem mem_of_aside {others : List (String × Option String)} (haside : ∀ option ∈ others, Aside option)
    {flag : String} {value : Option String} (hflag : ¬ Aside (flag, value)) :
    (flag, value) ∉ others :=
  fun hmem => hflag (haside _ hmem)

theorem takesOptions {command : BuiltCommand} (config : ContainerRunConfig)
    (others : List (String × Option String)) (haside : ∀ option ∈ others, Aside option)
    (hoptions : ∀ option, option ∈ command.options ↔ option = ("run", none) ∨
      option ∈ nameOptions config ∨ option ∈ commonOptions config ∨ option ∈ others)
    (hkilled : command.killAfter = none) (hrlimits : command.rlimits = []) :
    TakesOptions command config.networkMode config.resourceLimits := by
  refine ⟨?_, ?_, ?_, .inr ⟨?_, ?_⟩, hkilled, hrlimits⟩
  · rw [hoptions]
    exact .inr (.inl (by simp [nameOptions]))
  · intro value
    have hothers : ("--memory", value) ∉ others := mem_of_aside haside (by simp [Aside])
    rw [hoptions, mem_commonOptions (by decide), mem_limitOptions_memory]
    simp [nameOptions, hothers]
  · intro value
    have hothers : ("--cpus", value) ∉ others := mem_of_aside haside (by simp [Aside])
    rw [hoptions, mem_commonOptions (by decide), mem_limitOptions_cpu]
    simp [nameOptions, hothers]
  · intro hnil
    have hrun := (hoptions ("run", none)).mpr (.inl rfl)
    rw [hnil] at hrun
    cases hrun
  · intro value hvalue
    have hothers : ("-e", value) ∉ others := mem_of_aside haside (by simp [Aside])
    rw [hoptions] at hvalue
    simp only [nameOptions, commonOptions, envOptions, volumeOptions, placeOptions, hothers,
      List.mem_append, List.mem_map, mem_limitOptions_other (show "-e" ≠ "--memory" ∧ "-e" ≠ "--cpus" by decide)] at hvalue
    simp only [Prod.mk.injEq, List.mem_cons, String.reduceEq, false_and, List.not_mem_nil, or_false,
      false_or, Option.mem_toList, Option.map_eq_some_iff, and_false, exists_false, true_and] at hvalue
    obtain ⟨entry, _, hentry⟩ := hvalue
    exact ⟨entry.1, entry.2, hentry.symm⟩

/-- A command of `ctr`: none of the options. -/
theorem options_containerdCommand {config : ContainerRunConfig} {flag : String}
    {value : Option String} :
    (flag, value) ∈ (containerdCommand config).options ↔
      (flag = "run" ∨ flag = "--rm") ∧ value = none := by
  simp [containerdCommand, or_and_right]

theorem TakesOptions.appliesMemory {command : BuiltCommand} {network : String}
    {used : ContainerLimits} (h : TakesOptions command network used) {memory : UInt64} :
    AppliesMemory command memory ↔ used.memoryMb = some memory := by
  rw [AppliesMemory, h.rlimits, h.memory]
  constructor
  · rintro (⟨limit, hlimit, _⟩ | ⟨given, hgiven, htext⟩)
    · cases hlimit
    · rw [hgiven, memoryText_inj (Option.some.inj htext)]
  · intro hused
    exact .inr ⟨memory, hused, rfl⟩

theorem TakesOptions.appliesCpu {command : BuiltCommand} {network : String}
    {used : ContainerLimits} (h : TakesOptions command network used) {cores : F64} :
    ("--cpus", some cores.text) ∈ command.options ↔ used.cpuCores = some cores := by
  rw [h.cpu]
  constructor
  · rintro ⟨given, hgiven, htext⟩
    rw [hgiven]
    cases given
    cases cores
    cases htext
    rfl
  · intro hused
    exact ⟨cores, hused, rfl⟩

theorem not_boundedBy {command : BuiltCommand} (h : command.killAfter = none) (timeout : UInt64) :
    ¬ BoundedBy command timeout := by
  rintro ⟨limit, hlimit, _⟩
  rw [h] at hlimit
  cases hlimit

/-- The rows of the limits are kept exactly where the limits are the container's own. -/
theorem TakesOptions.limitsAgree_iff {command : BuiltCommand} {network : String}
    {used : ContainerLimits} (h : TakesOptions command network used) (limits : ResourceLimits) :
    LimitsAgree limits used ↔
      (∀ memory, limits.memoryMb = some memory → AppliesMemory command memory) ∧
      (∀ cores, limits.cpuCores = some cores → ("--cpus", some cores.text) ∈ command.options) ∧
      ∀ timeout, limits.timeoutSecs = some timeout → BoundedBy command timeout := by
  constructor
  · intro hagree
    refine ⟨?_, ?_, ?_⟩
    · intro memory hmemory
      rw [h.appliesMemory, ← hmemory]
      exact (hagree.memory.resolve_left (by simp [hmemory])).symm
    · intro cores hcores
      rw [h.appliesCpu, ← hcores]
      exact (hagree.cpu.resolve_left (by simp [hcores])).symm
    · intro timeout htimeout
      rw [hagree.timeout] at htimeout
      cases htimeout
  · rintro ⟨hmemory, hcpu, htimeout⟩
    refine ⟨?_, ?_, ?_⟩
    · cases hlimit : limits.memoryMb with
      | none => exact .inl rfl
      | some memory => exact .inr (h.appliesMemory.mp (hmemory memory hlimit)).symm
    · cases hlimit : limits.cpuCores with
      | none => exact .inl rfl
      | some cores => exact .inr (h.appliesCpu.mp (hcpu cores hlimit)).symm
    · cases hlimit : limits.timeoutSecs with
      | none => rfl
      | some timeout => exact absurd (htimeout timeout hlimit) (not_boundedBy h.killed timeout)

theorem takesOptions_container (hruntime : container.runtime ≠ .containerd) :
    TakesOptions (containerCommand container run) "none" plainLimits := by
  unfold containerCommand
  cases hcases : container.runtime with
  | docker =>
    refine takesOptions (plainRunConfig container run)
      ((container.entrypoint.getD []).map fun entry => ("--entrypoint", some entry)) ?_ ?_ rfl rfl
    · simp [Aside]
    · simp [runContainer, runtimeCommand, plainRunConfig]
  | podman =>
    refine takesOptions (plainRunConfig container run) [] (by simp) ?_ rfl rfl
    simp [runContainer, runtimeCommand]
  | containerd => exact absurd hcases hruntime

theorem backed_container (hlevel : config.isolationLevel = .container)
    (hruntime : container.runtime ≠ .containerd) :
    RowsBacked (isolationReport platform config hermeticEnv) config (containerCommand container run) ↔
      LimitsAgree config.resourceLimits plainLimits := by
  have htakes : TakesOptions (containerCommand container run) "none" plainLimits :=
    takesOptions_container hruntime
  rw [htakes.limitsAgree_iff]
  constructor
  · intro h
    refine ⟨?_, ?_, ?_⟩
    · intro memory hmemory
      exact h.memory ((enforced_container hlevel).mpr (by simp [hmemory])) memory hmemory
    · intro cores hcores
      exact h.cpu ((enforced_container hlevel).mpr (by simp [hcores])) cores hcores
    · intro timeout htimeout
      exact h.timeout ((enforced_container hlevel).mpr (by simp [htimeout])) timeout htimeout
  · rintro ⟨hmemory, hcpu, htimeout⟩
    refine ⟨fun _ => htakes.network, ?_, ?_, fun _ => htakes.environment, fun _ => hmemory, ?_,
      fun _ => hcpu, fun _ => htimeout⟩
    all_goals
      intro henforced
      simp [enforced_container hlevel] at henforced

theorem appliesEnvironment_containerd (config : ContainerRunConfig) :
    AppliesEnvironment (containerdCommand config) := by
  refine .inr ⟨by simp [containerdCommand], ?_⟩
  intro value hvalue
  rw [options_containerdCommand] at hvalue
  exact absurd hvalue.1 (by decide)

/-- `ctr` keeps a row only where nothing is asked. -/
theorem backed_container_containerd (hlevel : config.isolationLevel = .container)
    (hruntime : container.runtime = .containerd) :
    RowsBacked (isolationReport platform config hermeticEnv) config (containerCommand container run) ↔
      config.networkPolicy ≠ .disabled ∧ config.resourceLimits.memoryMb = none ∧
        config.resourceLimits.cpuCores = none ∧ config.resourceLimits.timeoutSecs = none := by
  have hcommand : containerCommand container run =
      containerdCommand (plainRunConfig container run) := by
    rw [containerCommand, hruntime, runContainer]
  rw [hcommand]
  constructor
  · intro h
    refine ⟨?_, ?_, ?_, ?_⟩
    · intro hdisabled
      have hoption := h.network ((enforced_container hlevel).mpr (by simp [hdisabled]))
      rw [options_containerdCommand] at hoption
      exact absurd hoption.2 (by simp)
    · by_contra hsome
      obtain ⟨memory, hmemory⟩ := Option.ne_none_iff_exists'.mp hsome
      have happlies := h.memory ((enforced_container hlevel).mpr (by simp [hmemory])) memory hmemory
      simp [AppliesMemory, containerdCommand] at happlies
    · by_contra hsome
      obtain ⟨cores, hcores⟩ := Option.ne_none_iff_exists'.mp hsome
      have hoption := h.cpu ((enforced_container hlevel).mpr (by simp [hcores])) cores hcores
      simp [containerdCommand] at hoption
    · by_contra hsome
      obtain ⟨timeout, htimeout⟩ := Option.ne_none_iff_exists'.mp hsome
      exact not_boundedBy rfl timeout
        (h.timeout ((enforced_container hlevel).mpr (by simp [htimeout])) timeout htimeout)
  · rintro ⟨hnetwork, hmemory, hcpu, htimeout⟩
    refine ⟨?_, ?_, ?_, fun _ => appliesEnvironment_containerd _, ?_, ?_, ?_, ?_⟩
    all_goals
      intro henforced
      simp [enforced_container hlevel, hnetwork, hmemory, hcpu, htimeout] at henforced

end Containers

/-! ### Hardened containers -/

section Strict
variable {platform : Platform} {config : SandboxConfig} {hermeticEnv : Bool} {run : Invocation}
  {container : ContainerConfig} {accessible : String → Bool} {level : SecurityLevel}
  {policy : NetworkPolicy}

/-- What a hardened container is asked besides. -/
def strictOptions (runtime : ContainerRuntime) (level : SecurityLevel) (run : Invocation) :
    List (String × Option String) :=
  match runtime with
  | .docker => seccompOption run.tempDir ::
      (hardeningOptions "no-new-privileges:true" level ++ maximumOptions level)
  | .podman => seccompOption run.tempDir :: hardeningOptions "no-new-privileges" level
  | .containerd => []

theorem aside_strictOptions (runtime : ContainerRuntime) :
    ∀ option ∈ strictOptions runtime level run, Aside option := by
  cases runtime <;> cases level <;>
    simp [strictOptions, hardeningOptions, maximumOptions, seccompOption, Aside]

theorem mem_options_strict (hruntime : container.runtime ≠ .containerd)
    (option : String × Option String) :
    option ∈ (strictCommand accessible container level policy run).options ↔
      option = ("run", none) ∨
      option ∈ nameOptions (strictRunConfig accessible container level policy run) ∨
      option ∈ commonOptions (strictRunConfig accessible container level policy run) ∨
      option ∈ strictOptions container.runtime level run := by
  cases hcases : container.runtime with
  | docker =>
    simp only [strictCommand, hcases, runtimeCommand, strictOptions, List.mem_cons,
      List.mem_append, List.not_mem_nil]
    tauto
  | podman =>
    simp only [strictCommand, hcases, runtimeCommand, strictOptions, List.mem_cons,
      List.mem_append, List.not_mem_nil]
    tauto
  | containerd => exact absurd hcases hruntime

theorem takesOptions_strict (hruntime : container.runtime ≠ .containerd) :
    TakesOptions (strictCommand accessible container level policy run) (getNetworkMode policy)
      (createResourceLimits level) := by
  refine takesOptions (strictRunConfig accessible container level policy run)
    (strictOptions container.runtime level run) (aside_strictOptions _)
    (mem_options_strict hruntime) ?_ ?_
  · cases hcases : container.runtime <;> simp [strictCommand, hcases, runtimeCommand, containerdCommand]
  · cases hcases : container.runtime <;> simp [strictCommand, hcases, runtimeCommand, containerdCommand]

theorem profile_strict (hruntime : container.runtime ≠ .containerd) :
    (strictCommand accessible container level policy run).profile = some level.text := by
  cases hcases : container.runtime with
  | docker => simp [strictCommand, hcases, runtimeCommand]
  | podman => simp [strictCommand, hcases, runtimeCommand]
  | containerd => exact absurd hcases hruntime

theorem appliesProfile_strict (hruntime : container.runtime ≠ .containerd) :
    AppliesProfile config (strictCommand accessible container level policy run) ↔
      reportedProfile config = level.text := by
  have hpassed : ∃ file, ("--security-opt", some ("seccomp=" ++ file)) ∈
      (strictCommand accessible container level policy run).options := by
    refine ⟨run.tempDir ++ "/seccomp-profile.json", ?_⟩
    rw [mem_options_strict hruntime]
    refine .inr (.inr (.inr ?_))
    cases hcases : container.runtime with
    | docker => simp [strictOptions, seccompOption, String.append_assoc]
    | podman => simp [strictOptions, seccompOption, String.append_assoc]
    | containerd => exact absurd hcases hruntime
  rw [AppliesProfile, profile_strict hruntime, Option.some.injEq]
  exact ⟨fun h => h.2.symm, fun h => ⟨hpassed, h.symm⟩⟩

theorem readOnly_strict (hruntime : container.runtime ≠ .containerd) (hlevel : level ≠ .minimal) :
    ("--read-only", none) ∈ (strictCommand accessible container level policy run).options := by
  rw [mem_options_strict hruntime]
  refine .inr (.inr (.inr ?_))
  cases hcases : container.runtime with
  | docker => simp [strictOptions, hardeningOptions, hlevel]
  | podman => simp [strictOptions, hardeningOptions, hlevel]
  | containerd => exact absurd hcases hruntime

/-- Only docker limits the open files. -/
theorem appliesOpenFiles_strict (hruntime : container.runtime ≠ .containerd) :
    AppliesOpenFiles config (strictCommand accessible container .maximum policy run) ↔
      container.runtime = .docker := by
  have htakes : TakesOptions (strictCommand accessible container .maximum policy run) _ _ :=
    takesOptions_strict hruntime
  constructor
  · rintro (⟨files, _, hfiles⟩ | ⟨limit, hlimit⟩)
    · rw [htakes.rlimits] at hfiles
      cases hfiles
    · cases hcases : container.runtime with
      | docker => rfl
      | podman =>
        rw [mem_options_strict hruntime, mem_commonOptions (by decide), hcases] at hlimit
        simp [nameOptions, strictOptions, seccompOption, hardeningOptions,
          mem_limitOptions_other (show "--ulimit" ≠ "--memory" ∧ "--ulimit" ≠ "--cpus" by decide)]
          at hlimit
      | containerd => exact absurd hcases hruntime
  · intro hdocker
    refine .inr ⟨"1024:1024", ?_⟩
    rw [mem_options_strict hruntime, hdocker]
    refine .inr (.inr (.inr ?_))
    simp [strictOptions, maximumOptions]

theorem backed_strict (hlevel : config.isolationLevel = .strictContainer)
    (hruntime : container.runtime ≠ .containerd) :
    RowsBacked (isolationReport platform config hermeticEnv) config
        (strictCommand accessible container config.securityLevel config.networkPolicy run) ↔
      LimitsAgree config.resourceLimits (createResourceLimits config.securityLevel) ∧
        reportedProfile config = config.securityLevel.text ∧
        (config.securityLevel = .maximum → container.runtime = .docker) := by
  have htakes : TakesOptions
      (strictCommand accessible container config.securityLevel config.networkPolicy run) _ _ :=
    takesOptions_strict hruntime
  rw [htakes.limitsAgree_iff, ← @appliesProfile_strict config run _ accessible _
    config.networkPolicy hruntime]
  constructor
  · intro h
    refine ⟨⟨?_, ?_, ?_⟩, ?_, ?_⟩
    · intro memory hmemory
      exact h.memory ((enforced_strict hlevel).mpr (by simp [hmemory])) memory hmemory
    · intro cores hcores
      exact h.cpu ((enforced_strict hlevel).mpr (by simp [hcores])) cores hcores
    · intro timeout htimeout
      exact h.timeout ((enforced_strict hlevel).mpr (by simp [htimeout])) timeout htimeout
    · exact h.capabilities ((enforced_strict hlevel).mpr (by simp))
    · intro hmaximum
      have hfiles := h.openFiles ((enforced_strict hlevel).mpr (by simp [hmaximum]))
      rw [hmaximum] at hfiles
      exact (appliesOpenFiles_strict hruntime).mp hfiles
  · rintro ⟨⟨hmemory, hcpu, htimeout⟩, hprofile, hdocker⟩
    refine ⟨?_, ?_, fun _ => hprofile, fun _ => htakes.environment, fun _ => hmemory, ?_,
      fun _ => hcpu, fun _ => htimeout⟩
    · intro henforced
      have hdisabled : config.networkPolicy = .disabled := by
        simpa [enforced_strict hlevel] using henforced
      have hnetwork := htakes.network
      rw [hdisabled] at hnetwork ⊢
      exact hnetwork
    · intro henforced
      have hhardened : config.securityLevel ≠ .minimal := by
        simpa [enforced_strict hlevel] using henforced
      exact readOnly_strict hruntime hhardened
    · intro henforced
      have hmaximum : config.securityLevel = .maximum := by
        simpa [enforced_strict hlevel] using henforced
      rw [hmaximum]
      exact (appliesOpenFiles_strict hruntime).mpr (hdocker hmaximum)

/-- The profile is named in the report whatever the runtime takes. -/
theorem not_backed_strict_containerd (hlevel : config.isolationLevel = .strictContainer)
    (hruntime : container.runtime = .containerd) :
    ¬ RowsBacked (isolationReport platform config hermeticEnv) config
        (strictCommand accessible container config.securityLevel config.networkPolicy run) := by
  intro h
  have hprofile := (h.capabilities ((enforced_strict hlevel).mpr (by simp))).2
  simp [strictCommand, hruntime, containerdCommand] at hprofile

end Strict

def linux : Platform := ⟨"linux", true⟩

def makeRun : Invocation where
  command := "sh"
  args := ["-c", "make"]
  env := SortedMap.empty
  workingDir := none
  timeoutSecs := none
  containerId := "attest-1"
  tempDir := "/tmp/attest-1"

/-- A docker container of the plain level with so much memory. -/
def dockerConfig (memory : UInt64) : SandboxConfig where
  isolationLevel := .container
  resourceLimits := ⟨some memory, some ⟨"1"⟩, none, some 1000⟩
  networkPolicy := .disabled
  containerConfig := some ⟨"alpine", [], [], none, none, .docker⟩
  seccompProfile := some "minimal"
  securityLevel := .minimal
  inheritEnvironment := true

end Attest.Sandbox
