import Attest.Library.SortedMap
import Attest.Storage.ReceiptFormat

/-! The sandbox and what it reports, as `sandbox/mod.rs`, `sandbox/container.rs` and
`sandbox/enhanced_container.rs` have them.

A step runs as a process or in a container, by the level of isolation. The report lists a
status for each control and is signed into the receipt; the command line is built
elsewhere, and the two container sandboxes are not given the configured limits.
`report_backed_iff` says for which configurations every control that is listed as enforced
is applied by the command. -/
namespace Attest.Sandbox
open Library
open Storage (ControlStatus IsolationControl IsolationReport)

/-! ### Configuration -/

inductive IsolationLevel
  | none
  | process
  | container
  | strictContainer
  | vm
deriving DecidableEq

inductive NetworkPolicy
  | disabled
  | restricted
  | full
deriving DecidableEq

inductive SecurityLevel
  | minimal
  | standard
  | maximum
deriving DecidableEq

inductive ContainerRuntime
  | docker
  | podman
  | containerd
deriving DecidableEq

/-- A double, by the text `to_string` writes of it: the text determines the number. -/
structure F64 where
  text : String
deriving DecidableEq

structure ResourceLimits where
  memoryMb : Option UInt64
  cpuCores : Option F64
  timeoutSecs : Option UInt64
  maxFiles : Option UInt64
deriving DecidableEq

structure VolumeMount where
  hostPath : String
  containerPath : String
  readOnly : Bool
deriving DecidableEq

structure ContainerConfig where
  image : String
  volumes : List VolumeMount
  environment : List (String × String)
  user : Option String
  entrypoint : Option (List String)
  runtime : ContainerRuntime
deriving DecidableEq

structure SandboxConfig where
  isolationLevel : IsolationLevel
  resourceLimits : ResourceLimits
  networkPolicy : NetworkPolicy
  containerConfig : Option ContainerConfig
  seccompProfile : Option String
  securityLevel : SecurityLevel
  inheritEnvironment : Bool
deriving DecidableEq

/-- What the code is compiled for. -/
structure Platform where
  os : String
  unix : Bool

def NetworkPolicy.text : NetworkPolicy → String
  | .disabled => "disabled"
  | .restricted => "restricted"
  | .full => "full"

def SecurityLevel.text : SecurityLevel → String
  | .minimal => "minimal"
  | .standard => "standard"
  | .maximum => "maximum"

/-! ### The report -/

def environmentControl (hermeticEnv : Bool) : IsolationControl :=
  if hermeticEnv then
    ⟨"environment", .enforced,
      "ambient environment not inherited; SOURCE_DATE_EPOCH, TZ and LC_ALL normalized"⟩
  else ⟨"environment", .notEnforced, "the runner's environment is inherited"⟩

/-- The report of a run without a sandbox. -/
def unisolatedReport (platform : Platform) (hermeticEnv : Bool) : IsolationReport where
  mode := "none"
  platform := platform.os
  controls :=
    [⟨"network", .notEnforced, "steps run as ordinary processes"⟩,
      ⟨"filesystem", .notEnforced, "steps see the whole filesystem"⟩,
      ⟨"capabilities", .notEnforced, "steps keep the runner's privileges"⟩,
      environmentControl hermeticEnv,
      ⟨"memory", .notEnforced, "no limit"⟩,
      ⟨"open-files", .notEnforced, "no limit"⟩,
      ⟨"cpu", .notEnforced, "no limit"⟩,
      ⟨"timeout", .notEnforced, "no limit"⟩]
  capsuleSteps := []

/-- A row whose limit is set before the command starts. -/
def rlimitControl (platform : Platform) (name what : String) (set : Bool) : IsolationControl :=
  if !platform.unix then
    ⟨name, .notAvailable, what ++ " needs a Unix rlimit; none on " ++ platform.os⟩
  else if set then ⟨name, .enforced, what ++ " via setrlimit before exec"⟩
  else ⟨name, .notEnforced, "no limit configured"⟩

/-- A row that is enforced when its limit is configured. -/
def limitControl (name enforced missing : String) (set : Bool) : IsolationControl :=
  if set then ⟨name, .enforced, enforced⟩ else ⟨name, .notEnforced, missing⟩

def containerNetworkControl (policy : NetworkPolicy) : IsolationControl :=
  if policy = .disabled then ⟨"network", .enforced, "container run with --network none"⟩
  else ⟨"network", .notEnforced, "container run with a '" ++ policy.text ++ "' network"⟩

def processControls (platform : Platform) (config : SandboxConfig) (hermeticEnv : Bool) :
    List IsolationControl :=
  [⟨"network", .notEnforced,
      "process isolation has no network control; the configured policy '" ++
        config.networkPolicy.text ++ "' is not applied, steps can reach the network"⟩,
    ⟨"filesystem", .notEnforced,
      "process isolation has no filesystem control; steps see the whole filesystem"⟩,
    ⟨"capabilities", .notEnforced,
      "no seccomp or capability drop outside a container; steps keep the runner's privileges"⟩,
    environmentControl (hermeticEnv && !config.inheritEnvironment),
    rlimitControl platform "memory" "RLIMIT_AS" config.resourceLimits.memoryMb.isSome,
    rlimitControl platform "open-files" "RLIMIT_NOFILE" config.resourceLimits.maxFiles.isSome,
    ⟨"cpu", .notEnforced, "advisory only; no portable per-process core cap"⟩,
    limitControl "timeout" "the step is killed when its timeout elapses"
      "no sandbox-level timeout; per-step timeouts apply when declared"
      config.resourceLimits.timeoutSecs.isSome]

def containerControls (config : SandboxConfig) : List IsolationControl :=
  [containerNetworkControl config.networkPolicy,
    ⟨"filesystem", .notEnforced,
      "the workspace is mounted writable; the root filesystem is the image's"⟩,
    ⟨"capabilities", .notEnforced,
      "the runtime's default capability set; no seccomp profile passed"⟩,
    ⟨"environment", .enforced, "only declared variables reach the container"⟩,
    limitControl "memory" "container run with --memory" "no limit configured"
      config.resourceLimits.memoryMb.isSome,
    ⟨"open-files", .notEnforced, "the runtime's default"⟩,
    limitControl "cpu" "container run with --cpus" "no limit configured"
      config.resourceLimits.cpuCores.isSome,
    limitControl "timeout" "the container is stopped when its timeout elapses"
      "no limit configured" config.resourceLimits.timeoutSecs.isSome]

/-- The profile the report names. -/
def reportedProfile (config : SandboxConfig) : String := config.seccompProfile.getD "minimal"

def strictControls (config : SandboxConfig) : List IsolationControl :=
  let hardened := config.securityLevel != .minimal
  [containerNetworkControl config.networkPolicy,
    limitControl "filesystem"
      "--read-only root with a noexec tmpfs; the workspace mount stays writable"
      "minimal security level: the root filesystem is writable" hardened,
    ⟨"capabilities", .enforced,
      if hardened then
        "seccomp profile '" ++ reportedProfile config ++ "', --cap-drop ALL, no-new-privileges"
      else "seccomp profile '" ++ reportedProfile config ++ "'"⟩,
    ⟨"environment", .enforced, "only declared variables reach the container"⟩,
    limitControl "memory" "container run with --memory" "no limit configured"
      config.resourceLimits.memoryMb.isSome,
    limitControl "open-files" "--ulimit nofile=1024" "the runtime's default"
      (config.securityLevel == .maximum),
    limitControl "cpu" "container run with --cpus" "no limit configured"
      config.resourceLimits.cpuCores.isSome,
    limitControl "timeout" "the container is stopped when its timeout elapses"
      "no limit configured" config.resourceLimits.timeoutSecs.isSome]

def isolationReport (platform : Platform) (config : SandboxConfig) (hermeticEnv : Bool) :
    IsolationReport :=
  match config.isolationLevel with
  | .none | .vm => unisolatedReport platform hermeticEnv
  | .process => ⟨"process", platform.os, processControls platform config hermeticEnv, []⟩
  | .container => ⟨"container", platform.os, containerControls config, []⟩
  | .strictContainer => ⟨"strict-container", platform.os, strictControls config, []⟩

end Attest.Sandbox
