import Attest.Sandbox.Report

/-! The command a sandbox runs a step with.

What is built is a process with the limits that are set before it starts, or the command
line of a container runtime. The options of a runtime stand before the image; what follows
the image is the command in the container. A run that takes too long is killed where it is
a process. A container is only waited for so long: the thread that waits for the runtime
is given up, and neither the runtime nor the container is stopped. -/
namespace Attest.Sandbox
open Library

/-- What a step asks to run, and what the run is called. -/
structure Invocation where
  command : String
  args : List String
  env : SortedMap String String
  workingDir : Option String
  timeoutSecs : Option UInt64
  containerId : String
  tempDir : String

inductive Resource
  | addressSpace
  | openFiles
deriving DecidableEq

/-- The command that is run. -/
structure BuiltCommand where
  program : String
  /-- The options of a container runtime; none for a process. -/
  options : List (String × Option String)
  arguments : List String
  /-- `setrlimit` before the start. -/
  rlimits : List (Resource × UInt64)
  /-- Whether the runner's environment is cleared. -/
  clearsEnv : Bool
  /-- When the command is killed. -/
  killAfter : Option UInt64
  /-- How long the command is waited for before the run is given up. -/
  waitSecs : Option UInt64
  /-- The profile in the file the seccomp option names. -/
  profile : Option String

/-- The arguments of the command. -/
def BuiltCommand.argv (command : BuiltCommand) : List String :=
  command.options.flatMap (fun option => option.1 :: option.2.toList) ++ command.arguments

/-! ### Processes -/

/-- The stricter of a step's timeout and the configured one. -/
def effectiveTimeout (step configured : Option UInt64) : Option UInt64 :=
  match step, configured with
  | some a, some b => some (min a b)
  | a, b => a.or b

/-- `execute_direct`. -/
def directCommand (config : SandboxConfig) (run : Invocation) (timeout : Option UInt64) :
    BuiltCommand where
  program := run.command
  options := []
  arguments := run.args
  rlimits := []
  clearsEnv := !config.inheritEnvironment
  killAfter := timeout
  waitSecs := none
  profile := none

/-- `execute_unix_isolated`. The product wraps, and a limit that cannot be set is not
noticed. -/
def unixIsolatedCommand (config : SandboxConfig) (run : Invocation) (timeout : Option UInt64) :
    BuiltCommand :=
  { directCommand config run timeout with
    rlimits :=
      (config.resourceLimits.memoryMb.map fun memory =>
        (Resource.addressSpace, memory * 1024 * 1024)).toList ++
      (config.resourceLimits.maxFiles.map fun files => (Resource.openFiles, files)).toList }

/-! ### Containers -/

/-- The limits a container is run with. -/
structure ContainerLimits where
  memoryMb : Option UInt64
  cpuCores : Option F64
  timeoutSecs : Option UInt64

structure ContainerRunConfig where
  containerId : String
  image : String
  command : String
  args : List String
  environment : SortedMap String String
  workingDir : Option String
  volumes : List VolumeMount
  user : Option String
  entrypoint : Option (List String)
  networkMode : String
  resourceLimits : ContainerLimits

def nameOptions (run : ContainerRunConfig) : List (String × Option String) :=
  [("--rm", none), ("--name", some run.containerId), ("--network", some run.networkMode)]

def limitOptions (limits : ContainerLimits) : List (String × Option String) :=
  (limits.memoryMb.map fun memory => ("--memory", some s!"{memory}m")).toList ++
    (limits.cpuCores.map fun cpu => ("--cpus", some cpu.text)).toList

def mountSpec (volume : VolumeMount) : String :=
  if volume.readOnly then volume.hostPath ++ ":" ++ volume.containerPath ++ ":ro"
  else volume.hostPath ++ ":" ++ volume.containerPath

/-- The variables, in the order of their names: the source's order is that of a hash map. -/
def envOptions (env : SortedMap String String) : List (String × Option String) :=
  env.entries.map fun entry => ("-e", some (entry.1 ++ "=" ++ entry.2))

def volumeOptions (volumes : List VolumeMount) : List (String × Option String) :=
  volumes.map fun volume => ("-v", some (mountSpec volume))

def placeOptions (run : ContainerRunConfig) : List (String × Option String) :=
  (run.workingDir.map fun dir => ("-w", some dir)).toList ++
    (run.user.map fun user => ("--user", some user)).toList

def commonOptions (run : ContainerRunConfig) : List (String × Option String) :=
  limitOptions run.resourceLimits ++ envOptions run.environment ++ volumeOptions run.volumes ++
    placeOptions run

/-- The command line of a runtime, with its options before the image. -/
def runtimeCommand (program : String) (options : List (String × Option String))
    (profile : Option String) (run : ContainerRunConfig) : BuiltCommand where
  program := program
  options := ("run", none) :: options
  arguments := run.image :: run.command :: run.args
  rlimits := []
  clearsEnv := false
  killAfter := none
  waitSecs := some (run.resourceLimits.timeoutSecs.getD 300)
  profile := profile

/-- `ctr` takes neither limits nor a network nor variables. -/
def containerdCommand (run : ContainerRunConfig) : BuiltCommand where
  program := "ctr"
  options := [("run", none), ("--rm", none)]
  arguments := run.image :: run.containerId :: run.command :: run.args
  rlimits := []
  clearsEnv := false
  killAfter := none
  waitSecs := some (run.resourceLimits.timeoutSecs.getD 300)
  profile := none

/-- `DockerRuntime`, `PodmanRuntime` and `ContainerdRuntime::run_container`. -/
def runContainer (runtime : ContainerRuntime) (run : ContainerRunConfig) : BuiltCommand :=
  match runtime with
  | .docker =>
    runtimeCommand "docker" (nameOptions run ++ commonOptions run ++
      (run.entrypoint.getD []).map fun entry => ("--entrypoint", some entry)) none run
  | .podman => runtimeCommand "podman" (nameOptions run ++ commonOptions run) none run
  | .containerd => containerdCommand run

/-- The limits of every container of the plain level. -/
def plainLimits : ContainerLimits := ⟨some 512, some ⟨"1"⟩, some 300⟩

def plainRunConfig (container : ContainerConfig) (run : Invocation) : ContainerRunConfig where
  containerId := run.containerId
  image := container.image
  command := run.command
  args := run.args
  environment := run.env.insertAll container.environment
  workingDir := run.workingDir
  volumes := container.volumes
  user := container.user
  entrypoint := container.entrypoint
  networkMode := "none"
  resourceLimits := plainLimits

/-- `ContainerSandbox::execute`, once the image is verified. -/
def containerCommand (container : ContainerConfig) (run : Invocation) : BuiltCommand :=
  runContainer container.runtime (plainRunConfig container run)

/-! ### Hardened containers -/

def getNetworkMode : NetworkPolicy → String
  | .disabled => "none"
  | .restricted => "bridge"
  | .full => "bridge"

/-- The limits go by the security level. -/
def createResourceLimits : SecurityLevel → ContainerLimits
  | .minimal => ⟨some 1024, some ⟨"2"⟩, some 600⟩
  | .standard => ⟨some 512, some ⟨"1"⟩, some 300⟩
  | .maximum => ⟨some 256, some ⟨"0.5"⟩, some 120⟩

def createSecureEnvironment (level : SecurityLevel) (env : SortedMap String String) :
    SortedMap String String :=
  (env.insertAll
    [("ATTEST_SECURITY_LEVEL", level.text), ("ATTEST_SANDBOX_MODE", "enhanced"), ("HOME", "/tmp"),
      ("TMPDIR", "/tmp"), ("USER", "nobody")]).erase ["LD_PRELOAD", "LD_LIBRARY_PATH", "PATH"]

def isVolumeSafe (path : String) : Bool :=
  ["/tmp", "/workspace", "/data"].any (fun start => start.toList.isPrefixOf path.toList) &&
    !(["/boot", "/dev", "/etc", "/proc", "/sys", "/run", "/usr", "/var", "/opt", "/root",
      "/home"].any fun start => start.toList.isPrefixOf path.toList)

/-- The mounts that are allowed, read-only, and a directory of the run. The policy of the
file system is a parameter. -/
def createSecureVolumes (accessible : String → Bool) (volumes : List VolumeMount)
    (tempDir : String) : List VolumeMount :=
  ((volumes.filter fun volume => accessible volume.hostPath && isVolumeSafe volume.hostPath).map
    fun volume => { volume with readOnly := true }) ++ [⟨tempDir, "/workspace", false⟩]

def seccompOption (tempDir : String) : String × Option String :=
  ("--security-opt", some ("seccomp=" ++ tempDir ++ "/seccomp-profile.json"))

/-- The options of the levels above the lowest. -/
def hardeningOptions (noNewPrivileges : String) (level : SecurityLevel) :
    List (String × Option String) :=
  if level ≠ .minimal then
    [("--security-opt", some noNewPrivileges), ("--cap-drop", some "ALL"), ("--read-only", none),
      ("--tmpfs", some "/tmp:rw,noexec,nosuid,size=100m")]
  else []

/-- Only docker gets these. -/
def maximumOptions (level : SecurityLevel) : List (String × Option String) :=
  if level = .maximum then
    [("--security-opt", some "apparmor:docker-default"), ("--pids-limit", some "100"),
      ("--ulimit", some "nofile=1024:1024"), ("--ulimit", some "nproc=64:64")]
  else []

def strictRunConfig (accessible : String → Bool) (container : ContainerConfig)
    (level : SecurityLevel) (policy : NetworkPolicy) (run : Invocation) : ContainerRunConfig where
  containerId := run.containerId
  image := container.image
  command := run.command
  args := run.args
  environment := createSecureEnvironment level run.env
  workingDir := run.workingDir
  volumes := createSecureVolumes accessible container.volumes run.tempDir
  user := some "65534:65534"
  entrypoint := container.entrypoint
  networkMode := getNetworkMode policy
  resourceLimits := createResourceLimits level

/-- `execute_secure`: the profile goes by the security level. -/
def strictCommand (accessible : String → Bool) (container : ContainerConfig)
    (level : SecurityLevel) (policy : NetworkPolicy) (run : Invocation) : BuiltCommand :=
  let config := strictRunConfig accessible container level policy run
  match container.runtime with
  | .docker =>
    runtimeCommand "docker" (nameOptions config ++ [seccompOption run.tempDir] ++
      hardeningOptions "no-new-privileges:true" level ++ maximumOptions level ++
      commonOptions config) (some level.text) config
  | .podman =>
    runtimeCommand "podman" (nameOptions config ++ [seccompOption run.tempDir] ++
      hardeningOptions "no-new-privileges" level ++ commonOptions config) (some level.text) config
  | .containerd => containerdCommand config

/-! ### The sandbox -/

def builtinProfiles : List String := ["minimal", "standard", "maximum"]

def ContainerRuntime.notFound : ContainerRuntime → String
  | .docker => "Docker not found in PATH"
  | .podman => "Podman not found in PATH"
  | .containerd => "containerd ctr not found in PATH"

/-- `Sandbox::new`; the runtimes that are found on the machine are a parameter. -/
def newSandbox (found : ContainerRuntime → Bool) (config : SandboxConfig) : Except String Unit := do
  match config.isolationLevel with
  | .container =>
    match config.containerConfig with
    | none => .error "Container config required for container isolation"
    | some container =>
      if found container.runtime then .ok () else .error container.runtime.notFound
  | .strictContainer =>
    match config.containerConfig with
    | none => .error "Container config required for strict container isolation"
    | some container =>
      if found container.runtime then .ok () else .error container.runtime.notFound
  | _ => .ok ()
  match config.seccompProfile with
  | none => .ok ()
  | some profile =>
    if profile ∈ builtinProfiles then .ok ()
    else .error s!"Failed to set seccomp profile: {profile}"

/-- The command `execute_with_timeout` runs. -/
def builtCommand (platform : Platform) (accessible : String → Bool) (config : SandboxConfig)
    (run : Invocation) : Except String BuiltCommand :=
  let timeout := effectiveTimeout run.timeoutSecs config.resourceLimits.timeoutSecs
  match config.isolationLevel with
  | .none => .ok (directCommand config run timeout)
  | .process =>
    .ok (if platform.unix then unixIsolatedCommand config run timeout
      else directCommand config run timeout)
  | .container =>
    match config.containerConfig with
    | none => .error "Container sandbox not initialized"
    | some container => .ok (containerCommand container run)
  | .strictContainer =>
    match config.containerConfig with
    | none => .error "Enhanced container sandbox not initialized"
    | some container =>
      .ok (strictCommand accessible container config.securityLevel config.networkPolicy run)
  | .vm => .error "VM isolation not yet implemented"

end Attest.Sandbox
