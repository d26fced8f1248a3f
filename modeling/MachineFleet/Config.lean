import MachineFleet.Data.Dict
import MachineFleet.Duration
import MachineFleet.Error
import MachineFleet.Files.Path
import MachineFleet.Net.Subnet

namespace MachineFleet

structure ProbeConfig where
  scheme : String
  port : UInt16
  path : String
  initialDelayMs : UInt64
  periodMs : UInt64
  timeoutMs : UInt64
  successThreshold : UInt32
  failureThreshold : UInt32
  deriving DecidableEq, Repr

structure NetworkConfig where
  subnet : Subnet
  cacheDir : Path
  deriving DecidableEq, Repr

structure JailerConfig where
  execFile : Path
  baseDir : Path
  deriving DecidableEq, Repr

structure MachineConfig where
  execPath : Path
  args : List String
  env : Dict String
  shutdownTimeoutMs : UInt64
  logDir : Path
  network : NetworkConfig
  jailer : Option JailerConfig
  deriving DecidableEq, Repr

structure FleetConfig where
  startTimeoutMs : UInt64
  stopTimeoutMs : UInt64
  workloadPort : UInt16
  probe : ProbeConfig
  machine : MachineConfig
  deriving DecidableEq, Repr

namespace ProbeConfig

def defaults : ProbeConfig where
  scheme := "http"
  port := 8080
  path := "/health"
  initialDelayMs := 0
  periodMs := 1000
  timeoutMs := 3000
  successThreshold := 1
  failureThreshold := 3

end ProbeConfig

namespace NetworkConfig

def defaults : NetworkConfig where
  subnet := { address := .ofBytes 10 0 0 0, bits := 24 }
  cacheDir := "/var/lib/cni"

end NetworkConfig

namespace MachineConfig

def defaults (home : Path) : MachineConfig where
  execPath := "firecracker"
  args := []
  env := ∅
  shutdownTimeoutMs := 30000
  logDir := Path.join home "log"
  network := .defaults
  jailer := none

def shutdownTimeout (c : MachineConfig) : Duration := .ofMillis c.shutdownTimeoutMs.toNat

/-- Whole milliseconds are kept, as many as fit. -/
def setShutdownTimeout (c : MachineConfig) (timeout : Duration) : MachineConfig :=
  { c with shutdownTimeoutMs := .ofNat timeout.toMillis }

def setExecPath (c : MachineConfig) (path : Path) : MachineConfig := { c with execPath := path }

def setArgs (c : MachineConfig) (args : List String) : MachineConfig := { c with args }

end MachineConfig

namespace FleetConfig

def defaults (home : Path) : FleetConfig where
  startTimeoutMs := 30000
  stopTimeoutMs := 1000
  workloadPort := 8080
  probe := .defaults
  machine := .defaults home

def startTimeout (c : FleetConfig) : Duration := .ofMillis c.startTimeoutMs.toNat

def stopTimeout (c : FleetConfig) : Duration := .ofMillis c.stopTimeoutMs.toNat

end FleetConfig

/-- The directory of the fleet's own files: the one that the environment names, if it names one,
else a hidden directory of the user. -/
def homeDirectory (named? : Option Path) (userHome : Path) : Path :=
  match named? with
  | some home => if home.isEmpty then Path.join userHome ".monofleet" else home
  | none => Path.join userHome ".monofleet"

def jailParent : Path := "/srv/"

def requirePositive (field : String) (n : Nat) : Except ConfigFault Unit :=
  if n = 0 then .error (.notPositive field) else .ok ()

def hasTwoDots : List Char → Bool
  | '.' :: '.' :: _ => true
  | _ :: rest => hasTwoDots rest
  | [] => false

def ProbeConfig.check (c : ProbeConfig) : Except ConfigFault Unit := do
  requirePositive "probe.period_ms" c.periodMs.toNat
  requirePositive "probe.timeout_ms" c.timeoutMs.toNat
  requirePositive "probe.port" c.port.toNat

def JailerConfig.check (c : JailerConfig) : Except ConfigFault Unit :=
  if !jailParent.toList.isPrefixOf c.baseDir.toList || hasTwoDots c.baseDir.toList then
    .error (.jailBaseOutside c.baseDir)
  else if c.execFile.fileName?.isNone then .error .jailWithoutName
  else .ok ()

def MachineConfig.check (c : MachineConfig) : Except ConfigFault Unit := do
  requirePositive "machine.shutdown_timeout_ms" c.shutdownTimeoutMs.toNat
  if c.network.subnet.size < 4 then throw (.subnetTooSmall c.network.subnet.render)
  match c.jailer with
  | some jailer => jailer.check
  | none => pure ()

/-- Accepts a configuration unless it holds a value that can never work; the first such value in
the order of the fields is reported. -/
def FleetConfig.check (c : FleetConfig) : Except ConfigFault Unit := do
  requirePositive "start_timeout_ms" c.startTimeoutMs.toNat
  requirePositive "stop_timeout_ms" c.stopTimeoutMs.toNat
  requirePositive "workload_port" c.workloadPort.toNat
  c.probe.check
  c.machine.check

def FleetConfig.validate (c : FleetConfig) : Except Error Unit :=
  c.check.mapError .invalidConfig

end MachineFleet
