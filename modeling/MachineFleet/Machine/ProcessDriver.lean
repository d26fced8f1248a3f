import MachineFleet.Log.MachineLog
import MachineFleet.Machine.AddressPool
import MachineFleet.Machine.ExitStatus
import MachineFleet.Machine.Jail
import MachineFleet.Machine.Launch
import MachineFleet.Machine.Metadata

/-!
Machines that run as processes of the fleet. All drivers lease their addresses from one pool. An
address goes back once its process has exited and its network is released.

Starting and releasing a machine are single steps. The calls that end when the process has exited
are recorded until then, so any number of them may be under way.
-/
namespace MachineFleet

inductive MachineExit where
  | success
  | failure (reason : String)
  deriving DecidableEq, Repr

def MachineExit.ofStatus : ExitStatus → MachineExit
  | .code 0 => .success
  | status => .failure status.text

def MachineExit.result : MachineExit → Except Error Unit
  | success => .ok ()
  | failure reason => .error (.machineExit reason)

inductive ExitCall where
  | wait
  | shutdown
  | kill
  deriving DecidableEq, Repr

/-- What a call is told about the exit: how the process ended matters only to who waits for it. -/
def ExitCall.result : ExitCall → MachineExit → Except Error Unit
  | wait, exit => exit.result
  | shutdown, _ => .ok ()
  | kill, _ => .ok ()

structure Process where
  address : Ipv4
  killWanted : Bool
  exit : Option MachineExit
  waiting : List (Nat × ExitCall)
  deriving DecidableEq, Repr

structure ProcessDriver where
  jailRoot : Option Path
  process : Option Process
  deriving DecidableEq, Repr

structure Premises where
  pool : AddressPool
  files : Files.Tree

namespace ProcessDriver

def new (config : MachineConfig) (jail : String) : ProcessDriver where
  jailRoot := config.jailer.bind (·.root? jail)
  process := none

structure Started where
  machine : Metadata
  launch : Launch
  log : Option MachineLog

def logPath (config : MachineConfig) (id : String) : Path :=
  Path.join config.logDir (id ++ ".log")

def makeJail (d : ProcessDriver) (files : Files.Tree) : Files.Tree × Except Files.Failure Unit :=
  match d.jailRoot with
  | some root => files.makePath root
  | none => (files, .ok ())

/-- Launches the process of a machine, in its jail if it has one. `refuses` says why the operating
system does not launch something. Directories made for the jail stay in any case. -/
def spawn (config : MachineConfig) (refuses : Files.Tree → Launch → Option Files.Failure)
    (id : String) (address : Ipv4) (d : ProcessDriver) (files : Files.Tree) :
    Files.Tree × Except Error Started :=
  match d.makeJail files with
  | (files, .error e) => (files, .error (.io e))
  | (files, .ok ()) =>
    let launch := config.launch id address d.jailRoot
    match refuses files launch with
    | some failure => (files, .error (.machineStart
        ("failed to spawn " ++ config.execPath ++ ": " ++ failure.message)))
    | none =>
      let machine : Metadata := ⟨id, .v4 address⟩
      match MachineLog.openAt files (logPath config id) none with
      | .ok (log, files) => (files, .ok ⟨machine, launch, some log⟩)
      | .error _ =>
        ((MachineLog.makePlace files (logPath config id)).1, .ok ⟨machine, launch, none⟩)

/-- Starts a machine under a new identity. An address that was leased for a start that fails goes
back at once. -/
def start (config : MachineConfig) (refuses : Files.Tree → Launch → Option Files.Failure)
    (id : String) (d : ProcessDriver) (on : Premises) :
    ProcessDriver × Premises × Except Error Started :=
  if d.process.isSome then (d, on, .error (.invalidArgument .machineAlreadyStarted))
  else match on.pool.allocate with
    | .error e => (d, on, .error e)
    | .ok (address, pool) =>
      match d.spawn config refuses id address on.files with
      | (files, .error e) => (d, ⟨(pool.release address).2, files⟩, .error e)
      | (files, .ok started) =>
        ({ d with process := some ⟨address, false, none, []⟩ }, ⟨pool, files⟩, .ok started)

inductive Effect where
  | answer (call : Nat) (result : Except Error Unit)
  | terminate
  | kill

/-- Makes a call. It ends at once if the machine was never started or its process has exited. -/
def call (n : Nat) (c : ExitCall) (d : ProcessDriver) : ProcessDriver × List Effect :=
  match d.process with
  | none => (d, [.answer n (.error (.invalidArgument .machineNeverStarted))])
  | some p =>
    let killed := { p with killWanted := p.killWanted || c == .kill }
    match p.exit with
    | some exit => ({ d with process := some killed }, [.answer n (c.result exit)])
    | none =>
      let effects := match c with
        | .wait => []
        | .shutdown => [.terminate]
        | .kill => if p.killWanted then [] else [.kill]
      ({ d with process := some { killed with waiting := p.waiting ++ [(n, c)] } }, effects)

def refuse (n : Nat) (failure : Error) (d : ProcessDriver) : ProcessDriver × List Effect :=
  match d.process with
  | some p =>
    if p.waiting.any (·.1 == n) then
      ({ d with process := some { p with waiting := p.waiting.filter (·.1 != n) } },
        [.answer n (.error failure)])
    else (d, [])
  | none => (d, [])

/-- Records how the process has ended and ends the calls that wait for it. -/
def recordExit (exit : MachineExit) (d : ProcessDriver) : ProcessDriver × List Effect :=
  match d.process with
  | some p =>
    if p.exit.isSome then (d, [])
    else ({ d with process := some { p with exit := some exit, waiting := [] } },
      p.waiting.map fun (n, c) => .answer n (c.result exit))
  | none => (d, [])

def cachePath (config : MachineConfig) (id : String) : Path :=
  Path.join config.network.cacheDir id

def removeCache (config : MachineConfig) (id : String) (files : Files.Tree) :
    Files.Tree × Except Error Unit :=
  let path := cachePath config id
  match files.find path with
  | .error .notFound => (files, .ok ())
  | .error e => (files, .error (.io e))
  | .ok (_, .file _) => (files, .error (.invalidArgument (.cacheNotDirectory path)))
  | .ok (_, .directory) =>
    let (files, result) := files.removeDirectory path
    (files, result.mapError .io)

/-- Gives the address back if the process has exited, and removes what is left of the network. -/
def release (config : MachineConfig) (id : String) (d : ProcessDriver) (on : Premises) :
    Premises × Except Error Unit :=
  let pool := match d.process with
    | some p => if p.exit.isSome then (on.pool.release p.address).2 else on.pool
    | none => on.pool
  let (files, result) := removeCache config id on.files
  (⟨pool, files⟩, result)

end ProcessDriver

end MachineFleet
