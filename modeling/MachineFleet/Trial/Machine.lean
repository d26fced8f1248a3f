import MachineFleet.Lifecycle.Controller
import MachineFleet.Machine.Jail
import MachineFleet.Trial.Prober

namespace MachineFleet.Trial

inductive StartScript where
  | succeed
  | fail
  | hang
  deriving DecidableEq, Repr

inductive ShutdownScript where
  | exit
  /-- The machine says it will but stays. -/
  | stay
  | fail
  | hang
  deriving DecidableEq, Repr

structure MachineScript where
  machine : Metadata
  start : StartScript
  startDelay : Duration
  shutdown : ShutdownScript
  shutdownDelay : Duration
  killWorks : Bool
  killDelay : Duration
  releaseWorks : Bool
  root : Option Path

inductive Part where
  | waiter
  | ticker
  | tracker
  | controller
  deriving DecidableEq, Repr

structure Bench where
  script : MachineScript
  exit : Option (Option Error)
  callEnd : Option Instant
  removal : Except Error Unit
  check : Option PendingCheck
  calls : List (Instant × DriverCall)
  checks : List Check

structure Surface where
  prober : Prober
  files : Files.Tree

namespace Bench

def new (script : MachineScript) : Bench := ⟨script, none, none, .ok (), none, [], []⟩

def exitWith (b : Bench) (failure : Option Error) : Bench :=
  { b with exit := some (b.exit.getD failure) }

def broken : Error := .machineExit "broken"

def startResult (script : MachineScript) : Except Error Metadata :=
  match script.start with
  | .fail => .error (.machineStart "no capacity")
  | _ => .ok script.machine

def refusal : Error := .custom "refused" []

def failureOf (e : Except Error Unit) : Option Error :=
  match e with
  | .ok () => none
  | .error e => some e

def callResult? (b : Bench) : Controller.Phase → Option (Controller.Action × Bench)
  | .starting _ => some (.driverStarted (startResult b.script), b)
  | .shuttingDown .. =>
    match b.script.shutdown with
    | .exit => some (.driverShutDown none, b.exitWith none)
    | .fail => some (.driverShutDown (some refusal), b)
    | _ => some (.driverShutDown none, b)
  | .killing _ =>
    if b.script.killWorks then some (.driverKilled none, b.exitWith (some broken))
    else some (.driverKilled (some refusal), b)
  | .releasing _ =>
    some (.networkReleased (if b.script.releaseWorks then none else some refusal) b.script.root, b)
  | .removing _ => some (.rootRemoved (failureOf b.removal), b)
  | _ => none

/-- What a task can do now. A call that ends at its deadline ends in time. -/
def action? (b : Bench) (c : Controller) (held : Bool) (now : Instant) :
    Part → Option (Controller.Action × Bench)
  | .controller =>
    match c.phase with
    | .stopped | .started _ =>
      if c.mailbox.isEmpty && held then none else some (.receive, b)
    | .exiting _ => some (.reportExit, b)
    | .terminated => none
    | phase =>
      if b.callEnd.any (· ≤ now) then b.callResult? phase
      else
        match phase with
        | .shuttingDown _ deadline => if deadline ≤ now then some (.shutdownExpired, b) else none
        | _ => none
  | .waiter =>
    match b.exit with
    | some failure => if c.watching then some (.machineExited failure, b) else none
    | none => none
  | .ticker =>
    match c.probe? with
    | none => none
    | some p =>
      if p.ticker.isFiring then
        match b.check with
        | some check => if check.ends ≤ now then some (.checkEnded check.outcome, b) else none
        | none => none
      else if p.ticker.due?.any (· ≤ now) then some (.tick, b) else none
  | .tracker =>
    match c.probe? with
    | some p => if p.tracker.isSome && !p.outcomes.isEmpty then some (.judge, b) else none
    | none => none

def endOf (script : MachineScript) (now : Instant) : DriverCall → Option Instant
  | .start => if script.start = .hang then none else some (now + script.startDelay)
  | .shutdown => if script.shutdown = .hang then none else some (now + script.shutdownDelay)
  | .kill => some (now + script.killDelay)
  | _ => some now

def absorb (now : Instant) (state : Bench × Surface) : Controller.Effect → Bench × Surface
  | .call call =>
    let (b, s) := state
    ({ b with calls := b.calls ++ [(now, call)], callEnd := endOf b.script now call }, s)
  | .removeRoot root =>
    let (b, s) := state
    let (files, removal) := removeIsolatedRoot s.files root
    ({ b with removal, callEnd := some now }, { s with files })
  | .check url timeout =>
    let (b, s) := state
    let (check, prober) := s.prober.begin now url timeout
    ({ b with check := some check, checks := b.checks ++ [⟨now, url, timeout⟩] },
      { s with prober })
  | _ => state

def due (b : Bench) (c : Controller) : List Instant :=
  let call := match c.phase with
    | .stopped | .started _ | .exiting _ | .terminated => []
    | .shuttingDown _ deadline => deadline :: b.callEnd.toList
    | _ => b.callEnd.toList
  let probe := match c.probe? with
    | some p =>
      if p.ticker.isFiring then (b.check.map (·.ends)).toList else p.ticker.due?.toList
    | none => []
  call ++ probe

def cleared (b : Bench) : Bench := { b with calls := [], checks := [] }

end Bench

end MachineFleet.Trial
