import MachineFleet.Probe

/-!
The controller of one machine. It takes its mail one message at a time: it starts the machine,
probes it once the fleet knows it, passes readiness changes on, and tears it down when it is told
to, when nobody holds it any more, or when the machine has exited on its own.

`Controller.step` is one atomic step of the controller, of the task that waits for the machine's
exit, or of the probe. What else runs, and when a call of the driver ends, is left to the caller,
so a run is any sequence of steps.
-/
namespace MachineFleet

structure Running where
  machine : Metadata
  probe : Option Probe
  /-- Whether probing was begun, with or without success. -/
  probing : Bool
  deriving DecidableEq, Repr

structure Teardown where
  id : String
  reply : Option ReplyId
  deriving DecidableEq, Repr

namespace Controller

inductive Phase where
  | stopped
  | starting (reply : ReplyId)
  | started (run : Running)
  /-- The machine has exited on its own; no more mail is accepted, and the fleet is about to be
  told. -/
  | exiting (run : Running)
  | shuttingDown (teardown : Teardown) (deadline : Instant)
  | killing (teardown : Teardown)
  | releasing (teardown : Teardown)
  | removing (teardown : Teardown)
  | terminated
  deriving DecidableEq, Repr

end Controller

structure Controller where
  probeConfig : ProbeConfig
  shutdownTimeout : Duration
  mailbox : List Message
  isOpen : Bool
  watching : Bool
  phase : Controller.Phase
  deriving DecidableEq, Repr

namespace Controller

structure Surroundings where
  now : Instant
  /-- Whether anybody holds the controller. -/
  held : Bool
  awaits : ReplyId → Bool

inductive Effect where
  | call (call : DriverCall)
  | removeRoot (root : Path)
  | answer (reply : ReplyId) (answer : Answer)
  | event (event : FleetEvent)
  | check (url : Url) (timeout : Duration)
  deriving DecidableEq, Repr

/-- The steps. Those with a result end a call that the controller has made. -/
inductive Action where
  | receive
  | reportExit
  | driverStarted (machine : Except Error Metadata)
  | driverShutDown (failure : Option Error)
  | shutdownExpired
  | driverKilled (failure : Option Error)
  | networkReleased (failure : Option Error) (root : Option Path)
  | rootRemoved (failure : Option Error)
  | machineExited (failure : Option Error)
  | tick
  | checkEnded (outcome : Signal)
  | judge

def new (probeConfig : ProbeConfig) (shutdownTimeout : Duration) : Controller where
  probeConfig
  shutdownTimeout
  mailbox := []
  isOpen := true
  watching := false
  phase := .stopped

def post? (c : Controller) (m : Message) : Option Controller :=
  if c.isOpen then some { c with mailbox := c.mailbox ++ [m] } else none

def postIfHeld (c : Controller) (held : Bool) (m : Message) : Controller :=
  if held then (c.post? m).getD c else c

/-- The end of a request that a message carries and that is not served. -/
def dropReply (m : Message) : List Effect :=
  match m.reply? with
  | some reply => [.answer reply .dropped]
  | none => []

def terminate (c : Controller) : Controller × List Effect :=
  ({ c with mailbox := [], isOpen := false, watching := false, phase := .terminated },
    c.mailbox.flatMap dropReply)

def beginShutdown (c : Controller) (now : Instant) (id : String) (reply : Option ReplyId) :
    Controller × List Effect :=
  ({ c with phase := .shuttingDown ⟨id, reply⟩ (now + c.shutdownTimeout) }, [.call .shutdown])

def beginRelease (c : Controller) (t : Teardown) : Controller × List Effect :=
  ({ c with watching := false, phase := .releasing t }, [.call (.releaseNetwork t.id)])

def finish (c : Controller) (t : Teardown) : Controller × List Effect :=
  let answers := match t.reply with
    | some reply => [.answer reply (.stopped t.id)]
    | none => []
  let (c, rest) := c.terminate
  (c, answers ++ rest)

/-- Begins to probe, unless that was done before. A probe that cannot be made leaves the machine
not ready for good. -/
def beginProbing (now : Instant) (config : ProbeConfig) (run : Running) : Running :=
  if run.probing then run
  else { run with
    probing := true
    probe := (Probe.spawn (config.toSpec run.machine.address) run.machine now).toOption }

def receiveStopped (c : Controller) (m : Message) : Controller × List Effect :=
  match m with
  | .start reply => ({ c with phase := .starting reply }, [.call .start])
  | other => (c, dropReply other)

def receiveStarted (c : Controller) (now : Instant) (run : Running) (m : Message) :
    Controller × List Effect :=
  match m with
  | .registered => ({ c with phase := .started (beginProbing now c.probeConfig run) }, [])
  | .stop reply => c.beginShutdown now run.machine.id (some reply)
  | .retire => c.beginShutdown now run.machine.id none
  | .runFinished _ => ({ c with isOpen := false, phase := .exiting run }, [])
  | .ready machine => (c, [.event (.ready machine)])
  | .unready machine => (c, [.event (.unready machine)])
  | .start reply => (c, [.answer reply .dropped])

def receive? (c : Controller) (s : Surroundings) : Option (Controller × List Effect) :=
  match c.phase, c.mailbox with
  | .stopped, m :: rest => some ({ c with mailbox := rest }.receiveStopped m)
  | .stopped, [] => if s.held then none else some c.terminate
  | .started run, m :: rest => some ({ c with mailbox := rest }.receiveStarted s.now run m)
  | .started run, [] =>
    if s.held then none else some (c.beginShutdown s.now run.machine.id none)
  | _, _ => none

/-- The driver has started the machine, or failed to. If nobody waits for the news any more the
machine is shut down. -/
def afterStart (c : Controller) (s : Surroundings) (reply : ReplyId) :
    Except Error Metadata → Controller × List Effect
  | .error e =>
    let (c, rest) := c.terminate
    (c, .answer reply (.failed e) :: rest)
  | .ok machine =>
    let c := { c with watching := true }
    if s.awaits reply then
      ({ c with phase := .started ⟨machine, none, false⟩ }, [.answer reply (.started machine)])
    else c.beginShutdown s.now machine.id none

def probe? (c : Controller) : Option Probe :=
  match c.phase with
  | .started run => run.probe
  | .exiting run => run.probe
  | _ => none

def setProbe (c : Controller) (p : Probe) : Controller :=
  match c.phase with
  | .started run => { c with phase := .started { run with probe := some p } }
  | .exiting run => { c with phase := .exiting { run with probe := some p } }
  | _ => c

def step (c : Controller) (s : Surroundings) : Action → Option (Controller × List Effect)
  | .receive => c.receive? s
  | .reportExit =>
    match c.phase with
    | .exiting run =>
      let (c, effects) := c.beginRelease ⟨run.machine.id, none⟩
      some (c, .event (.stopped run.machine.id) :: effects)
    | _ => none
  | .driverStarted result =>
    match c.phase with
    | .starting reply => some (c.afterStart s reply result)
    | _ => none
  | .driverShutDown failure =>
    match c.phase with
    | .shuttingDown t _ =>
      if failure.isNone then some (c.beginRelease t)
      else some ({ c with phase := .killing t }, [.call .kill])
    | _ => none
  | .shutdownExpired =>
    match c.phase with
    | .shuttingDown t deadline =>
      if deadline ≤ s.now then some ({ c with phase := .killing t }, [.call .kill]) else none
    | _ => none
  | .driverKilled _ =>
    match c.phase with
    | .killing t => some (c.beginRelease t)
    | _ => none
  | .networkReleased _ root =>
    match c.phase with
    | .releasing t =>
      match root with
      | some root =>
        some ({ c with phase := .removing t }, [.call .isolatedRoot, .removeRoot root])
      | none =>
        let (c, effects) := c.finish t
        some (c, .call .isolatedRoot :: effects)
    | _ => none
  | .rootRemoved _ =>
    match c.phase with
    | .removing t => some (c.finish t)
    | _ => none
  | .machineExited failure =>
    if c.watching then
      some ({ c with watching := false }.postIfHeld s.held (.runFinished failure), [])
    else none
  | .tick => do
    let p ← c.probe?
    let p' ← p.tick? s.now
    return (c.setProbe p', [.check p.url p.timeout])
  | .checkEnded outcome => do
    let p ← (← c.probe?).finish? outcome
    return (c.setProbe p, [])
  | .judge => do
    let (p, report) ← (← c.probe?).judge? (s.held && c.isOpen)
    let c := c.setProbe p
    return ((report.map (c.postIfHeld s.held)).getD c, [])

end Controller

end MachineFleet
