import MachineFleet.Fleet.Health
import MachineFleet.Fleet.Registry
import MachineFleet.Fleet.Workload
import MachineFleet.Lifecycle.Controller

/-!
A fleet: the controllers of its machines, the registry of those that run, and the calls that are
under way on it. Starting a machine makes a controller and registers the machine once it runs;
controllers report readiness and exits by events, which the event loop alone applies to the
registry; closing stops the registered machines one after the other.

`Fleet.step` is one atomic step of a call, of the event loop or of a controller. Who steps when,
and how drivers, checks and clients behave, is left to the caller, so a run is any sequence of
steps.
-/
namespace MachineFleet

namespace Fleet

inductive Request where
  | start
  | invoke (request : WorkloadRequest)
  | close
  deriving DecidableEq, Repr

inductive Outcome where
  | started (result : Except Error Metadata)
  | invoked (result : Except Error WorkloadResponse)
  | closed

/-- Where a call stands. Controllers are named by their numbers. -/
inductive Call where
  | creating
  | awaiting (controller : Nat) (reply : ReplyId) (deadline : Instant) (answer : Option Answer)
  /-- The machine did not start in time; until the call gives the answer up, one could still
  arrive, and would be lost. -/
  | expiring (controller : Nat) (reply : ReplyId)
  | registering (controller : Nat) (machine : Metadata)
  | announcing (controller : Nat) (machine : Metadata)
  | retiring (controller : Nat) (error : Error)
  | leaving (controller : Nat) (result : Except Error Metadata)
  | selecting (request : WorkloadRequest)
  /-- The client has the request; the machines that were ready are held until it answers. -/
  | relaying (held : List Nat)
  | closing
  | snapshotting
  | draining (rest : List (Entry Nat))
  | stopping (entry : Entry Nat) (reply : ReplyId) (deadline : Instant) (answer : Option Answer)
      (rest : List (Entry Nat))
  | finished (outcome : Outcome)
  | abandoned

inductive Existence where
  | alive
  | dropping
  | gone
  deriving DecidableEq, Repr

inductive Effect where
  | controller (index : Nat) (effect : Controller.Effect)
  | sent (index : Nat) (message : Message)
  | relay (call : Nat) (endpoint : Endpoint) (request : WorkloadRequest)
  deriving DecidableEq, Repr

inductive Action where
  | request (r : Request)
  | create (call : Nat) (driver : Except Error Unit)
  /-- A call goes on where nothing has to be waited for or chosen. -/
  | proceed (call : Nat)
  /-- A machine is chosen to receive work, by its number among those that are ready. -/
  | route (call : Nat) (pick : Nat)
  | respond (call : Nat) (result : Except Error WorkloadResponse)
  | drain (call : Nat) (id : String)
  | expire (call : Nat)
  | abandon (call : Nat)
  | controller (index : Nat) (action : Controller.Action)
  | handleEvent
  | remove (id : String)
  | setReady (id : String) (ready : Bool)
  | drop
  | vanish
  | elapse (d : Duration)

end Fleet

structure Fleet where
  config : FleetConfig
  now : Instant
  controllers : List Controller
  registry : Registry Nat
  health : Health
  events : List FleetEvent
  eventLoop : Bool
  calls : List Fleet.Call
  nextReply : ReplyId
  existence : Fleet.Existence

namespace Fleet

namespace Call

def holds (c : Nat) : Call → Bool
  | awaiting controller .. => controller == c
  | expiring controller _ => controller == c
  | registering controller _ => controller == c
  | announcing controller _ => controller == c
  | retiring controller _ => controller == c
  | leaving controller _ => controller == c
  | relaying held => held.contains c
  | draining rest => rest.any (·.controller == c)
  | stopping entry _ _ _ rest => entry.controller == c || rest.any (·.controller == c)
  | _ => false

def awaits (r : ReplyId) : Call → Bool
  | awaiting _ reply _ none => reply == r
  | expiring _ reply => reply == r
  | stopping _ reply _ none _ => reply == r
  | _ => false

def isUnfinished : Call → Bool
  | finished _ => false
  | abandoned => false
  | _ => true

/-- Whether a call has not begun or waits for something; only then can its caller give it up. -/
def isSuspended : Call → Bool
  | creating => true
  | awaiting .. => true
  | selecting _ => true
  | relaying _ => true
  | closing => true
  | stopping .. => true
  | _ => false

def deliver (r : ReplyId) (answer : Answer) : Call → Call
  | awaiting controller reply deadline none =>
    awaiting controller reply deadline (if reply = r then some answer else none)
  | stopping entry reply deadline none rest =>
    stopping entry reply deadline (if reply = r then some answer else none) rest
  | call => call

end Call

def Request.begin : Request → Call
  | start => .creating
  | invoke request => .selecting request
  | close => .closing

def start (config : FleetConfig) : Fleet where
  config
  now := 0
  controllers := []
  registry := .empty
  health := Health.initial.setUp
  events := []
  eventLoop := true
  calls := []
  nextReply := 0
  existence := .alive

/-- Whether anybody holds a controller: its entry in the registry or a call. -/
def holds (f : Fleet) (c : Nat) : Bool :=
  f.registry.snapshot.any (·.controller == c) || f.calls.any (·.holds c)

def surroundings (f : Fleet) (c : Nat) : Controller.Surroundings where
  now := f.now
  held := f.holds c
  awaits r := f.calls.any (·.awaits r)

def isOpen (f : Fleet) (c : Nat) : Bool :=
  match f.controllers[c]? with
  | some controller => controller.isOpen
  | none => false

def setCall (f : Fleet) (k : Nat) (call : Call) : Fleet := { f with calls := f.calls.set k call }

def finish (f : Fleet) (k : Nat) (outcome : Outcome) : Fleet := f.setCall k (.finished outcome)

def send (f : Fleet) (c : Nat) (m : Message) : Fleet × List Effect :=
  match f.controllers[c]?.bind (·.post? m) with
  | some controller => ({ f with controllers := f.controllers.set c controller }, [.sent c m])
  | none => (f, [])

def create (f : Fleet) (k : Nat) : Except Error Unit → Fleet × List Effect
  | .error e => (f.finish k (.started (.error e)), [])
  | .ok () =>
    let c := f.controllers.length
    let controller := Controller.new f.config.probe f.config.machine.shutdownTimeout
    let f := { f with controllers := f.controllers ++ [controller], nextReply := f.nextReply + 1 }
    let call := .awaiting c (f.nextReply - 1) (f.now + f.config.startTimeout) none
    (f.setCall k call).send c (.start (f.nextReply - 1))

def takeStarted (f : Fleet) (k c : Nat) : Answer → Fleet
  | .started machine => f.setCall k (.registering c machine)
  | .failed e => f.finish k (.started (.error e))
  | _ => f.finish k (.started (.error .controllerUnavailable))

/-- Registers a machine that runs. One that is refused is going to be shut down. -/
def register (f : Fleet) (k c : Nat) (machine : Metadata) : Fleet :=
  match f.registry.add machine.id c (!f.isOpen c) machine.address with
  | .ok registry => { f with registry }.setCall k (.announcing c machine)
  | .error e => f.setCall k (.retiring c e)

def route (f : Fleet) (k : Nat) (request : WorkloadRequest) (pick : Nat) : Fleet × List Effect :=
  let ready := f.registry.readyEntries
  match ready[pick]? with
  | some entry =>
    (f.setCall k (.relaying (ready.map (·.controller))),
      [.relay k ⟨entry.address, f.config.workloadPort⟩ request])
  | none => (f.finish k (.invoked (.error .noReadyBackend)), [])

def afterStop (f : Fleet) (k : Nat) (entry : Entry Nat) (rest : List (Entry Nat)) : Fleet :=
  { f with registry := f.registry.remove entry.id }.setCall k (.draining rest)

def stopOne (f : Fleet) (k : Nat) (entry : Entry Nat) (rest : List (Entry Nat)) :
    Fleet × List Effect :=
  if f.isOpen entry.controller then
    let reply := f.nextReply
    let call := .stopping entry reply (f.now + f.config.stopTimeout) none rest
    ({ f with nextReply := reply + 1 }.setCall k call).send entry.controller (.stop reply)
  else (f.afterStop k entry rest, [])

def endEvents (f : Fleet) : Fleet := { f with eventLoop := false, events := [] }

def proceed (f : Fleet) (k : Nat) : Option (Fleet × List Effect) :=
  match f.calls[k]? with
  | some (.awaiting c _ _ (some answer)) => some (f.takeStarted k c answer, [])
  | some (.expiring c _) =>
    some (f.setCall k (.retiring c (.startTimeout f.config.startTimeout)), [])
  | some (.registering c machine) => some (f.register k c machine, [])
  | some (.announcing c machine) =>
    some ((f.setCall k (.leaving c (.ok machine))).send c .registered)
  | some (.retiring c e) => some ((f.setCall k (.leaving c (.error e))).send c .retire)
  | some (.leaving _ result) => some (f.finish k (.started result), [])
  | some .closing => some ({ f with health := f.health.setDown }.setCall k .snapshotting, [])
  | some .snapshotting => some (f.setCall k (.draining f.registry.snapshot), [])
  | some (.stopping entry _ _ (some _) rest) => some (f.afterStop k entry rest, [])
  | some (.draining []) => some (f.endEvents.finish k .closed, [])
  | _ => none

def drain (f : Fleet) (k : Nat) (id : String) : Option (Fleet × List Effect) :=
  match f.calls[k]? with
  | some (.draining rest) =>
    (rest.find? (·.id == id)).map fun entry => f.stopOne k entry (rest.filter (·.id != id))
  | _ => none

/-- Ends the wait of a call at its deadline. A machine that did not start in time is going to be shut
down, one that did not stop in time is passed over. -/
def expire (f : Fleet) (k : Nat) : Option (Fleet × List Effect) :=
  match f.calls[k]? with
  | some (.awaiting c reply deadline none) =>
    if deadline ≤ f.now then some (f.setCall k (.expiring c reply), []) else none
  | some (.stopping entry _ deadline none rest) =>
    if deadline ≤ f.now then some (f.afterStop k entry rest, []) else none
  | _ => none

/-- Takes what a controller does into the fleet: answers reach the calls that wait for them, and
events wait for the event loop. -/
def absorb (f : Fleet) : Controller.Effect → Fleet
  | .answer reply answer => { f with calls := f.calls.map (·.deliver reply answer) }
  | .event event => if f.eventLoop then { f with events := f.events ++ [event] } else f
  | _ => f

def stepController (f : Fleet) (c : Nat) (a : Controller.Action) : Option (Fleet × List Effect) :=
  match f.controllers[c]? with
  | none => none
  | some controller =>
    (controller.step (f.surroundings c) a).map fun (controller, effects) =>
      (effects.foldl absorb { f with controllers := f.controllers.set c controller },
        effects.map (.controller c))

def applyEvent (r : Registry Nat) : FleetEvent → Registry Nat
  | .stopped id => r.remove id
  | .ready machine => r.setReady machine.id true
  | .unready machine => r.setReady machine.id false

def vanish (f : Fleet) : Fleet := { f.endEvents with registry := .empty, existence := .gone }

def step (f : Fleet) : Action → Option (Fleet × List Effect)
  | .request r =>
    if f.existence = .alive then some ({ f with calls := f.calls ++ [r.begin] }, []) else none
  | .create k driver =>
    match f.calls[k]? with
    | some .creating => some (f.create k driver)
    | _ => none
  | .proceed k => f.proceed k
  | .route k pick =>
    match f.calls[k]? with
    | some (.selecting request) => some (f.route k request pick)
    | _ => none
  | .respond k result =>
    match f.calls[k]? with
    | some (.relaying _) => some (f.finish k (.invoked result), [])
    | _ => none
  | .drain k id => f.drain k id
  | .expire k => f.expire k
  | .abandon k =>
    match f.calls[k]? with
    | some call => if call.isSuspended then some (f.setCall k .abandoned, []) else none
    | none => none
  | .controller c a => f.stepController c a
  | .handleEvent =>
    match f.eventLoop, f.events with
    | true, event :: rest =>
      some ({ f with events := rest, registry := applyEvent f.registry event }, [])
    | _, _ => none
  | .remove id => some ({ f with registry := f.registry.remove id }, [])
  | .setReady id ready => some ({ f with registry := f.registry.setReady id ready }, [])
  | .drop => if f.existence = .alive then some ({ f with existence := .dropping }, []) else none
  | .vanish =>
    if f.existence = .dropping ∧ ¬ f.calls.any (·.isUnfinished) then some (f.vanish, []) else none
  | .elapse d => some ({ f with now := f.now + d }, [])

end Fleet

end MachineFleet
