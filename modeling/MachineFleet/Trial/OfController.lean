import MachineFleet.Trial.Clock
import MachineFleet.Trial.Machine

/-!
Trials of a controller with a scripted machine: callers that hold it, start and stop requests that
are under way, and a supervisor that listens to events. The tasks that can go on take turns; each
goes on as long as it can.
-/
namespace MachineFleet

namespace ControllerTrial

inductive RequestKind where
  | start
  | stop
  deriving DecidableEq, Repr

inductive Stage where
  | queued
  | waiting
  | over
  deriving DecidableEq, Repr

structure Request where
  name : String
  kind : RequestKind
  stage : Stage
  isKnown : Bool

inductive Task where
  | part (p : Trial.Part)
  | request (n : Nat)
  deriving DecidableEq, Repr

structure Reply where
  time : Instant
  name : String
  kind : RequestKind
  answer : Answer

end ControllerTrial

structure ControllerTrial where
  now : Instant
  controller : Controller
  bench : Trial.Bench
  surface : Trial.Surface
  handles : Nat
  supervised : Bool
  requests : List ControllerTrial.Request
  current : Option Trial.Part
  queue : List ControllerTrial.Task
  events : List FleetEvent
  replies : List ControllerTrial.Reply

namespace ControllerTrial

def new (controller : Controller) (script : Trial.MachineScript) (surface : Trial.Surface) :
    ControllerTrial where
  now := 0
  controller
  bench := .new script
  surface
  handles := 1
  supervised := true
  requests := []
  current := none
  queue := []
  events := []
  replies := []

def Request.holds (r : Request) : Bool := r.kind == .stop && r.stage != .over

def held (s : ControllerTrial) : Bool := 0 < s.handles || s.requests.any (·.holds)

def surroundings (s : ControllerTrial) : Controller.Surroundings where
  now := s.now
  held := s.held
  awaits r := s.requests[r]?.any (·.stage == .waiting)

def isReady (s : ControllerTrial) (p : Trial.Part) : Bool :=
  (s.bench.action? s.controller s.held s.now p).isSome

/-- The tasks in the order in which they take their turns when they become ready at once. -/
def parts : List Trial.Part := [.waiter, .ticker, .tracker, .controller]

def wake (s : ControllerTrial) : ControllerTrial :=
  let woken := parts.filter fun p =>
    s.isReady p && s.current != some p && !s.queue.contains (.part p)
  { s with queue := s.queue ++ woken.map .part }

def conclude (s : ControllerTrial) (n : Nat) (answer : Answer) : ControllerTrial :=
  match s.requests[n]? with
  | some r =>
    if r.stage = .over then s
    else { s with
      requests := s.requests.set n { r with stage := .over }
      replies := s.replies ++ [⟨s.now, r.name, r.kind, answer⟩] }
  | none => s

def absorb (s : ControllerTrial) : Controller.Effect → ControllerTrial
  | .answer reply answer => s.conclude reply answer
  | .event event => if s.supervised then { s with events := s.events ++ [event] } else s
  | _ => s

def perform (s : ControllerTrial) (p : Trial.Part) : Option ControllerTrial := do
  let (action, bench) ← s.bench.action? s.controller s.held s.now p
  let (controller, effects) ← s.controller.step s.surroundings action
  let (bench, surface) := effects.foldl (Trial.Bench.absorb s.now) (bench, s.surface)
  return (effects.foldl absorb { s with controller, bench, surface }).wake

def post? (s : ControllerTrial) (m : Message) : Option ControllerTrial :=
  (s.controller.post? m).map fun controller => { s with controller }.wake

def sendStop (s : ControllerTrial) (n : Nat) : ControllerTrial :=
  match s.requests[n]? with
  | some r =>
    if r.stage = .queued then
      match { s with requests := s.requests.set n { r with stage := .waiting } }.post? (.stop n) with
      | some s => s
      | none => s.conclude n .dropped
    else s
  | none => s

def run : (fuel : Nat) → ControllerTrial → ControllerTrial
  | 0, s => s
  | fuel + 1, s =>
    match s.current with
    | some p =>
      match s.perform p with
      | some s => run fuel s
      | none => run fuel { s with current := none }
    | none =>
      match s.queue with
      | [] => s
      | .part p :: rest => run fuel { s with queue := rest, current := some p }
      | .request n :: rest => run fuel ({ s with queue := rest }.sendStop n)

def maxSteps : Nat := 100000

def timed : Trial.Timed ControllerTrial where
  now := (·.now)
  moveTo t s := { s with now := t }.wake
  due s := s.bench.due s.controller
  settle s := run maxSteps s.wake

def cleared (s : ControllerTrial) : ControllerTrial :=
  { s with bench := s.bench.cleared, events := [], replies := [] }

def addRequest (s : ControllerTrial) (r : Request) : ControllerTrial :=
  { s with
    requests := s.requests.map (fun old =>
      if old.name = r.name then { old with isKnown := false } else old) ++ [r] }

def start? (s : ControllerTrial) (name : String) : Option ControllerTrial :=
  (s.addRequest ⟨name, .start, .waiting, true⟩).post? (.start s.requests.length)

def stop (s : ControllerTrial) (name : String) : ControllerTrial :=
  let s' := s.addRequest ⟨name, .stop, .queued, true⟩
  { s' with queue := s'.queue ++ [.request s.requests.length] }

def cancel? (s : ControllerTrial) (name : String) : Option ControllerTrial :=
  (s.requests.findIdx? fun r => r.name == name && r.isKnown).map fun n =>
    { s with requests := s.requests.modify n fun r =>
        { r with stage := .over, isKnown := false } }.wake

def clone (s : ControllerTrial) : ControllerTrial := { s with handles := s.handles + 1 }

def drop (s : ControllerTrial) : ControllerTrial := { s with handles := s.handles - 1 }.wake

def exit (s : ControllerTrial) (failure : Option Error) : ControllerTrial :=
  { s with bench := s.bench.exitWith failure }.wake

def isClosed? (s : ControllerTrial) : Option Bool :=
  if 0 < s.handles then some (!s.controller.isOpen) else none

end ControllerTrial

end MachineFleet
