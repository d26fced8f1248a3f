import MachineFleet.Fleet.Selector
import MachineFleet.Server.Api
import MachineFleet.Trial.Clock
import MachineFleet.Trial.Machine

/-!
Trials of a fleet with scripted machines and a scripted client. Callers ask the fleet directly or
over HTTP; calls, controllers and the event loop take turns, each going on as long as it can. A
call whose deadline has come gets its turn once nothing else can happen at that instant, so what
ends at a deadline ends in time.
-/
namespace MachineFleet

namespace FleetTrial

inductive Chooser where
  | roundRobin (state : RoundRobin)
  | random (state : RandomChoice)
  | outOfRange

def Chooser.pick (size : Nat) : Chooser → Nat × Chooser
  | roundRobin state => ((state.pick size).1, roundRobin (state.pick size).2)
  | random state => ((state.pick size).1, random (state.pick size).2)
  | outOfRange => (size, outOfRange)

structure Client where
  delay : Duration
  answer : Except Error WorkloadResponse

inductive Errand where
  | direct (call : Nat)
  | viaHttp (method : String) (call : Nat)
  | immediate (method : String) (demand : Server.Api.Demand)

structure Job where
  name : String
  errand : Errand
  isOver : Bool
  isKnown : Bool

inductive Answer where
  | outcome (outcome : Fleet.Outcome)
  | http (response : Server.Response)

structure Reply where
  time : Instant
  name : String
  answer : Answer

inductive Task where
  | part (machine : Nat) (p : Trial.Part)
  | call (k : Nat)
  | eventLoop
  | expiry (k : Nat)
  | job (n : Nat)
  deriving DecidableEq, Repr

structure Arrival where
  time : Instant
  endpoint : Endpoint
  request : WorkloadRequest

end FleetTrial

structure FleetTrial where
  fleet : Fleet
  benches : List Trial.Bench
  surface : Trial.Surface
  chooser : FleetTrial.Chooser
  client : FleetTrial.Client
  jobs : List FleetTrial.Job
  answersAt : List (Nat × Instant)
  current : Option FleetTrial.Task
  queue : List FleetTrial.Task
  replies : List FleetTrial.Reply
  arrivals : List FleetTrial.Arrival

namespace FleetTrial

def new (config : FleetConfig) (scripts : List Trial.MachineScript) (surface : Trial.Surface)
    (chooser : Chooser) (client : Client) : FleetTrial where
  fleet := .start config
  benches := scripts.map .new
  surface
  chooser
  client
  jobs := []
  answersAt := []
  current := none
  queue := []
  replies := []
  arrivals := []

def now (s : FleetTrial) : Instant := s.fleet.now

def noMachineLeft : Error := .machineStart "no more machines"

def isExpired (s : FleetTrial) (k : Nat) : Bool :=
  match s.fleet.calls[k]? with
  | some (.awaiting _ _ deadline none) => deadline ≤ s.now
  | some (.stopping _ _ deadline none _) => deadline ≤ s.now
  | _ => false

/-- What a call does next, with who chooses from then on. Deadlines of no length end at once. -/
def callAction? (s : FleetTrial) (k : Nat) : Option (Fleet.Action × Chooser) :=
  match s.fleet.calls[k]? with
  | none => none
  | some call =>
    match call with
    | .creating =>
      let driver := if s.fleet.controllers.length < s.benches.length then .ok ()
        else .error noMachineLeft
      some (.create k driver, s.chooser)
    | .awaiting _ _ _ none =>
      if s.isExpired k && s.fleet.config.startTimeout == 0 then some (.expire k, s.chooser)
      else none
    | .selecting _ =>
      let size := s.fleet.registry.readyEntries.length
      if size = 0 then some (.route k 0, s.chooser)
      else
        let (pick, chooser) := s.chooser.pick size
        some (.route k pick, chooser)
    | .relaying _ =>
      if s.answersAt.any fun (call, t) => call == k && t ≤ s.now then
        some (.respond k s.client.answer, s.chooser)
      else none
    | .draining (entry :: _) => some (.drain k entry.id, s.chooser)
    | .stopping _ _ _ none _ =>
      if s.isExpired k && s.fleet.config.stopTimeout == 0 then some (.expire k, s.chooser)
      else none
    | .finished _ => none
    | .abandoned => none
    | _ => some (.proceed k, s.chooser)

def partAction? (s : FleetTrial) (i : Nat) (p : Trial.Part) :
    Option (Controller.Action × Trial.Bench) := do
  let controller ← s.fleet.controllers[i]?
  let bench ← s.benches[i]?
  bench.action? controller (s.fleet.holds i) s.now p

def isReady (s : FleetTrial) : Task → Bool
  | .part i p => (s.partAction? i p).isSome
  | .call k => (s.callAction? k).isSome
  | .eventLoop => s.fleet.eventLoop && !s.fleet.events.isEmpty
  | .expiry k => s.isExpired k
  | .job _ => false

def tasks (s : FleetTrial) : List Task :=
  ((List.range s.fleet.controllers.length).flatMap fun i =>
    [.part i .waiter, .part i .ticker, .part i .tracker, .part i .controller]) ++
  (List.range s.fleet.calls.length).map .call ++ [.eventLoop]

def wake (s : FleetTrial) : FleetTrial :=
  let s := match s.fleet.step .vanish with
    | some (fleet, _) => { s with fleet }
    | none => s
  let woken := s.tasks.filter fun t =>
    s.isReady t && s.current != some t && !s.queue.contains t
  { s with queue := s.queue ++ woken }

def Errand.answer (outcome : Fleet.Outcome) : Errand → Answer
  | viaHttp method _ => .http ((Server.Api.answerOutcome outcome).seenBy method)
  | _ => .outcome outcome

def Errand.call? : Errand → Option Nat
  | direct call => some call
  | viaHttp _ call => some call
  | _ => none

def concludeJob (s : FleetTrial) (n : Nat) (answer : Answer) : FleetTrial :=
  match s.jobs[n]? with
  | some job =>
    if job.isOver then s
    else { s with
      jobs := s.jobs.set n { job with isOver := true }
      replies := s.replies ++ [⟨s.now, job.name, answer⟩] }
  | none => s

def concludeCall (s : FleetTrial) (k : Nat) : FleetTrial :=
  match s.fleet.calls[k]? with
  | some (.finished outcome) =>
    match s.jobs.findIdx? (·.errand.call? == some k) with
    | some n =>
      match s.jobs[n]? with
      | some job => s.concludeJob n (job.errand.answer outcome)
      | none => s
    | none => s
  | _ => s

def absorb (s : FleetTrial) : Fleet.Effect → FleetTrial
  | .controller i e =>
    match s.benches[i]? with
    | some bench =>
      let (bench, surface) := Trial.Bench.absorb s.now (bench, s.surface) e
      { s with benches := s.benches.set i bench, surface }
    | none => s
  | .relay k endpoint request =>
    { s with
      arrivals := s.arrivals ++ [⟨s.now, endpoint, request⟩]
      answersAt := (k, s.now + s.client.delay) :: s.answersAt }
  | .sent .. => s

def act (s : FleetTrial) (a : Fleet.Action) : Option FleetTrial :=
  (s.fleet.step a).map fun (fleet, effects) => effects.foldl absorb { s with fleet }

def perform (s : FleetTrial) : Task → Option FleetTrial
  | .part i p => do
    let (action, bench) ← s.partAction? i p
    return (← { s with benches := s.benches.set i bench }.act (.controller i action)).wake
  | .call k => do
    let (action, chooser) ← s.callAction? k
    return ((← { s with chooser }.act action).concludeCall k).wake
  | .eventLoop => do return (← s.act .handleEvent).wake
  | .expiry k => do
    if s.isExpired k then
      return ({ ← s.act (.expire k) with current := some (.call k) }.concludeCall k).wake
    else none
  | .job _ => none

def answerJob (s : FleetTrial) (n : Nat) : FleetTrial :=
  match s.jobs[n]? with
  | some ⟨_, .immediate method demand, _, _⟩ =>
    match Server.Api.answerNow? s.fleet demand with
    | some response => s.concludeJob n (.http (response.seenBy method))
    | none => s
  | _ => s

def expiries (s : FleetTrial) : List Task :=
  ((List.range s.fleet.calls.length).filter s.isExpired).map .expiry

def run : (fuel : Nat) → FleetTrial → FleetTrial
  | 0, s => s
  | fuel + 1, s =>
    match s.current with
    | some t =>
      match s.perform t with
      | some s => run fuel s
      | none => run fuel { s with current := none }
    | none =>
      match s.queue with
      | .job n :: rest => run fuel (({ s with queue := rest }.answerJob n).wake)
      | t :: rest => run fuel { s with queue := rest, current := some t }
      | [] =>
        match s.expiries with
        | [] => s
        | late => run fuel { s with queue := late }

def maxSteps : Nat := 100000

def callDue : Fleet.Call → List Instant
  | .awaiting _ _ deadline none => [deadline]
  | .stopping _ _ deadline none _ => [deadline]
  | _ => []

def due (s : FleetTrial) : List Instant :=
  (s.fleet.controllers.zip s.benches).flatMap (fun (c, b) => b.due c) ++
    s.fleet.calls.flatMap callDue ++ s.answersAt.map (·.2)

def timed : Trial.Timed FleetTrial where
  now := now
  moveTo t s := { s with fleet := { s.fleet with now := t } }.wake
  due := due
  settle s := run maxSteps s.wake

def cleared (s : FleetTrial) : FleetTrial :=
  { s with benches := s.benches.map (·.cleared), replies := [], arrivals := [] }

def isAlive (s : FleetTrial) : Bool := s.fleet.existence == .alive

def addJob (s : FleetTrial) (name : String) (errand : Errand) : FleetTrial :=
  { s with
    jobs := s.jobs.map (fun old =>
      if old.name = name then { old with isKnown := false } else old) ++
        [⟨name, errand, false, true⟩] }

def ask (s : FleetTrial) (name : String) (r : Fleet.Request) : FleetTrial :=
  (((s.addJob name (.direct s.fleet.calls.length)).act (.request r)).getD s).wake

def askHttp (s : FleetTrial) (name : String) (r : Server.Request) : FleetTrial :=
  let demand := Server.Api.demand r
  match demand.request? with
  | some request =>
    (((s.addJob name (.viaHttp r.method s.fleet.calls.length)).act (.request request)).getD s).wake
  | none =>
    let s' := s.addJob name (.immediate r.method demand)
    { s' with queue := s'.queue ++ [.job s.jobs.length] }

def cancel? (s : FleetTrial) (name : String) : Option FleetTrial :=
  (s.jobs.findIdx? fun job => job.name == name && job.isKnown).map fun n =>
    let s' := { s with jobs := s.jobs.modify n fun job =>
      { job with isOver := true, isKnown := false } }
    let s' := match s.jobs[n]?.bind (·.errand.call?) with
      | some k => (s'.act (.abandon k)).getD s'
      | none => s'
    s'.wake

def exit (s : FleetTrial) (i : Nat) (failure : Option Error) : FleetTrial :=
  { s with benches := s.benches.modify i (·.exitWith failure) }.wake

def remove (s : FleetTrial) (id : String) : Bool × FleetTrial :=
  ((s.fleet.registry.take id).1.isSome, ((s.act (.remove id)).getD s).wake)

def setReady (s : FleetTrial) (id : String) (ready : Bool) : FleetTrial :=
  ((s.act (.setReady id ready)).getD s).wake

def drop (s : FleetTrial) : FleetTrial := ((s.act .drop).getD s).wake

def registry? (s : FleetTrial) : Option (Registry Nat) :=
  if s.fleet.existence = .gone then none else some s.fleet.registry

end FleetTrial

end MachineFleet
