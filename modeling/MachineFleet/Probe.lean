import MachineFleet.Lifecycle.Message
import MachineFleet.Probe.Spec
import MachineFleet.Readiness
import MachineFleet.Ticker

namespace MachineFleet

structure Probe where
  machine : Metadata
  url : Url
  timeout : Duration
  ticker : Ticker
  outcomes : List Signal
  /-- The judgement so far; none once judging has ended. -/
  tracker : Option ReadinessTracker
  deriving DecidableEq, Repr

namespace Probe

def spawn (spec : ProbeSpec) (machine : Metadata) (now : Instant) : Except Error Probe := do
  let url ← spec.url
  let ticker ← Ticker.new spec.period spec.initialDelay
  return {
    machine
    url
    timeout := spec.timeout
    ticker := ← ticker.start now
    outcomes := []
    tracker := some (.new spec.successThreshold.toNat spec.failureThreshold.toNat) }

def isRunning (p : Probe) : Bool := p.ticker.isRunning

/-- Stops for good. A check that is under way and outcomes not judged yet are given up. -/
def stop (p : Probe) : Probe :=
  { p with ticker := p.ticker.stop, outcomes := [], tracker := none }

def tick? (p : Probe) (now : Instant) : Option Probe :=
  (p.ticker.fire? now).map fun ticker => { p with ticker }

def finish? (p : Probe) (outcome : Signal) : Option Probe :=
  p.ticker.finish?.map fun ticker =>
    { p with ticker, outcomes := if p.tracker.isSome then p.outcomes ++ [outcome] else [] }

def report (machine : Metadata) : Transition → Message
  | .becameReady => .ready machine
  | .becameUnready => .unready machine

/-- Judges the next outcome. A change is reported if the controller can be reached, else judging
ends. -/
def judge? (p : Probe) (reachable : Bool) : Option (Probe × Option Message) :=
  match p.tracker, p.outcomes with
  | some tracker, outcome :: rest =>
    match tracker.observe outcome with
    | (tracker, none) => some ({ p with tracker := some tracker, outcomes := rest }, none)
    | (tracker, some change) =>
      if reachable then
        some ({ p with tracker := some tracker, outcomes := rest }, some (report p.machine change))
      else some ({ p with tracker := none, outcomes := [] }, none)
  | _, _ => none

end Probe

end MachineFleet
