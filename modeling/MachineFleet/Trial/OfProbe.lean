import MachineFleet.Probe
import MachineFleet.Trial.Clock
import MachineFleet.Trial.Prober

namespace MachineFleet

structure ProbeTrial where
  now : Instant
  probe : Probe
  isDropped : Bool
  prober : Trial.Prober
  check : Option Trial.PendingCheck
  held : Bool
  isOpen : Bool
  messages : List Message
  checks : List Trial.Check

namespace ProbeTrial

def new (probe : Probe) (prober : Trial.Prober) : ProbeTrial :=
  ⟨0, probe, false, prober, none, true, true, [], []⟩

def tick? (s : ProbeTrial) : Option ProbeTrial :=
  match s.check with
  | some check =>
    if check.ends ≤ s.now then
      (s.probe.finish? check.outcome).map fun probe => { s with probe, check := none }
    else none
  | none =>
    (s.probe.tick? s.now).map fun probe =>
      let (check, prober) := s.prober.begin s.now probe.url probe.timeout
      { s with
        probe, prober
        check := some check
        checks := s.checks ++ [⟨s.now, probe.url, probe.timeout⟩] }

def judge? (s : ProbeTrial) : Option ProbeTrial :=
  (s.probe.judge? (s.held && s.isOpen)).map fun (probe, message) =>
    { s with probe, messages := s.messages ++ message.toList }

def settle : (fuel : Nat) → ProbeTrial → ProbeTrial
  | 0, s => s
  | fuel + 1, s =>
    match s.tick?.orElse fun _ => s.judge? with
    | some s => settle fuel s
    | none => s

def due (s : ProbeTrial) : List Instant :=
  match s.check with
  | some check => [check.ends]
  | none => s.probe.ticker.due?.toList

def timed : Trial.Timed ProbeTrial where
  now := (·.now)
  moveTo t s := { s with now := t }
  due := due
  settle := settle 64

def cleared (s : ProbeTrial) : ProbeTrial := { s with messages := [], checks := [] }

def stop (s : ProbeTrial) : ProbeTrial := { s with probe := s.probe.stop, check := none }

def drop (s : ProbeTrial) : ProbeTrial := { s.stop with isDropped := true }

end ProbeTrial

end MachineFleet
