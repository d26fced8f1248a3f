/-!
Readiness of a machine as judged from single checks. Only checks that contradict the current
judgement count, and only while they follow one another; as many of them as the threshold asks for
turn it over.
-/
namespace MachineFleet

inductive Signal where
  | ready
  | unready
  deriving DecidableEq, Repr

inductive Readiness where
  | unready
  | ready
  deriving DecidableEq, Repr

inductive Transition where
  | becameReady
  | becameUnready
  deriving DecidableEq, Repr

/-- The judgement so far. A threshold of zero works as one. -/
structure ReadinessTracker where
  state : Readiness
  /-- How many checks in a row have contradicted `state` last. -/
  consecutive : Nat
  successThreshold : Nat
  failureThreshold : Nat
  deriving DecidableEq, Repr

namespace ReadinessTracker

def new (successThreshold failureThreshold : Nat) : ReadinessTracker where
  state := .unready
  consecutive := 0
  successThreshold := max 1 successThreshold
  failureThreshold := max 1 failureThreshold

def isReady (t : ReadinessTracker) : Bool := t.state == .ready

def observe (t : ReadinessTracker) : Signal → ReadinessTracker × Option Transition
  | .ready =>
    match t.state with
    | .ready => ({ t with consecutive := 0 }, none)
    | .unready =>
      if t.successThreshold ≤ t.consecutive + 1 then
        ({ t with state := .ready, consecutive := 0 }, some .becameReady)
      else ({ t with consecutive := t.consecutive + 1 }, none)
  | .unready =>
    match t.state with
    | .unready => ({ t with consecutive := 0 }, none)
    | .ready =>
      if t.failureThreshold ≤ t.consecutive + 1 then
        ({ t with state := .unready, consecutive := 0 }, some .becameUnready)
      else ({ t with consecutive := t.consecutive + 1 }, none)

def observeAll (t : ReadinessTracker) : List Signal → List (ReadinessTracker × Option Transition)
  | [] => []
  | s :: rest => t.observe s :: (t.observe s).1.observeAll rest

end ReadinessTracker

end MachineFleet
