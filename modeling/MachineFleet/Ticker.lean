import MachineFleet.Duration
import MachineFleet.Error

/-!
A ticker calls a handler after an initial delay and then once per period, never while a call is
under way. A call that comes more than 5 ms late moves the schedule; any other keeps it. A ticker
runs once: stopped it stays stopped.
-/
namespace MachineFleet

inductive Ticker.Loop where
  /-- The next call, due at `due`. -/
  | waiting (due : Instant)
  /-- The end of a call; the next one is due at `next`. -/
  | firing (next : Instant)
  deriving DecidableEq, Repr

inductive Ticker.State where
  | idle
  | running (loop : Ticker.Loop)
  | stopped
  deriving DecidableEq, Repr

structure Ticker where
  initialDelay : Duration
  period : Duration
  period_pos : 0 < period
  state : Ticker.State
  deriving DecidableEq, Repr

namespace Ticker

def grace : Duration := .ofMillis 5

def new (period : Duration) (initialDelay : Duration) : Except Error Ticker :=
  if h : 0 < period then .ok ⟨initialDelay, period, h, .idle⟩
  else .error (.invalidArgument .zeroPeriod)

def start (t : Ticker) (now : Instant) : Except Error Ticker :=
  match t.state with
  | .idle => .ok { t with state := .running (.waiting (now + t.initialDelay)) }
  | .running _ => .error (.invalidArgument .tickerRunning)
  | .stopped => .error (.invalidArgument .tickerStopped)

/-- Stops for good; a call that is under way is cut off. -/
def stop (t : Ticker) : Ticker := { t with state := .stopped }

def isRunning (t : Ticker) : Bool :=
  match t.state with
  | .running _ => true
  | _ => false

def following (period : Duration) (due now : Instant) : Instant :=
  if due + grace < now then now + period else due + period

def due? (t : Ticker) : Option Instant :=
  match t.state with
  | .running (.waiting due) => some due
  | _ => none

def isFiring (t : Ticker) : Bool :=
  match t.state with
  | .running (.firing _) => true
  | _ => false

def fire? (t : Ticker) (now : Instant) : Option Ticker :=
  match t.state with
  | .running (.waiting due) =>
    if due ≤ now then some { t with state := .running (.firing (following t.period due now)) }
    else none
  | _ => none

def finish? (t : Ticker) : Option Ticker :=
  match t.state with
  | .running (.firing next) => some { t with state := .running (.waiting next) }
  | _ => none

def State.text : State → String
  | idle => "idle"
  | running _ => "running"
  | stopped => "stopped"

def report (t : Ticker) : String :=
  "Ticker \x7b initial_delay: " ++ t.initialDelay.text ++ ", period: " ++ t.period.text ++
    ", state: \"" ++ t.state.text ++ "\" \x7d"

end Ticker

end MachineFleet
