import MachineFleet.Duration

/-!
Clocks that move only when told. A trial is a state with a clock: at each instant everything that
can happen happens, then the clock goes on to the next instant at which something is due.
-/
namespace MachineFleet.Trial

structure Timed (σ : Type) where
  now : σ → Instant
  moveTo : Instant → σ → σ
  due : σ → List Instant
  settle : σ → σ

namespace Timed

variable {σ : Type}

def next? (m : Timed σ) (s : σ) : Option Instant :=
  ((m.due s).filter (m.now s < ·)).min?

def goTo (m : Timed σ) (target : Instant) : (fuel : Nat) → σ → σ
  | 0, s => m.settle (m.moveTo target s)
  | fuel + 1, s =>
    match m.next? s with
    | some t =>
      if t ≤ target then m.goTo target fuel (m.settle (m.moveTo t s))
      else m.settle (m.moveTo target s)
    | none => m.settle (m.moveTo target s)

def advance (m : Timed σ) (d : Duration) (s : σ) : σ :=
  m.goTo (m.now s + d) (d + 1) (m.settle s)

end Timed

end MachineFleet.Trial
