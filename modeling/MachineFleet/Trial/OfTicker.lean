import MachineFleet.Ticker
import MachineFleet.Trial.Clock

namespace MachineFleet

structure TickerTrial where
  now : Instant
  ticker : Option Ticker
  /-- How long the calls take that are still to come; the last one counts for all later ones. -/
  lengths : List Duration
  callEnd : Instant
  fired : List Instant
  completed : List Instant

namespace TickerTrial

def new (ticker : Ticker) (lengths : List Duration) : TickerTrial :=
  ⟨0, some ticker, lengths, 0, [], []⟩

def nextLengths : List Duration → List Duration
  | _ :: next :: rest => next :: rest
  | last => last

def step? (s : TickerTrial) : Option TickerTrial := do
  let ticker ← s.ticker
  if ticker.isFiring then
    if s.callEnd ≤ s.now then
      let ticker ← ticker.finish?
      return { s with ticker := some ticker, completed := s.completed ++ [s.now] }
    else none
  else
    let ticker ← ticker.fire? s.now
    return { s with
      ticker := some ticker
      fired := s.fired ++ [s.now]
      callEnd := s.now + s.lengths.headD 0
      lengths := nextLengths s.lengths }

/-- All that happens now. A call moves the next one on by the period at least, but for one that is
late: three things at most happen at once for each call that was late. -/
def settle : (fuel : Nat) → TickerTrial → TickerTrial
  | 0, s => s
  | fuel + 1, s =>
    match s.step? with
    | some s => settle fuel s
    | none => s

def due (s : TickerTrial) : List Instant :=
  match s.ticker with
  | some ticker => if ticker.isFiring then [s.callEnd] else ticker.due?.toList
  | none => []

def timed : Trial.Timed TickerTrial where
  now := (·.now)
  moveTo t s := { s with now := t }
  due := due
  settle := settle 64

def cleared (s : TickerTrial) : TickerTrial := { s with fired := [], completed := [] }

def start (s : TickerTrial) : Option (Except Error Unit × TickerTrial) :=
  s.ticker.map fun ticker =>
    match ticker.start s.now with
    | .ok ticker => (.ok (), { s with ticker := some ticker })
    | .error e => (.error e, s)

def stop (s : TickerTrial) : TickerTrial := { s with ticker := s.ticker.map (·.stop) }

def drop (s : TickerTrial) : TickerTrial := { s with ticker := none }

end TickerTrial

end MachineFleet
