namespace MachineFleet

/-- Takes the machines in turn, by a counter that wraps around. -/
structure RoundRobin where
  next : UInt64
  deriving DecidableEq, Repr

namespace RoundRobin

def new : RoundRobin := ⟨0⟩

def pick (r : RoundRobin) (size : Nat) : Nat × RoundRobin :=
  (r.next.toNat % size, ⟨r.next + 1⟩)

def picks (r : RoundRobin) : List Nat → List Nat
  | [] => []
  | size :: rest => (r.pick size).1 :: (r.pick size).2.picks rest

end RoundRobin

/-- Takes machines without order, by a sequence of numbers that looks random. -/
structure RandomChoice where
  seed : UInt64
  deriving DecidableEq, Repr

namespace RandomChoice

def pick (r : RandomChoice) (size : Nat) : Nat × RandomChoice :=
  let next := r.seed * 6364136223846793005 + 1442695040888963407
  ((next.toNat >>> 32) % size, ⟨next⟩)

def picks (r : RandomChoice) : List Nat → List Nat
  | [] => []
  | size :: rest => (r.pick size).1 :: (r.pick size).2.picks rest

end RandomChoice

end MachineFleet
