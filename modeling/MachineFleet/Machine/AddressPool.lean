import MachineFleet.Error
import MachineFleet.Net.Subnet

/-!
Leasing the addresses of a subnet. The lowest free address goes first; the lowest and the highest
address of the subnet and the gateway are never leased.
-/
namespace MachineFleet

structure AddressPool where
  subnet : Subnet
  leases : List Ipv4
  deriving DecidableEq, Repr

namespace AddressPool

def new (subnet : Subnet) : AddressPool := ⟨subnet, []⟩

def gateway (p : AddressPool) : Ipv4 := .ofNat p.subnet.gateway

def isLeasable (s : Subnet) (n : Nat) : Bool :=
  n != s.network && n != s.gateway && n != s.broadcast

/-- The first of the `count` numbers from `n` on that can be leased and is free. -/
def findFree? (p : AddressPool) : (count : Nat) → (n : Nat) → Option Ipv4
  | 0, _ => none
  | count + 1, n =>
    if isLeasable p.subnet n && !p.leases.contains (.ofNat n) then some (.ofNat n)
    else p.findFree? count (n + 1)

def free? (p : AddressPool) : Option Ipv4 := p.findFree? p.subnet.size p.subnet.network

def allocate (p : AddressPool) : Except Error (Ipv4 × AddressPool) :=
  match p.free? with
  | some ip => .ok (ip, { p with leases := ip :: p.leases })
  | none => .error (.addressesExhausted p.subnet.render)

def allocateMany (p : AddressPool) : (times : Nat) → List (Except Error Ipv4) × AddressPool
  | 0 => ([], p)
  | times + 1 =>
    match p.allocate with
    | .ok (ip, p) =>
      let (rest, p) := p.allocateMany times
      (.ok ip :: rest, p)
    | .error e => ([.error e], p)

def release (p : AddressPool) (ip : Ipv4) : Bool × AddressPool :=
  (p.leases.contains ip, { p with leases := p.leases.erase ip })

def leased (p : AddressPool) : Nat := p.leases.length

end AddressPool

end MachineFleet
