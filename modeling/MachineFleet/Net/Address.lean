namespace MachineFleet

/-- An IPv4 address, as the number its four bytes write in base 256. -/
structure Ipv4 where
  value : Nat
  value_lt : value < 0x100000000 := by omega
  deriving DecidableEq, Repr

structure Ipv6 where
  groups : List UInt16
  length_groups : groups.length = 8
  deriving DecidableEq, Repr

inductive IpAddress where
  | v4 (address : Ipv4)
  | v6 (address : Ipv6)
  deriving DecidableEq, Repr

structure Endpoint where
  address : IpAddress
  port : UInt16
  deriving DecidableEq, Repr

namespace Ipv4

instance : Inhabited Ipv4 := ⟨⟨0, by decide⟩⟩

def ofBytes (a b c d : UInt8) : Ipv4 where
  value := a.toNat * 0x1000000 + b.toNat * 0x10000 + c.toNat * 0x100 + d.toNat
  value_lt := by
    have := a.toNat_lt
    have := b.toNat_lt
    have := c.toNat_lt
    have := d.toNat_lt
    omega

def byte (ip : Ipv4) (places : Nat) : Nat := (ip.value >>> (8 * places)) % 256

def ofNat (n : Nat) : Ipv4 where
  value := n % 0x100000000
  value_lt := Nat.mod_lt _ (by decide)

end Ipv4

namespace Ipv6

def ofGroups? (groups : List UInt16) : Option Ipv6 :=
  if h : groups.length = 8 then some ⟨groups, h⟩ else none

def mapped? (ip : Ipv6) : Option Ipv4 :=
  match ip.groups with
  | [0, 0, 0, 0, 0, 0xFFFF, high, low] => some (.ofNat (high.toNat * 0x10000 + low.toNat))
  | _ => none

end Ipv6

instance : Inhabited IpAddress := ⟨.v4 default⟩

end MachineFleet
