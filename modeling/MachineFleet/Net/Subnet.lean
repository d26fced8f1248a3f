import MachineFleet.Net.Address.Parser
import MachineFleet.Net.Address.Printer

namespace MachineFleet

structure Subnet where
  address : Ipv4
  bits : Nat
  bits_le : bits ≤ 32 := by omega
  deriving DecidableEq, Repr

namespace Subnet

def size (s : Subnet) : Nat := 1 <<< (32 - s.bits)

def network (s : Subnet) : Nat := s.address.value / s.size * s.size

def broadcast (s : Subnet) : Nat := s.network + (s.size - 1)

/-- The number after the lowest one, unless there is none. -/
def gateway (s : Subnet) : Nat := min (s.network + 1) 0xFFFFFFFF

def render (s : Subnet) : String := s.address.render ++ "/" ++ s.bits.repr

/-- A number of at most 255 in decimal, which may have a plus sign and leading zeros. -/
def parseByte? (cs : List Char) : Option Nat :=
  let digits := match cs with
    | '+' :: rest => rest
    | cs => cs
  if digits.isEmpty || !digits.all Char.isDigit || 255 < digitsValue 10 digits then none
  else some (digitsValue 10 digits)

def maskBits? (mask : Ipv4) : Option Nat :=
  (List.range 33).find? fun bits => mask.value == 0x100000000 - (1 <<< (32 - bits))

def parseBits? (cs : List Char) : Option Nat :=
  match parseByte? cs with
  | some bits => some bits
  | none => (Ipv4.parseChars? cs).bind maskBits?

def ofBits? (address : Ipv4) (bits : Nat) : Option Subnet :=
  if h : bits ≤ 32 then some ⟨address, bits, h⟩ else none

def parse? (text : String) : Option Subnet := do
  let cs := text.toList
  let address ← Ipv4.parseChars? (cs.takeWhile (· != '/'))
  match cs.dropWhile (· != '/') with
  | [] => ofBits? address 32
  | _ :: rest => ofBits? address (← parseBits? rest)

end Subnet

end MachineFleet
