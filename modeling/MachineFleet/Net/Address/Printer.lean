import MachineFleet.Net.Address

/-!
The text of addresses: dotted bytes for IPv4, and for IPv6 the shortest hexadecimal groups with the
first longest run of at least two zero groups written `::`.
-/
namespace MachineFleet

namespace Ipv4

def renderChars (ip : Ipv4) : List Char :=
  Nat.toDigits 10 (ip.byte 3) ++ '.' :: Nat.toDigits 10 (ip.byte 2) ++
    '.' :: Nat.toDigits 10 (ip.byte 1) ++ '.' :: Nat.toDigits 10 (ip.byte 0)

def render (ip : Ipv4) : String := String.ofList ip.renderChars

end Ipv4

namespace Ipv6

def renderGroups : List UInt16 → List Char
  | [] => []
  | [g] => Nat.toDigits 16 g.toNat
  | g :: next :: rest => Nat.toDigits 16 g.toNat ++ ':' :: renderGroups (next :: rest)

/-- Start and length of the first longest run of zero groups; `index` groups lie before the given
ones, the last `run` of them zero, and `best` is the longest run that has ended. -/
def longestRun (index run : Nat) (best : Nat × Nat) : List UInt16 → Nat × Nat
  | [] => if best.2 < run then (index - run, run) else best
  | g :: rest =>
    if g = 0 then longestRun (index + 1) (run + 1) best rest
    else longestRun (index + 1) 0 (if best.2 < run then (index - run, run) else best) rest

def compress (groups : List UInt16) : List Char :=
  let (start, length) := longestRun 0 0 (0, 0) groups
  if 1 < length then
    renderGroups (groups.take start) ++ ':' :: ':' :: renderGroups (groups.drop (start + length))
  else renderGroups groups

def renderChars (ip : Ipv6) : List Char :=
  match ip.mapped? with
  | some v4 => "::ffff:".toList ++ v4.renderChars
  | none => compress ip.groups

def render (ip : Ipv6) : String := String.ofList ip.renderChars

end Ipv6

namespace IpAddress

def renderChars : IpAddress → List Char
  | v4 ip => ip.renderChars
  | v6 ip => ip.renderChars

def render (ip : IpAddress) : String := String.ofList ip.renderChars

def renderHost : IpAddress → List Char
  | v4 ip => ip.renderChars
  | v6 ip => '[' :: ip.renderChars ++ [']']

end IpAddress

namespace Endpoint

def renderChars (e : Endpoint) : List Char :=
  e.address.renderHost ++ ':' :: Nat.toDigits 10 e.port.toNat

def render (e : Endpoint) : String := String.ofList e.renderChars

end Endpoint

end MachineFleet
