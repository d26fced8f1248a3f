import MachineFleet.Net.Address

namespace MachineFleet

def digitsValue (base : Nat) (digits : List Char) : Nat :=
  digits.foldl (fun n c => n * base + hexValue c) 0
where
  hexValue (c : Char) : Nat :=
    if c.isDigit then c.toNat - 48 else if 'a' ≤ c then c.toNat - 87 else c.toNat - 55

def isHexDigit (c : Char) : Bool :=
  c.isDigit || ('a' ≤ c && c ≤ 'f') || ('A' ≤ c && c ≤ 'F')

namespace Ipv4

def readByte? (cs : List Char) : Option (UInt8 × List Char) :=
  let digits := cs.takeWhile Char.isDigit
  let n := digitsValue 10 digits
  if digits.isEmpty || 3 < digits.length || 255 < n
      || (digits.head? == some '0' && 1 < digits.length) then none
  else some (.ofNat n, cs.dropWhile Char.isDigit)

def read? (cs : List Char) : Option (Ipv4 × List Char) := do
  let (a, cs) ← readByte? cs
  let (b, cs) ← readByte? (← afterDot? cs)
  let (c, cs) ← readByte? (← afterDot? cs)
  let (d, cs) ← readByte? (← afterDot? cs)
  return (ofBytes a b c d, cs)
where
  afterDot? : List Char → Option (List Char)
    | '.' :: rest => some rest
    | _ => none

def parseChars? (cs : List Char) : Option Ipv4 :=
  match read? cs with
  | some (ip, []) => some ip
  | _ => none

def parse? (text : String) : Option Ipv4 := parseChars? text.toList

end Ipv4

namespace Ipv6

def readGroup? (cs : List Char) : Option (UInt16 × List Char) :=
  let digits := cs.takeWhile isHexDigit
  if digits.isEmpty || 4 < digits.length then none
  else some (.ofNat (digitsValue 16 digits), cs.dropWhile isHexDigit)

/-- At most `room` groups with colons between them, whether they end in a dotted address, which
takes the room of two, and the text after them. -/
def readGroups : (room : Nat) → (first : Bool) → List Char → List UInt16 × Bool × List Char
  | 0, _, cs => ([], false, cs)
  | room + 1, first, cs =>
    match afterColon? first cs with
    | none => ([], false, cs)
    | some body =>
      match if 0 < room then Ipv4.read? body else none with
      | some (ip, rest) =>
        ([.ofNat (ip.value / 0x10000), .ofNat (ip.value % 0x10000)], true, rest)
      | none =>
        match readGroup? body with
        | none => ([], false, cs)
        | some (g, rest) =>
          let (groups, dotted, rest) := readGroups room false rest
          (g :: groups, dotted, rest)
where
  afterColon? : Bool → List Char → Option (List Char)
    | true, cs => some cs
    | false, ':' :: rest => some rest
    | false, _ => none

def parseChars? (cs : List Char) : Option Ipv6 :=
  match readGroups 8 true cs with
  | (head, dotted, rest) =>
    if head.length = 8 then
      if rest.isEmpty then ofGroups? head else none
    else if dotted then none
    else
      match rest with
      | ':' :: ':' :: rest =>
        match readGroups (7 - head.length) true rest with
        | (tail, _, []) =>
          ofGroups? (head ++ List.replicate (8 - head.length - tail.length) 0 ++ tail)
        | _ => none
      | _ => none

def parse? (text : String) : Option Ipv6 := parseChars? text.toList

end Ipv6

namespace IpAddress

def parseChars? (cs : List Char) : Option IpAddress :=
  match Ipv4.parseChars? cs with
  | some ip => some (.v4 ip)
  | none => (Ipv6.parseChars? cs).map .v6

def parse? (text : String) : Option IpAddress := parseChars? text.toList

end IpAddress

end MachineFleet
