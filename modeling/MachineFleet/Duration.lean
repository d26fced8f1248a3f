/-!
Lengths of time and their text. A length is printed in the largest of the units s, ms, µs and ns
that leaves a non-zero whole part, followed by its decimal fraction without trailing zeros.
-/
namespace MachineFleet

/-- A length of time in nanoseconds. -/
abbrev Duration := Nat

/-- A point of time, as the length of time since the clock was started. -/
abbrev Instant := Nat

namespace Duration

def ofMillis (ms : Nat) : Duration := ms * 1000000

def ofParts (seconds nanos : Nat) : Duration := seconds * 1000000000 + nanos

def toMillis (d : Duration) : Nat := d / 1000000

def dropTrailingZeros (text : List Char) : List Char :=
  (text.reverse.dropWhile (· == '0')).reverse

def paddedDigits (width n : Nat) : List Char :=
  let digits := Nat.toDigits 10 n
  List.replicate (width - digits.length) '0' ++ digits

def powerOfTen : (zeros : Nat) → Nat
  | 0 => 1
  | zeros + 1 => 10 * powerOfTen zeros

def decimalText (places n : Nat) : List Char :=
  let fraction := dropTrailingZeros (paddedDigits places (n % powerOfTen places))
  Nat.toDigits 10 (n / powerOfTen places) ++ if fraction.isEmpty then [] else '.' :: fraction

def text (d : Duration) : String :=
  if 1000000000 ≤ d then String.ofList (decimalText 9 d) ++ "s"
  else if 1000000 ≤ d then String.ofList (decimalText 6 d) ++ "ms"
  else if 1000 ≤ d then String.ofList (decimalText 3 d) ++ "µs"
  else String.ofList (Nat.toDigits 10 d) ++ "ns"

end Duration

end MachineFleet
