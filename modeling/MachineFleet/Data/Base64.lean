/-!
Bytes as text in the standard alphabet of 64 symbols, padded with `=` to whole groups of four.
`decode` accepts exactly what `encode` writes and otherwise names the first fault it meets.
-/
namespace MachineFleet.Base64

inductive Failure where
  | invalidSymbol (symbol : UInt8) (offset : Nat)
  | invalidLength (length : Nat)
  | invalidLastSymbol (symbol : UInt8) (offset : Nat)
  | invalidPadding
  deriving Repr, DecidableEq

def Failure.message : Failure → String
  | invalidSymbol symbol offset =>
    "Invalid symbol " ++ symbol.toNat.repr ++ ", offset " ++ offset.repr ++ "."
  | invalidLength length => "Invalid input length: " ++ length.repr
  | invalidLastSymbol symbol offset =>
    "Invalid last symbol " ++ symbol.toNat.repr ++ ", offset " ++ offset.repr ++ "."
  | invalidPadding => "Invalid padding"

def pad : UInt8 := 61

def symbol (digit : Nat) : UInt8 :=
  if digit < 26 then .ofNat (65 + digit)
  else if digit < 52 then .ofNat (97 + (digit - 26))
  else if digit < 62 then .ofNat (48 + (digit - 52))
  else if digit = 62 then 43
  else 47

def digit? (s : UInt8) : Option Nat :=
  let n := s.toNat
  if 65 ≤ n ∧ n ≤ 90 then some (n - 65)
  else if 97 ≤ n ∧ n ≤ 122 then some (n - 97 + 26)
  else if 48 ≤ n ∧ n ≤ 57 then some (n - 48 + 52)
  else if n = 43 then some 62
  else if n = 47 then some 63
  else none

def encode : List UInt8 → List UInt8
  | [] => []
  | [a] =>
    let v := a.toNat * 16
    [symbol (v / 64), symbol (v % 64), pad, pad]
  | [a, b] =>
    let v := (a.toNat * 256 + b.toNat) * 4
    [symbol (v / 4096), symbol (v / 64 % 64), symbol (v % 64), pad]
  | a :: b :: c :: rest =>
    let v := a.toNat * 65536 + b.toNat * 256 + c.toNat
    symbol (v / 262144) :: symbol (v / 4096 % 64) :: symbol (v / 64 % 64) :: symbol (v % 64) ::
      encode rest

def digits (offset : Nat) : List UInt8 → Except Failure (List Nat)
  | [] => .ok []
  | s :: rest =>
    match digit? s with
    | none => .error (.invalidSymbol s offset)
    | some d => (digits (offset + 1) rest).map (d :: ·)

def value (ds : List Nat) : Nat := ds.foldl (· * 64 + ·) 0

/-- The symbols before the padding at the end of a group, and how much padding there is. Padding
may not begin before the third place, and only padding follows it. -/
def splitPadding (offset : Nat) (group : List UInt8) : Except Failure (List UInt8 × Nat) :=
  let symbols := group.takeWhile (· != pad)
  let padding := group.dropWhile (· != pad)
  if padding.isEmpty then .ok (symbols, 0)
  else
    match digits offset symbols with
    | .error e => .error e
    | .ok _ =>
      if symbols.length < 2 ∨ padding.any (· != pad) then
        .error (.invalidSymbol pad (offset + symbols.length))
      else .ok (symbols, padding.length)

def decodeLast (offset : Nat) (group : List UInt8) : Except Failure (List UInt8) :=
  if group.isEmpty then .ok []
  else do
    let (symbols, padding) ← splitPadding offset group
    let ds ← digits offset symbols
    if ds.length < 2 then throw (.invalidLength (offset + ds.length))
    else if (ds.length + padding) % 4 ≠ 0 then throw .invalidPadding
    else
      let v := value ds
      let last := symbols.getLast?.getD pad
      match ds.length with
      | 2 =>
        if v % 16 ≠ 0 then throw (.invalidLastSymbol last (offset + 1))
        else return [.ofNat (v / 16)]
      | 3 =>
        if v % 4 ≠ 0 then throw (.invalidLastSymbol last (offset + 2))
        else return [.ofNat (v / 1024), .ofNat (v / 4 % 256)]
      | _ => return [.ofNat (v / 65536), .ofNat (v / 256 % 256), .ofNat (v % 256)]

def decodeGroups (offset : Nat) : List UInt8 → Except Failure (List UInt8)
  | a :: b :: c :: d :: e :: rest => do
    let v := value (← digits offset [a, b, c, d])
    let more ← decodeGroups (offset + 4) (e :: rest)
    return .ofNat (v / 65536) :: .ofNat (v / 256 % 256) :: .ofNat (v % 256) :: more
  | group => decodeLast offset group

/-- Reads an encoding. A byte too many at the end that is no symbol is reported first. -/
def decode (text : List UInt8) : Except Failure (List UInt8) :=
  match text.getLast? with
  | some last =>
    if text.length % 4 = 1 ∧ last ≠ pad ∧ (digit? last).isNone then
      .error (.invalidSymbol last (text.length - 1))
    else decodeGroups 0 text
  | none => .ok []

end MachineFleet.Base64
