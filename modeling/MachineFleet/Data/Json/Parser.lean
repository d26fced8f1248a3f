import MachineFleet.Data.Json

/-!
Reading JSON. The reader accepts one value, surrounded by blanks, and nothing else; text holds no
bare control characters, and an escaped half of a surrogate pair stands only before or after its
other half.
-/
namespace MachineFleet.Json

def isBlank (c : Char) : Bool :=
  c == ' ' || c == '\n' || c == '\t' || c == '\r'

def skipBlank (cs : List Char) : List Char := cs.dropWhile isBlank

def hexValue? (c : Char) : Option Nat :=
  if '0' ≤ c ∧ c ≤ '9' then some (c.toNat - 48)
  else if 'a' ≤ c ∧ c ≤ 'f' then some (c.toNat - 87)
  else if 'A' ≤ c ∧ c ≤ 'F' then some (c.toNat - 55)
  else none

def unit? (a b c d : Char) : Option Nat := do
  return ((← hexValue? a) * 4096 + (← hexValue? b) * 256 + (← hexValue? c) * 16 + (← hexValue? d))

def lowHalf? : List Char → Option (Nat × List Char)
  | '\\' :: 'u' :: a :: b :: c :: d :: rest =>
    match unit? a b c d with
    | some n => if 0xDC00 ≤ n ∧ n < 0xE000 then some (n, rest) else none
    | none => none
  | _ => none

def unescape? : List Char → Option (Char × List Char)
  | '"' :: rest => some ('"', rest)
  | '\\' :: rest => some ('\\', rest)
  | '/' :: rest => some ('/', rest)
  | 'b' :: rest => some ('\x08', rest)
  | 'f' :: rest => some ('\x0c', rest)
  | 'n' :: rest => some ('\n', rest)
  | 'r' :: rest => some ('\r', rest)
  | 't' :: rest => some ('\t', rest)
  | 'u' :: a :: b :: c :: d :: rest =>
    match unit? a b c d with
    | none => none
    | some high =>
      if 0xD800 ≤ high ∧ high < 0xDC00 then
        match lowHalf? rest with
        | some (low, rest) =>
          some (.ofNat (0x10000 + (high - 0xD800) * 1024 + (low - 0xDC00)), rest)
        | none => none
      else if 0xDC00 ≤ high ∧ high < 0xE000 then none
      else some (.ofNat high, rest)
  | _ => none

theorem length_lowHalf?_le {cs rest : List Char} {n : Nat} (h : lowHalf? cs = some (n, rest)) :
    rest.length ≤ cs.length := by
  unfold lowHalf? at h
  split at h
  · split at h
    · split at h
      · simp only [Option.some.injEq, Prod.mk.injEq] at h
        obtain ⟨-, rfl⟩ := h
        simp only [List.length_cons]
        omega
      · contradiction
    · contradiction
  · contradiction

theorem length_unescape?_le {cs rest : List Char} {c : Char}
    (h : unescape? cs = some (c, rest)) : rest.length ≤ cs.length := by
  unfold unescape? at h
  split at h
  case h_9 =>
    split at h
    · contradiction
    · split at h
      · split at h
        · rename_i low
          simp only [Option.some.injEq, Prod.mk.injEq] at h
          obtain ⟨-, rfl⟩ := h
          have := length_lowHalf?_le low
          simp only [List.length_cons]
          omega
        · contradiction
      · split at h
        · contradiction
        · simp only [Option.some.injEq, Prod.mk.injEq] at h
          obtain ⟨-, rfl⟩ := h
          simp only [List.length_cons]
          omega
  case h_10 => contradiction
  all_goals
    simp only [Option.some.injEq, Prod.mk.injEq] at h
    obtain ⟨-, rfl⟩ := h
    simp only [List.length_cons]
    omega

def scanText? : List Char → Option (List Char × List Char)
  | [] => none
  | '"' :: rest => some ([], rest)
  | '\\' :: rest =>
    match _read : unescape? rest with
    | none => none
    | some (c, after) => (scanText? after).map fun (cs, tail) => (c :: cs, tail)
  | c :: rest =>
    if c.toNat < 0x20 then none
    else (scanText? rest).map fun (cs, tail) => (c :: cs, tail)
termination_by cs => cs.length
decreasing_by
  · have := length_unescape?_le _read
    simp only [List.length_cons]
    omega
  · simp only [List.length_cons]
    omega

def decimalValue (digits : List Char) : Nat :=
  digits.foldl (fun n c => n * 10 + (c.toNat - 48)) 0

/-- A number without fraction or exponent is an integer if it fits into 64 bits, with or without a
sign; zero has no sign. -/
def integerOrReal (negative : Bool) (whole : List Char) : Json :=
  let n := decimalValue whole
  if negative then
    if 0 < n ∧ n ≤ 0x8000000000000000 then .integer (-(n : Int)) else .real (String.ofList ('-' :: whole))
  else if n < UInt64.size then .integer n
  else .real (String.ofList whole)

def scanFraction? : List Char → Option (List Char × List Char)
  | '.' :: rest =>
    let digits := rest.takeWhile Char.isDigit
    if digits.isEmpty then none else some ('.' :: digits, rest.dropWhile Char.isDigit)
  | rest => some ([], rest)

def scanExponent? : List Char → Option (List Char × List Char)
  | [] => some ([], [])
  | e :: rest =>
    if e = 'e' ∨ e = 'E' then
      let (sign, rest) := match rest with
        | '+' :: rest => (['+'], rest)
        | '-' :: rest => (['-'], rest)
        | rest => ([], rest)
      let digits := rest.takeWhile Char.isDigit
      if digits.isEmpty then none else some (e :: sign ++ digits, rest.dropWhile Char.isDigit)
    else some ([], e :: rest)

def scanNumber? (cs : List Char) : Option (Json × List Char) :=
  let (negative, cs) := match cs with
    | '-' :: rest => (true, rest)
    | rest => (false, rest)
  let whole := cs.takeWhile Char.isDigit
  if whole.isEmpty || (whole.head? == some '0' && 1 < whole.length) then none
  else do
    let (fraction, rest) ← scanFraction? (cs.dropWhile Char.isDigit)
    let (exponent, rest) ← scanExponent? rest
    if fraction.isEmpty && exponent.isEmpty then return (integerOrReal negative whole, rest)
    else
      let sign := if negative then ['-'] else []
      return (.real (String.ofList (sign ++ whole ++ fraction ++ exponent)), rest)

mutual

/-- One value and the text after it, or what was begun of one before the fault. -/
def readValue : (fuel : Nat) → List Char → Except (Option Json) (Json × List Char)
  | 0, _ => .error none
  | fuel + 1, cs =>
    match skipBlank cs with
    | '{' :: rest =>
      match skipBlank rest with
      | '}' :: rest => .ok (.record [], rest)
      | _ =>
        match readFields fuel rest with
        | .ok (fields, rest) => .ok (.record fields, rest)
        | .error fields => .error (some (.record fields))
    | '[' :: rest =>
      match skipBlank rest with
      | ']' :: rest => .ok (.list [], rest)
      | _ =>
        match readItems fuel rest with
        | .ok (items, rest) => .ok (.list items, rest)
        | .error items => .error (some (.list items))
    | '"' :: rest =>
      match scanText? rest with
      | some (s, rest) => .ok (.text (String.ofList s), rest)
      | none => .error none
    | 't' :: 'r' :: 'u' :: 'e' :: rest => .ok (.bool true, rest)
    | 'f' :: 'a' :: 'l' :: 's' :: 'e' :: rest => .ok (.bool false, rest)
    | 'n' :: 'u' :: 'l' :: 'l' :: rest => .ok (.null, rest)
    | rest =>
      match scanNumber? rest with
      | some (n, rest) => .ok (n, rest)
      | none => .error none

def readItems : (fuel : Nat) → List Char → Except (List Json) (List Json × List Char)
  | 0, _ => .error []
  | fuel + 1, cs =>
    match readValue fuel cs with
    | .error begun => .error begun.toList
    | .ok (item, rest) =>
      match skipBlank rest with
      | ',' :: rest =>
        match readItems fuel rest with
        | .ok (items, rest) => .ok (item :: items, rest)
        | .error items => .error (item :: items)
      | ']' :: rest => .ok ([item], rest)
      | _ => .error [item]

def readFields : (fuel : Nat) → List Char →
    Except (List (String × Json)) (List (String × Json) × List Char)
  | 0, _ => .error []
  | fuel + 1, cs =>
    match skipBlank cs with
    | '"' :: rest =>
      match scanText? rest with
      | none => .error []
      | some (name, rest) =>
        match skipBlank rest with
        | ':' :: rest =>
          match readValue fuel rest with
          | .error begun => .error (begun.toList.map (String.ofList name, ·))
          | .ok (value, rest) =>
            let field := (String.ofList name, value)
            match skipBlank rest with
            | ',' :: rest =>
              match readFields fuel rest with
              | .ok (fields, rest) => .ok (field :: fields, rest)
              | .error fields => .error (field :: fields)
            | '}' :: rest => .ok ([field], rest)
            | _ => .error [field]
        | _ => .error []
    | _ => .error []

end

def read (text : String) : Except (Option Json) Json :=
  let cs := text.toList
  match readValue (2 * cs.length + 2) cs with
  | .ok (value, rest) => if (skipBlank rest).isEmpty then .ok value else .error (some value)
  | .error begun => .error begun

def parse? (text : String) : Option Json := (read text).toOption

end MachineFleet.Json
