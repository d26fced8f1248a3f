namespace MachineFleet.Trial.Script.Arithmetic

def levels : List (List String) :=
  [["||"], ["&&"], ["==", "!="], ["<=", ">=", "<", ">"], ["+", "-"], ["*", "/", "%"]]

def ofBool (b : Bool) : Int := if b then 1 else 0

def apply (operator : String) (a b : Int) : Option Int :=
  match operator with
  | "||" => some (ofBool (a != 0 || b != 0))
  | "&&" => some (ofBool (a != 0 && b != 0))
  | "==" => some (ofBool (a == b))
  | "!=" => some (ofBool (a != b))
  | "<=" => some (ofBool (a ≤ b))
  | ">=" => some (ofBool (b ≤ a))
  | "<" => some (ofBool (a < b))
  | ">" => some (ofBool (b < a))
  | "+" => some (a + b)
  | "-" => some (a - b)
  | "*" => some (a * b)
  | "/" => if b = 0 then none else some (a.tdiv b)
  | "%" => if b = 0 then none else some (a.tmod b)
  | _ => none

def skipBlanks (cs : List Char) : List Char := cs.dropWhile Char.isWhitespace

def operator? (level : List String) (cs : List Char) : Option (String × List Char) :=
  (level.find? fun o => o.toList.isPrefixOf cs).map fun o => (o, cs.drop o.length)

mutual

def read (value : String → Int) : (fuel : Nat) → List (List String) → List Char →
    Option (Int × List Char)
  | 0, _, _ => none
  | fuel + 1, [], cs => readAtom value fuel (skipBlanks cs)
  | fuel + 1, level :: higher, cs => do
    let (a, rest) ← read value fuel higher cs
    readMore value fuel level higher a rest

def readMore (value : String → Int) : (fuel : Nat) → (level : List String) →
    (higher : List (List String)) → (a : Int) → List Char → Option (Int × List Char)
  | 0, _, _, _, _ => none
  | fuel + 1, level, higher, a, cs =>
    match operator? level (skipBlanks cs) with
    | some (o, rest) => do
      let (b, rest) ← read value fuel higher rest
      readMore value fuel level higher (← apply o a b) rest
    | none => some (a, cs)

def readAtom (value : String → Int) : (fuel : Nat) → List Char → Option (Int × List Char)
  | 0, _ => none
  | fuel + 1, '(' :: rest => do
    let (a, rest) ← read value fuel levels rest
    match skipBlanks rest with
    | ')' :: rest => return (a, rest)
    | _ => none
  | fuel + 1, '-' :: rest => (readAtom value fuel (skipBlanks rest)).map fun (a, rest) => (-a, rest)
  | fuel + 1, '+' :: rest => readAtom value fuel (skipBlanks rest)
  | fuel + 1, '!' :: rest =>
    (readAtom value fuel (skipBlanks rest)).map fun (a, rest) => (ofBool (a == 0), rest)
  | _ + 1, cs =>
    let word := cs.takeWhile fun c => c.isAlphanum || c == '_'
    let rest := cs.drop word.length
    match word with
    | [] => none
    | c :: _ =>
      if c.isDigit then (String.ofList word).toNat?.map fun n => ((n : Int), rest)
      else some (value (String.ofList word), rest)

end

def eval? (value : String → Int) (expression : List Char) : Option Int :=
  match read value (16 * expression.length + 16) levels expression with
  | some (a, rest) => if (skipBlanks rest).isEmpty then some a else none
  | none => none

end MachineFleet.Trial.Script.Arithmetic
