namespace MachineFleet.EnvFile

abbrev Variables := List (String × String)

def isBlank (c : Char) : Bool := c == ' ' || c == '\t'

inductive Quoting where
  | none
  | single
  | double
  | ended
  deriving DecidableEq, Repr

def lookUp (known : Variables) (name : List Char) : List Char :=
  (((known.find? (·.1 == String.ofList name)).map (·.2)).getD "").toList

def reference? (cs : List Char) : Option (List Char × List Char) :=
  match cs with
  | '\x7b' :: rest =>
    match rest.dropWhile (· != '\x7d') with
    | _ :: after => some (rest.takeWhile (· != '\x7d'), after)
    | [] => none
  | cs => some (cs.takeWhile Char.isAlphanum, cs.dropWhile Char.isAlphanum)

def value? (known : Variables) : (fuel : Nat) → Quoting → List Char → Option (List Char)
  | _, .none, [] => some []
  | _, .ended, [] => some []
  | fuel + 1, .ended, c :: rest =>
    if isBlank c then value? known fuel .ended rest else if c == '#' then some [] else none
  | fuel + 1, .single, c :: rest =>
    if c == '\'' then value? known fuel .none rest
    else (value? known fuel .single rest).map (c :: ·)
  | fuel + 1, quoting, '\\' :: c :: rest =>
    if "\\'\"$ ".toList.contains c then (value? known fuel quoting rest).map (c :: ·)
    else if c == 'n' then (value? known fuel quoting rest).map ('\n' :: ·)
    else none
  | fuel + 1, quoting, '$' :: rest => do
    let (name, rest) ← reference? rest
    return lookUp known name ++ (← value? known fuel quoting rest)
  | fuel + 1, .double, c :: rest =>
    if c == '"' then value? known fuel .none rest
    else (value? known fuel .double rest).map (c :: ·)
  | fuel + 1, .none, c :: rest =>
    if c == '\'' then value? known fuel .single rest
    else if c == '"' then value? known fuel .double rest
    else if isBlank c then value? known fuel .ended rest
    else (value? known fuel .none rest).map (c :: ·)
  | _, _, _ => none

def name? (cs : List Char) : Option (String × List Char) :=
  let isNameChar (c : Char) := c.isAlphanum || c == '_' || c == '.'
  match cs with
  | c :: _ =>
    if c.isAlpha || c == '_' then
      some (String.ofList (cs.takeWhile isNameChar), (cs.dropWhile isNameChar).dropWhile isBlank)
    else none
  | [] => none

/-- What a line that is not empty or a comment says. A word that says the variable is for other
programs may stand before the name. -/
def line? (known : Variables) (cs : List Char) : Option (String × String) := do
  let (name, rest) ← name? cs
  let (name, rest) ← match name, rest with
    | "export", '=' :: _ => some (name, rest)
    | "export", rest => name? rest
    | name, rest => some (name, rest)
  match rest with
  | '=' :: rest =>
    let text := rest.dropWhile isBlank
    if text.head? == some '#' then return (name, "")
    return (name, String.ofList (← value? known (text.length + 1) .none text))
  | _ => none

/-- The variables with those that the lines add, up to the first line that cannot be read. A
variable that has a value keeps it. -/
def addLines (known : Variables) : List (List Char) → Variables
  | [] => known
  | line :: rest =>
    let text := line.dropWhile isBlank
    if text.isEmpty || text.head? == some '#' then addLines known rest
    else match line? known text with
      | none => known
      | some (name, value) =>
        if known.any (·.1 == name) then addLines known rest
        else addLines (known ++ [(name, value)]) rest

def addTo (known : Variables) (text : String) : Variables :=
  addLines known ((text.splitOn "\n").map fun line =>
    let cs := line.toList
    if cs.getLast? == some '\r' then cs.dropLast else cs)

end MachineFleet.EnvFile
