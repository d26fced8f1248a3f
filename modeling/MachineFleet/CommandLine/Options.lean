/-!
Reading the words of a command line against the options of a command. An option takes one value,
the next word or the text after an equals sign. A value is looked at when the next option comes or
the words end, so an option that is not known counts before a value that is wrong.
-/
namespace MachineFleet.CommandLine

inductive Fault where
  | unknownArgument
  | unknownCommand
  | badValue
  | unreadableValue
  | needlessValue
  | givenTwice
  | helpWanted
  | versionWanted
  deriving DecidableEq, Repr

structure Setting (α : Type) where
  name : String
  repeats : Bool
  /-- Whether the next word is its value whatever it looks like. -/
  takesAnyWord : Bool
  set : String → α → Except Fault α

def Setting.once {α : Type} (name : String) (set : String → α → Except Fault α) : Setting α :=
  ⟨name, false, false, set⟩

structure Command (α : Type) where
  settings : List (Setting α)
  hasVersion : Bool
  commands : List String

inductive Word where
  | stop
  | long (name : String) (value? : Option String)
  | short (first : Char)
  | bare
  deriving DecidableEq, Repr

def splitValue : List Char → List Char × Option (List Char)
  | [] => ([], none)
  | '=' :: rest => ([], some rest)
  | c :: rest =>
    let (name, value?) := splitValue rest
    (c :: name, value?)

def Word.ofChars : List Char → Word
  | ['-', '-'] => .stop
  | '-' :: '-' :: rest =>
    let (name, value?) := splitValue rest
    .long (String.ofList name) (value?.map String.ofList)
  | '-' :: c :: _ => .short c
  | _ => .bare

def Word.ofString (word : String) : Word := .ofChars word.toList

structure Progress (α : Type) where
  state : α
  given : List String
  last? : Option (Setting α × Option String)

namespace Progress

variable {α : Type}

def start (state : α) : Progress α := ⟨state, [], none⟩

def waiting? (p : Progress α) : Option (Setting α) :=
  match p.last? with
  | some (s, none) => some s
  | _ => none

def fill (p : Progress α) (word : String) : Progress α :=
  { p with last? := p.last?.map fun (s, _) => (s, some word) }

def look (p : Progress α) (s : Setting α) (value? : Option String) :
    Except Fault (Progress α) :=
  match value? with
  | none => .error .badValue
  | some value =>
    if !s.repeats && p.given.contains s.name then .error .givenTwice
    else (s.set value p.state).map fun state => ⟨state, s.name :: p.given, none⟩

def settle (p : Progress α) : Except Fault (Progress α) :=
  match p.last? with
  | some (s, value?) => p.look s value?
  | none => .ok p

end Progress

namespace Command

variable {α : Type}

def flag (c : Command α) (isHelp isVersion : Bool) (p : Progress α) : Fault :=
  if isHelp || (isVersion && c.hasVersion) then
    match p.settle with
    | .error fault => fault
    | .ok _ => if isHelp then .helpWanted else .versionWanted
  else .unknownArgument

/-- An option by its name. A value after an equals sign is looked at once. -/
def long (c : Command α) (name : String) (value? : Option String) (p : Progress α) :
    Except Fault (Progress α) :=
  match c.settings.find? (·.name == name) with
  | some s => do
    let p ← p.settle
    match value? with
    | some _ => p.look s value?
    | none => return { p with last? := some (s, none) }
  | none =>
    let fault := c.flag (name == "help") (name == "version") p
    if value?.isSome && fault != .unknownArgument then .error .needlessValue else .error fault

def unexpected (c : Command α) (word : String) (afterStop : Bool) : Fault :=
  if c.commands.isEmpty || (afterStop && c.commands.contains word) then .unknownArgument
  else .unknownCommand

/-- Reads words up to the name of a command or to the end. Gives the name and the words after it,
if there is one. -/
def read (c : Command α) : (words : List String) → (afterStop : Bool) → Progress α →
    Except Fault (Progress α × Option (String × List String))
  | [], _, p => .ok (p, none)
  | word :: _, true, _ => .error (c.unexpected word true)
  | word :: rest, false, p =>
    if p.waiting?.any (·.takesAnyWord) then c.read rest false (p.fill word)
    else if p.waiting?.isNone && c.commands.contains word then .ok (p, some (word, rest))
    else match Word.ofString word with
      | .stop => c.read rest true p
      | .long name value? => do c.read rest false (← c.long name value? p)
      | .short letter => throw (c.flag (letter == 'h') (letter == 'V') p)
      | .bare =>
        if p.waiting?.isSome then c.read rest false (p.fill word)
        else throw (c.unexpected word false)

end Command

end MachineFleet.CommandLine
