import MachineFleet.Data.Yaml.Scalar

/-!
Building the document that a row of tokens writes. A node may be named by an anchor, and an alias
stands for the node named last. An alias may also stand within the node that it names; the document
is then written out to a fixed depth, and what lies deeper cannot be read.
-/
namespace MachineFleet.Yaml

structure Reading where
  tokens : List Token
  handles : List (String × String)
  names : List (String × Nat)
  named : Nat
  complete : List (Nat × Document)
  /-- All named nodes as they were found when the tokens were read before. -/
  known : List (Nat × Document)

abbrev Reader := StateT Reading Option

namespace Reader

def peek : Reader (Option Token) := return (← get).tokens.head?

def skip : Reader Unit := modify fun r => { r with tokens := r.tokens.tail }

def fail {α : Type} : Reader α := fun _ => none

def take (t : Token) : Reader Bool := do
  if (← peek) == some t then
    skip
    return true
  else return false

def expect (t : Token) : Reader Unit := do
  if !(← take t) then fail

def isNext (ts : List Token) : Reader Bool := return (← peek).any (ts.contains ·)

def resolve (name : TagName) : Reader String := do
  if name.handle.isEmpty then return name.suffix
  match (← get).handles.find? (·.1 == name.handle) with
  | some (_, expansion) => return expansion ++ name.suffix
  | none => fail

def aliased (name : String) : Reader Document := do
  let r ← get
  match r.names.find? (·.1 == name) with
  | none => fail
  | some (_, id) =>
    match r.complete.find? (·.1 == id), r.known.find? (·.1 == id) with
    | some (_, d), _ => return d
    | none, some (_, d) => return d
    | none, none => return .scalar .unreadable

def takeAnchor : Reader (Option String) := do
  match ← peek with
  | some (.anchor name) =>
    skip
    return some name
  | _ => return none

def takeTag : Reader (Option TagName) := do
  match ← peek with
  | some (.tag name) =>
    skip
    return some name
  | _ => return none

def properties : Reader (Option String × Option TagName) := do
  match ← takeAnchor with
  | some name => return (some name, ← takeTag)
  | none =>
    match ← takeTag with
    | some tag => return (← takeAnchor, some tag)
    | none => return (none, none)

def announce (anchor? : Option String) : Reader Nat := do
  let r ← get
  match anchor? with
  | some name => set { r with names := (name, r.named) :: r.names, named := r.named + 1 }
  | none => pure ()
  return r.named

def keep (anchor? : Option String) (id : Nat) (d : Document) : Reader Document := do
  if anchor?.isSome then modify fun r => { r with complete := (id, d) :: r.complete }
  return d

/-- What may begin at a node: block collections within blocks only, and a list that is not moved in
only as the key or value of a table. -/
inductive Place where
  | block
  | entry
  | brackets
  deriving DecidableEq

mutual

def node (place : Place) : (fuel : Nat) → Reader Document
  | 0 => fail
  | fuel + 1 => do
    match ← peek with
    | some (.alias name) =>
      skip
      aliased name
    | _ =>
      let (anchor?, tagName?) ← properties
      let tag? ← tagName?.mapM resolve
      let id ← announce anchor?
      keep anchor? id (← content place anchor?.isSome tag? fuel)

def content (place : Place) (hasAnchor : Bool) (tag? : Option String) :
    (fuel : Nat) → Reader Document
  | 0 => fail
  | fuel + 1 => do
    match ← peek, place with
    | some .blockEntry, .entry => return .list (← flatItems fuel)
    | some (.scalar style text), _ =>
      skip
      return .scalar (readings style tag? text)
    | some .listStart, _ =>
      skip
      return .list (← bracketItems true fuel)
    | some .tableStart, _ =>
      skip
      return .table (← bracketEntries true fuel)
    | some .blockListStart, .block | some .blockListStart, .entry =>
      skip
      return .list (← blockItems fuel)
    | some .blockTableStart, .block | some .blockTableStart, .entry =>
      skip
      return .table (← blockEntries fuel)
    | _, _ => if hasAnchor || tag?.isSome then return blank tag? else fail

def blockItems : (fuel : Nat) → Reader (List Document)
  | 0 => fail
  | fuel + 1 => do
    if ← take .blockEntry then
      let item ← nodeUnless [.blockEntry, .blockEnd] .block fuel
      return item :: (← blockItems fuel)
    else
      expect .blockEnd
      return []

def flatItems : (fuel : Nat) → Reader (List Document)
  | 0 => fail
  | fuel + 1 => do
    if ← take .blockEntry then
      let item ← nodeUnless [.blockEntry, .key, .value, .blockEnd] .block fuel
      return item :: (← flatItems fuel)
    else return []

def blockEntries : (fuel : Nat) → Reader (List (Document × Document))
  | 0 => fail
  | fuel + 1 => do
    if ← take .key then
      let key ← nodeUnless [.key, .value, .blockEnd] .entry fuel
      let value ←
        if ← take .value then nodeUnless [.key, .value, .blockEnd] .entry fuel
        else pure (blank none)
      return (key, value) :: (← blockEntries fuel)
    else
      expect .blockEnd
      return []

def bracketItems (isFirst : Bool) : (fuel : Nat) → Reader (List Document)
  | 0 => fail
  | fuel + 1 => do
    if ← take .listEnd then return []
    if !isFirst then expect .separator
    if ← take .key then
      let entry ← singleEntry fuel
      return .table [entry] :: (← bracketItems false fuel)
    else if ← take .listEnd then return []
    else
      let item ← node .brackets fuel
      return item :: (← bracketItems false fuel)

def singleEntry : (fuel : Nat) → Reader (Document × Document)
  | 0 => fail
  | fuel + 1 => do
    let key ←
      if ← isNext [.value, .separator, .listEnd] then
        skip
        pure (blank none)
      else node .brackets fuel
    let value ←
      if ← take .value then nodeUnless [.separator, .listEnd] .brackets fuel
      else pure (blank none)
    return (key, value)

def bracketEntries (isFirst : Bool) : (fuel : Nat) → Reader (List (Document × Document))
  | 0 => fail
  | fuel + 1 => do
    if ← take .tableEnd then return []
    if !isFirst then expect .separator
    if ← take .key then
      let key ← nodeUnless [.value, .separator, .tableEnd] .brackets fuel
      let value ←
        if ← take .value then nodeUnless [.separator, .tableEnd] .brackets fuel
        else pure (blank none)
      return (key, value) :: (← bracketEntries false fuel)
    else if ← take .tableEnd then return []
    else
      let key ← node .brackets fuel
      return (key, blank none) :: (← bracketEntries false fuel)

def nodeUnless (ends : List Token) (place : Place) : (fuel : Nat) → Reader Document
  | 0 => fail
  | fuel + 1 => do
    if ← isNext ends then return blank none else node place fuel

end

/-- The directives before a document: one version at most, and no handle twice. The standard
handles have their expansions unless a directive gives them others. -/
def directives (hasVersion : Bool) : (fuel : Nat) → Reader Unit
  | 0 => fail
  | fuel + 1 => do
    match ← peek with
    | some (.version major minor) =>
      if hasVersion || major != 1 || (minor != 1 && minor != 2) then fail
      skip
      directives true fuel
    | some (.tagHandle handle expansion) =>
      if (← get).handles.any (·.1 == handle) then fail
      skip
      modify fun r => { r with handles := (handle, expansion) :: r.handles }
      directives hasVersion fuel
    | _ => modify fun r =>
        { r with handles := r.handles ++ [("!", "!"), ("!!", standardTag "")] }

def isDirective : Token → Bool
  | .version _ _ => true
  | .tagHandle _ _ => true
  | _ => false

def document (fuel : Nat) : Reader Document := do
  match ← peek with
  | none => return blank none
  | some first =>
    directives false fuel
    let d ←
      if isDirective first || first == .documentStart then
        expect .documentStart
        match ← peek with
        | none => pure (blank none)
        | some t =>
          if isDirective t || t == .documentStart || t == .documentEnd then pure (blank none)
          else node .block fuel
      else node .block fuel
    let rest := (← get).tokens
    if (rest.dropWhile (· == .documentEnd)).isEmpty then return d else fail

end Reader

/-- How often a document is read again to write out the aliases within their own nodes. -/
def aliasDepth : Nat := 5

def readAgain (tokens : List Token) : (times : Nat) → (known : List (Nat × Document)) →
    Option Document
  | 0, _ => none
  | times + 1, known => do
    let start : Reading := ⟨tokens, [], [], 0, [], known⟩
    let (d, last) ← (Reader.document (4 * tokens.length + 4)).run start
    if times = 0 || last.complete.isEmpty then return d
    else readAgain tokens times last.complete

def documentOfTokens? (tokens : List Token) : Option Document :=
  readAgain tokens aliasDepth []

end MachineFleet.Yaml
