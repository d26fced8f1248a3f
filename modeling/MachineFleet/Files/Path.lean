/-!
Paths as text. A path is absolute if it begins with a slash; its components are the names between
slashes, where empty names count for nothing and a dot only at the start of a relative path.
-/
namespace MachineFleet

abbrev Path := String

namespace Path

inductive Component where
  | root
  | current
  | parent
  | name (text : String)
  deriving DecidableEq, Repr

def isAbsolute (p : Path) : Bool := p.toList.head? == some '/'

def pieces : List Char → List (List Char)
  | [] => [[]]
  | c :: rest =>
    if c = '/' then [] :: pieces rest
    else
      match pieces rest with
      | [] => [[c]]
      | piece :: more => (c :: piece) :: more

def component? (piece : List Char) : Option Component :=
  if piece = [] ∨ piece = ['.'] then none
  else if piece = ['.', '.'] then some .parent
  else some (.name (String.ofList piece))

def components (p : Path) : List Component :=
  let all := pieces p.toList
  let start := if p.isAbsolute then [.root] else if all.head? = some ['.'] then [.current] else []
  start ++ all.filterMap component?

def fileName? (p : Path) : Option String :=
  match p.components.getLast? with
  | some (.name text) => some text
  | _ => none

/-- Whether the path names the root of the file system or nothing. -/
def hasNoParent (p : Path) : Bool :=
  match p.components.getLast? with
  | none => true
  | some .root => true
  | _ => false

def Component.text : Component → String
  | root => ""
  | current => "."
  | parent => ".."
  | name text => text

def ofComponents (components : List Component) : Path :=
  if components = [.root] then "/" else "/".intercalate (components.map (·.text))

def parent? (p : Path) : Option Path :=
  if p.hasNoParent then none else some (ofComponents p.components.dropLast)

/-- `child` seen from `p`: itself if it is absolute, else below `p`. -/
def join (p child : Path) : Path :=
  if child.isAbsolute then child
  else if p.isEmpty || p.toList.getLast? == some '/' then p ++ child
  else p ++ "/" ++ child

def resolve (p : Path) : List String :=
  (p.components.foldl
    (fun up c => match c with
      | .name text => text :: up
      | .parent => up.tail
      | _ => up)
    []).reverse

end Path

end MachineFleet
