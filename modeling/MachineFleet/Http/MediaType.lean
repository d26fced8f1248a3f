import MachineFleet.Http.Message

namespace MachineFleet.Http

structure MediaType where
  top : List Char
  sub : List Char
  suffix : Option (List Char)
  deriving DecidableEq, Repr

namespace MediaType

/-- The text before the last plus sign and the text after it, if there is one that does not begin
the text. -/
def splitSuffix (text : List Char) : List Char × Option (List Char) :=
  let after := (text.reverse.takeWhile (· != '+')).reverse
  let before := (text.reverse.dropWhile (· != '+')).reverse.dropLast
  if before.isEmpty then (text, none) else (before, some after)

def isQuotable (c : Char) : Bool := (' ' ≤ c && c.toNat < 0x7F && c != '"') || c == '\t'

def skipValue? (text : List Char) : Option (List Char) :=
  match text with
  | '"' :: rest =>
    match rest.dropWhile isQuotable with
    | '"' :: after => if (rest.takeWhile isQuotable).isEmpty then none else some after
    | _ => none
  | text => some (text.dropWhile isTokenChar)

def areParameters : (fuel : Nat) → List Char → Bool
  | 0, _ => false
  | _, [] => true
  | fuel + 1, ' ' :: rest => areParameters fuel rest
  | fuel + 1, text =>
    let name := text.takeWhile isTokenChar
    match text.dropWhile isTokenChar with
    | '=' :: value =>
      match skipValue? value with
      | some [] => !name.isEmpty
      | some (';' :: rest) => !name.isEmpty && value.head? != some ';' && areParameters fuel rest
      | _ => false
    | _ => false

def parse? (text : String) : Option MediaType :=
  let cs := text.toList.map Char.toLower
  let top := cs.takeWhile isTokenChar
  match cs.dropWhile isTokenChar with
  | '/' :: rest =>
    let (sub, suffix) := splitSuffix (rest.takeWhile isTokenChar)
    let isWellFormed := match rest.dropWhile isTokenChar with
      | [] => true
      | ';' :: parameters => !sub.isEmpty && areParameters (parameters.length + 1) parameters
      | _ => false
    if !top.isEmpty && isWellFormed then some ⟨top, sub, suffix⟩ else none
  | _ => none

def isJson (m : MediaType) : Bool :=
  m.top == "application".toList && (m.sub == "json".toList || m.suffix == some "json".toList)

end MediaType

end MachineFleet.Http
