import MachineFleet.Data.Document
import MachineFleet.Data.Json.Parser
import MachineFleet.Data.Yaml.Token

/-!
What a scalar may be read as. Any scalar reads as a text. Only plain scalars are numbers, truth
values or nothing at all; a literal scalar is a number or a truth value if its tag says so.
-/
namespace MachineFleet.Yaml

def standardTag (name : String) : String := "tag:yaml.org,2002:" ++ name

def digitValue? (base : Nat) (c : Char) : Option Nat :=
  (Json.hexValue? c).filter (· < base)

def digits? (base : Nat) (cs : List Char) : Option Nat :=
  if cs.isEmpty then none
  else cs.foldlM (fun n c => (digitValue? base c).map (n * base + ·)) 0

/-- Reads a natural number below 2^64. It may have a plus sign, and a base other than ten; a
decimal number has no needless zeros. -/
def natural? (text : String) : Option Nat :=
  let cs := text.toList
  let unsigned := if cs.head? == some '+' then cs.drop 1 else cs
  let value? := match unsigned with
    | '0' :: 'x' :: rest => digits? 16 rest
    | '0' :: 'o' :: rest => digits? 8 rest
    | '0' :: 'b' :: rest => digits? 2 rest
    | '0' :: _ :: _ => none
    | rest => digits? 10 rest
  value?.filter (· < UInt64.size)

def truth? (text : String) : Option Bool :=
  if ["true", "True", "TRUE"].contains text then some true
  else if ["false", "False", "FALSE"].contains text then some false
  else none

def isNullWord (text : String) : Bool :=
  ["null", "Null", "NULL", "~"].contains text

def readings (style : ScalarStyle) (tag? : Option String) (text : String) : Scalar where
  text? := some text
  natural? :=
    if style == .plain || (style == .literal && tag? == some (standardTag "int")) then
      natural? text
    else none
  truth? :=
    if style == .plain || (style == .literal && tag? == some (standardTag "bool")) then
      truth? text
    else none
  isNull := style == .plain &&
    match tag? with
    | none => text.isEmpty || isNullWord text
    | some tag => tag == standardTag "null" && isNullWord text
  isBlank := style == .plain && text.isEmpty

def blank (tag? : Option String) : Document := .scalar (readings .plain tag? "")

end MachineFleet.Yaml
