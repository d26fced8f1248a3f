/-!
Values of the JSON format. Numbers are kept exactly: an integer of 64 bits as such, any other
number as it was written. Records keep their fields as they were given, repeated names included.
-/
namespace MachineFleet

inductive Json where
  | null
  | bool (b : Bool)
  | integer (n : Int)
  | real (written : String)
  | text (s : String)
  | list (items : List Json)
  | record (fields : List (String × Json))
  deriving Inhabited, BEq

namespace Json

/-- The value of the last field with this name. -/
def field? (name : String) : Json → Option Json
  | record fields => (fields.reverse.find? (·.1 == name)).map (·.2)
  | _ => none

def ofNat (n : Nat) : Json := integer n

def ofOption {α : Type} (write : α → Json) : Option α → Json
  | none => null
  | some a => write a

end Json

end MachineFleet
