import MachineFleet.Data.Dict
import MachineFleet.Data.Json

/-!
Documents as the readers of records see them: scalars with all the readings their notation allows,
lists and tables. Both notations of configurations are read through documents, so a record has one
reader. In some notations a record may also be given as the list of its fields in order.
-/
namespace MachineFleet

structure Scalar where
  text? : Option String
  natural? : Option Nat
  truth? : Option Bool
  isNull : Bool
  /-- Whether nothing is written; it then also stands for an empty list or table. -/
  isBlank : Bool
  deriving Repr, DecidableEq

inductive Document where
  | scalar (s : Scalar)
  | list (items : List Document)
  | table (entries : List (Document × Document))
  deriving Repr, Inhabited

namespace Scalar

def ofText (s : String) : Scalar := ⟨some s, none, none, false, false⟩

def ofInteger (n : Int) : Scalar := ⟨none, if 0 ≤ n then some n.toNat else none, none, false, false⟩

def ofTruth (b : Bool) : Scalar := ⟨none, none, some b, false, false⟩

def null : Scalar := ⟨none, none, none, true, false⟩

def unreadable : Scalar := ⟨none, none, none, false, false⟩

end Scalar

mutual

def Json.document : Json → Document
  | .null => .scalar .null
  | .bool b => .scalar (.ofTruth b)
  | .integer n => .scalar (.ofInteger n)
  | .real _ => .scalar .unreadable
  | .text s => .scalar (.ofText s)
  | .list items => .list (Json.documents items)
  | .record fields => .table (Json.entryDocuments fields)

def Json.documents : List Json → List Document
  | [] => []
  | item :: rest => item.document :: Json.documents rest

def Json.entryDocuments : List (String × Json) → List (Document × Document)
  | [] => []
  | (name, value) :: rest => (.scalar (.ofText name), value.document) :: Json.entryDocuments rest

end

namespace Document

def text? : Document → Option String
  | scalar s => s.text?
  | _ => none

def truth? : Document → Option Bool
  | scalar s => s.truth?
  | _ => none

def natural? (bound : Nat) : Document → Option Nat
  | scalar s => s.natural?.filter (· < bound)
  | _ => none

def uint16? (d : Document) : Option UInt16 := (d.natural? UInt16.size).map .ofNat

def uint32? (d : Document) : Option UInt32 := (d.natural? UInt32.size).map .ofNat

def uint64? (d : Document) : Option UInt64 := (d.natural? UInt64.size).map .ofNat

def items? : Document → Option (List Document)
  | list items => some items
  | scalar s => if s.isBlank then some [] else none
  | table _ => none

def entries? : Document → Option (List (Document × Document))
  | table entries => some entries
  | scalar s => if s.isBlank then some [] else none
  | list _ => none

def texts? (d : Document) : Option (List String) := do
  (← d.items?).mapM text?

def dict? {α : Type} (value? : Document → Option α) (d : Document) : Option (Dict α) := do
  let entries ← (← d.entries?).mapM fun (key, value) => do
    return (← key.text?, ← value? value)
  return Dict.ofList entries

def optional? {α : Type} (value? : Document → Option α) (d : Document) : Option (Option α) :=
  match d with
  | scalar s => if s.isNull then some none else (value? d).map some
  | _ => (value? d).map some

end Document

abbrev Fields := List (String × Document)

namespace Fields

def get? (fields : Fields) (name : String) : Option Document :=
  (fields.find? (·.1 == name)).map (·.2)

def getD {α : Type} (fields : Fields) (name : String) (value? : Document → Option α)
    (default : α) : Option α :=
  match fields.get? name with
  | some d => value? d
  | none => some default

def require {α : Type} (fields : Fields) (name : String) (value? : Document → Option α) :
    Option α :=
  (fields.get? name).bind value?

/-- The entries whose keys are among `names`; no such key may occur twice, and every key has to be
a text. -/
def ofEntries? (names : List String) : List (Document × Document) → Option Fields
  | [] => some []
  | (key, value) :: rest => do
    let name ← key.text?
    let fields ← ofEntries? names rest
    if name ∈ names then
      if (fields.get? name).isSome then none else return (name, value) :: fields
    else return fields

end Fields

inductive RecordForm where
  | tableOnly
  | tableOrList
  deriving DecidableEq, Repr

def Document.fields? (form : RecordForm) (names : List String) (d : Document) : Option Fields :=
  match form, d with
  | .tableOrList, .list items =>
    if items.length ≤ names.length then some (names.zip items) else none
  | _, d => d.entries?.bind (Fields.ofEntries? names)

end MachineFleet
