import MachineFleet.Data.Dict
import MachineFleet.Error
import MachineFleet.Net.Address

namespace MachineFleet

structure Entry (γ : Type) where
  id : String
  controller : γ
  address : IpAddress
  ready : Bool
  deriving DecidableEq, Repr

structure Registry (γ : Type) where
  entries : Dict (Entry γ)
  keyed : ∀ e ∈ entries.entries, e.2.id = e.1
  deriving DecidableEq, Repr

namespace Registry

variable {γ : Type}

def empty : Registry γ := ⟨∅, fun _ h => nomatch h⟩

def put (r : Registry γ) (entry : Entry γ) : Registry γ where
  entries := r.entries.insert entry.id entry
  keyed := by
    intro e he
    rcases Dict.mem_insertEntry he with rfl | he
    · rfl
    · exact r.keyed e he

/-- Enters a machine as not ready. Its identity must not be empty nor taken, and its controller
must not have exited; the first fault counts. -/
def add (r : Registry γ) (id : String) (controller : γ) (exited : Bool) (address : IpAddress) :
    Except Error (Registry γ) :=
  if id.isEmpty then .error (.invalidArgument .emptyMachineId)
  else if exited then .error (.invalidArgument (.controllerExited id))
  else if (r.entries.find? id).isSome then .error (.alreadyExists id)
  else .ok (r.put ⟨id, controller, address, false⟩)

def get? (r : Registry γ) (id : String) : Option (Entry γ) := r.entries.find? id

def remove (r : Registry γ) (id : String) : Registry γ where
  entries := r.entries.erase id
  keyed e he := r.keyed e (List.mem_filter.1 he).1

def take (r : Registry γ) (id : String) : Option γ × Registry γ :=
  ((r.get? id).map (·.controller), r.remove id)

def setReady (r : Registry γ) (id : String) (ready : Bool) : Registry γ :=
  match r.get? id with
  | some entry => r.put { entry with ready }
  | none => r

def snapshot (r : Registry γ) : List (Entry γ) := r.entries.entries.map (·.2)

def readyEntries (r : Registry γ) : List (Entry γ) := r.snapshot.filter (·.ready)

def size (r : Registry γ) : Nat := r.entries.entries.length

end Registry

end MachineFleet
