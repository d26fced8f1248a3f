namespace MachineFleet

structure Health where
  accepting : Bool
  healthy : Bool
  deriving DecidableEq, Repr

namespace Health

def initial : Health := ⟨false, false⟩

def setUp (_ : Health) : Health := ⟨true, true⟩

def setDown (_ : Health) : Health := ⟨false, false⟩

end Health

end MachineFleet
