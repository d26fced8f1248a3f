import MachineFleet.Config
import MachineFleet.Net.Address.Printer

namespace MachineFleet

/-- The text with every occurrence of `mark` replaced, from the left; occurrences do not overlap. -/
def replaceAll (mark value : List Char) (text : List Char) : List Char :=
  match text with
  | [] => []
  | c :: rest =>
    if mark ≠ [] ∧ mark.isPrefixOf (c :: rest) then
      value ++ replaceAll mark value ((c :: rest).drop mark.length)
    else c :: replaceAll mark value rest
termination_by text.length
decreasing_by
  · rename_i h
    have := List.length_pos_iff.2 h.1
    simp only [List.length_drop, List.length_cons]
    omega
  · simp

namespace Launch

def idMark : List Char := ['\x7b', 'i', 'd', '\x7d']

def addressMark : List Char := ['\x7b', 'i', 'p', '\x7d']

def fill (id address : List Char) (arg : List Char) : List Char :=
  replaceAll addressMark address (replaceAll idMark id arg)

def idVariable : String := "MONOFLEET_MACHINE_ID"

def addressVariable : String := "MONOFLEET_MACHINE_IP"

end Launch

structure Launch where
  program : Path
  args : List String
  environment : Dict String
  directory : Option Path
  deriving DecidableEq, Repr

/-- The launch of the machine with this identity and address. -/
def MachineConfig.launch (c : MachineConfig) (id : String) (address : Ipv4)
    (directory : Option Path) : Launch where
  program := c.execPath
  args := c.args.map fun arg =>
    String.ofList (Launch.fill id.toList address.renderChars arg.toList)
  environment := (c.env.insert Launch.idVariable id).insert Launch.addressVariable address.render
  directory

end MachineFleet
