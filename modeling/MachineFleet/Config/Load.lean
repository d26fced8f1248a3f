import MachineFleet.Config.Record
import MachineFleet.Data.Utf8
import MachineFleet.Data.Yaml
import MachineFleet.Files.Failure

namespace MachineFleet

namespace FleetConfig

/-- Reads a configuration from the text of a file; every field may be left out, and so may the
whole text. -/
def ofYaml (home : Path) (text : String) : Except Error FleetConfig :=
  match (Yaml.parse? text).bind (ofDocument? .tableOnly home) with
  | some c => .ok c
  | none => .error .yaml

def load (home : Path) (contents : Except Files.Failure (List UInt8)) :
    Except Error FleetConfig := do
  match Utf8.toString? (← contents.mapError .io) with
  | none => throw (.io .notUtf8)
  | some text =>
    let c ← ofYaml home text
    c.validate
    return c

end FleetConfig

/-- The settings of machines that the command line may replace. An empty list of arguments replaces
nothing. -/
structure Overrides where
  shutdownTimeoutMs : Option UInt64
  execPath : Option Path
  args : List String
  deriving DecidableEq, Repr

def Overrides.setIn (o : Overrides) (m : MachineConfig) : MachineConfig :=
  let m := match o.shutdownTimeoutMs with
    | some ms => m.setShutdownTimeout (.ofMillis ms.toNat)
    | none => m
  let m := match o.execPath with
    | some path => m.setExecPath path
    | none => m
  if o.args.isEmpty then m else m.setArgs o.args

def Overrides.apply (o : Overrides) (c : FleetConfig) : FleetConfig :=
  { c with machine := o.setIn c.machine }

def loadConfig (home : Path) (file? : Option (Except Files.Failure (List UInt8)))
    (overrides : Overrides) : Except Error FleetConfig := do
  let base ← match file? with
    | some contents => FleetConfig.load home contents
    | none => pure (FleetConfig.defaults home)
  let c := overrides.apply base
  c.validate
  return c

end MachineFleet
