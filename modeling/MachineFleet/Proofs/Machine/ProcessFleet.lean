import MachineFleet.Proofs.Lifecycle.Teardown
import MachineFleet.Proofs.Machine.Handouts

/-!
Controllers whose machines run as processes of one factory. What a controller asks of its driver is
done at the factory, and it hears of a call only once the driver has answered it; in between
anything may happen at the factory and at the other controllers.
-/
namespace MachineFleet

structure ProcessFleet where
  factory : ProcessFactory
  past : ProcessFactory.History
  controllers : List Controller

namespace ProcessFleet

inductive Call where
  | start
  | wait
  | shutdown
  | kill
  | release
  deriving DecidableEq, Repr

inductive Input where
  | create (jail : String) (probe : ProbeConfig) (shutdownTimeout : Duration)
  | post (k : Nat) (m : Message)
  /-- A controller goes on without hearing of a call. -/
  | act (k : Nat) (s : Controller.Surroundings) (a : Controller.Action)
  | hear (k : Nat) (s : Controller.Surroundings) (call : Call)
  | watch (k : Nat)
  | endStart (k : Nat) (id : String) (refuses : Files.Tree → Launch → Option Files.Failure)
  | refuseShutdown (k : Nat) (failure : Error)
  | exit (k : Nat) (exit : MachineExit)
  | write (files : Files.Tree)

def new (config : MachineConfig) (files : Files.Tree) : ProcessFleet where
  factory := .new config files
  past := []
  controllers := []

def number : ExitCall → Nat
  | .wait => 0
  | .shutdown => 1
  | .kill => 2

def demand? (k : Nat) : Controller.Effect → Option ProcessFactory.Action
  | .call .start => some (.beginStart k)
  | .call .shutdown => some (.call k (number .shutdown) .shutdown)
  | .call .kill => some (.call k (number .kill) .kill)
  | .call (.releaseNetwork id) => some (.release k id)
  | _ => none

def failure? {α : Type} : Except Error α → Option Error
  | .ok _ => none
  | .error e => some e

def starts (told : List ProcessFactory.Effect) : List (Except Error Metadata) :=
  told.filterMap fun
    | .started _ result => some result
    | _ => none

def answers (told : List ProcessFactory.Effect) (n : Nat) : List (Except Error Unit) :=
  told.filterMap fun
    | .driver _ (.answer m result) => if m = n then some result else none
    | _ => none

def releases (told : List ProcessFactory.Effect) : List (Except Error Unit) :=
  told.filterMap fun
    | .released _ result => some result
    | _ => none

def news? (told : List ProcessFactory.Effect) (root : Option Path) : Call → Option Controller.Action
  | .start => (starts told).head?.map .driverStarted
  | .wait => (answers told (number .wait)).head?.map fun r => .machineExited (failure? r)
  | .shutdown => (answers told (number .shutdown)).head?.map fun r => .driverShutDown (failure? r)
  | .kill => (answers told (number .kill)).head?.map fun r => .driverKilled (failure? r)
  | .release => (releases told).head?.map fun r => .networkReleased (failure? r) root

def isNews : Controller.Action → Bool
  | .driverStarted _ | .driverShutDown _ | .driverKilled _ | .networkReleased .. |
    .machineExited _ => true
  | _ => false

/-- Whether a message is the news of the exit, which only the waiting task sends. -/
def isExit : Message → Bool
  | .runFinished _ => true
  | _ => false

def atFactory (config : MachineConfig) (s : ProcessFleet) (actions : List ProcessFactory.Action) :
    Option ProcessFleet :=
  (replay (ProcessFactory.step config) s.factory actions).map fun (done, factory) =>
    { s with factory, past := s.past ++ done }

def setController (s : ProcessFleet) (k : Nat) (c : Controller) : ProcessFleet :=
  { s with controllers := s.controllers.set k c }

/-- A step of a controller, together with what it asks of its driver. -/
def atController (config : MachineConfig) (s : ProcessFleet) (k : Nat)
    (surroundings : Controller.Surroundings) (a : Controller.Action) :
    Option (ProcessFleet × List (Nat × Controller.Effect)) := do
  let c ← s.controllers[k]?
  let (c, effects) ← c.step surroundings a
  let s ← s.atFactory config (effects.filterMap (demand? k))
  return (s.setController k c, effects.map (k, ·))

def step (config : MachineConfig) (s : ProcessFleet) :
    Input → Option (ProcessFleet × List (Nat × Controller.Effect))
  | .create jail probe shutdownTimeout =>
    (s.atFactory config [.create jail]).map fun s =>
      ({ s with controllers := s.controllers ++ [.new probe shutdownTimeout] }, [])
  | .post k m => do
    let c ← s.controllers[k]?
    if isExit m then none else (c.post? m).map fun c => (s.setController k c, [])
  | .act k surroundings a => if isNews a then none else s.atController config k surroundings a
  | .hear k surroundings call => do
    let site ← s.factory.sites[k]?
    let a ← news? (ProcessFactory.effectsAt s.past k) site.driver.jailRoot call
    s.atController config k surroundings a
  | .watch k => do
    let c ← s.controllers[k]?
    if c.watching then (s.atFactory config [.call k (number .wait) .wait]).map (·, []) else none
  | .endStart k id refuses => (s.atFactory config [.endStart k id refuses]).map (·, [])
  | .refuseShutdown k failure =>
    (s.atFactory config [.refuse k (number .shutdown) failure]).map (·, [])
  | .exit k exit => (s.atFactory config [.exit k exit]).map (·, [])
  | .write files => (s.atFactory config [.write files]).map (·, [])

end ProcessFleet

end MachineFleet
