import MachineFleet.Machine.Metadata

namespace MachineFleet

/-- Names one request that waits for an answer; no two requests share a number. -/
abbrev ReplyId := Nat

inductive Message where
  | start (reply : ReplyId)
  | stop (reply : ReplyId)
  | retire
  | registered
  | ready (machine : Metadata)
  | unready (machine : Metadata)
  /-- The machine has exited on its own, with a failure or without one. -/
  | runFinished (failure : Option Error)
  deriving DecidableEq, Repr

inductive Answer where
  | started (machine : Metadata)
  | failed (error : Error)
  | stopped (id : String)
  | dropped
  deriving DecidableEq, Repr

inductive FleetEvent where
  | stopped (id : String)
  | ready (machine : Metadata)
  | unready (machine : Metadata)
  deriving DecidableEq, Repr

inductive DriverCall where
  | start
  | shutdown
  | kill
  | releaseNetwork (id : String)
  | isolatedRoot
  deriving DecidableEq, Repr

def Message.reply? : Message → Option ReplyId
  | start reply => some reply
  | stop reply => some reply
  | _ => none

end MachineFleet
