namespace MachineFleet

inductive ExitStatus where
  | code (n : Nat)
  /-- Ended by a signal; `dumped` tells whether an image of its memory was left. -/
  | signal (number : Nat) (dumped : Bool)
  deriving DecidableEq, Repr

namespace ExitStatus

def signalNames : List String := ["HUP", "INT", "QUIT", "ILL", "TRAP", "ABRT", "BUS", "FPE", "KILL",
  "USR1", "SEGV", "USR2", "PIPE", "ALRM", "TERM", "STKFLT", "CHLD", "CONT", "STOP", "TSTP", "TTIN",
  "TTOU", "URG", "XCPU", "XFSZ", "VTALRM", "PROF", "WINCH", "IO", "PWR", "SYS"]

def signalName? (number : Nat) : Option String :=
  if number = 0 then none else signalNames[number - 1]?

def signalNumber? (name : String) : Option Nat :=
  (signalNames.findIdx? (· == name)).map (· + 1)

def text : ExitStatus → String
  | code n => "exit status: " ++ toString n
  | signal number dumped =>
    let name := match signalName? number with
      | some name => " (SIG" ++ name ++ ")"
      | none => ""
    "signal: " ++ toString number ++ name ++ if dumped then " (core dumped)" else ""

end ExitStatus

end MachineFleet
