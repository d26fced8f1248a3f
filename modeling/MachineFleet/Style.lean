namespace MachineFleet

inductive Display where
  | plain
  | terminal
  deriving DecidableEq, Repr

inductive Style where
  | header
  | literal
  | error
  deriving DecidableEq, Repr

namespace Style

def opening : Style → String
  | header => "\x1b[1m\x1b[33m"
  | literal => "\x1b[1m\x1b[34m"
  | error => "\x1b[1m\x1b[31m"

def closing : String := "\x1b[0m"

def apply (style : Style) (display : Display) (text : String) : String :=
  match display with
  | .plain => text
  | .terminal => style.opening ++ text ++ closing

end Style

end MachineFleet
