import MachineFleet.CommandLine.Options
import MachineFleet.Config.Load
import MachineFleet.Net.Address.Parser

namespace MachineFleet

inductive LogFormat where
  | text
  | json
  deriving DecidableEq, Repr

inductive Service where
  | server (host : IpAddress) (port : UInt16) (config : Option Path) (overrides : Overrides)
  | echo (host : IpAddress) (port : UInt16)
  deriving DecidableEq, Repr

structure Invocation where
  logLevel : String
  logFormat : LogFormat
  service : Option Service
  deriving DecidableEq, Repr

namespace CommandLine

def decimal? (cs : List Char) : Option Nat :=
  if cs.isEmpty || !cs.all Char.isDigit then none else some (Json.decimalValue cs)

def port? (text : String) : Option UInt16 :=
  let value? := match text.toList with
    | '-' :: rest => (decimal? rest).filter (· == 0)
    | '+' :: rest => decimal? rest
    | cs => decimal? cs
  (value?.filter (· < UInt16.size)).map .ofNat

def millis? (text : String) : Option UInt64 :=
  let value? := match text.toList with
    | '+' :: rest => decimal? rest
    | cs => decimal? cs
  (value?.filter (· < UInt64.size)).map .ofNat

def LogFormat.ofName? : String → Option LogFormat
  | "text" => some .text
  | "json" => some .json
  | _ => none

def orFault {α : Type} (fault : Fault) : Option α → Except Fault α
  | some a => .ok a
  | none => .error fault

def requirePath (text : String) : Except Fault Path :=
  if text.isEmpty then .error .badValue else .ok text

structure General where
  logLevel : Option String
  logFormat : Option LogFormat
  deriving DecidableEq, Repr

def General.none : General := ⟨.none, .none⟩

structure With (β : Type) where
  general : General
  own : β
  deriving Repr

def logLevelName : String := "log-level"
def logFormatName : String := "log-format"

def generalSettings (β : Type) : List (Setting (With β)) := [
  .once logLevelName fun v s => .ok { s with general.logLevel := some v },
  .once logFormatName fun v s => do
    return { s with general.logFormat := some (← orFault .badValue (LogFormat.ofName? v)) }]

structure ListenOptions where
  host : Option IpAddress
  port : Option UInt16
  deriving DecidableEq, Repr

structure ServerOptions where
  listen : ListenOptions
  config : Option Path
  overrides : Overrides
  deriving DecidableEq, Repr

def ServerOptions.none : ServerOptions := ⟨⟨.none, .none⟩, .none, ⟨.none, .none, []⟩⟩

def hostValue (text : String) : Except Fault IpAddress :=
  orFault .unreadableValue (IpAddress.parse? text)

def portValue (text : String) : Except Fault UInt16 := orFault .unreadableValue (port? text)

/-- The option for the arguments of machines, which look like options themselves. -/
def argSetting : Setting (With ServerOptions) where
  name := "arg"
  repeats := true
  takesAnyWord := true
  set v s := .ok { s with own.overrides.args := s.own.overrides.args ++ [v] }

def serverSettings : List (Setting (With ServerOptions)) := [
  .once "host" fun v s => do return { s with own.listen.host := some (← hostValue v) },
  .once "port" fun v s => do return { s with own.listen.port := some (← portValue v) },
  .once "config" fun v s => do return { s with own.config := some (← requirePath v) },
  .once "shutdown-timeout-ms" fun v s => do
    return { s with
      own.overrides.shutdownTimeoutMs := some (← orFault .unreadableValue (millis? v)) },
  .once "exec-path" fun v s => do
    return { s with own.overrides.execPath := some (← requirePath v) },
  argSetting]

def echoSettings : List (Setting (With ListenOptions)) := [
  .once "host" fun v s => do return { s with own.host := some (← hostValue v) },
  .once "port" fun v s => do return { s with own.port := some (← portValue v) }]

def program : Command (With Unit) where
  settings := generalSettings Unit
  hasVersion := true
  commands := ["server", "echo", "help"]

def serverCommand : Command (With ServerOptions) where
  settings := generalSettings ServerOptions ++ serverSettings
  hasVersion := false
  commands := []

def echoCommand : Command (With ListenOptions) where
  settings := generalSettings ListenOptions ++ echoSettings
  hasVersion := false
  commands := []

def loopback : IpAddress := .v4 (.ofBytes 127 0 0 1)
def anyAddress : IpAddress := .v4 (.ofBytes 0 0 0 0)
def defaultServerPort : UInt16 := 3456
def defaultEchoPort : UInt16 := 8080

def readAll {β : Type} (c : Command (With β)) (own : β) (words : List String) :
    Except Fault (With β) := do
  let (p, _) ← c.read words false (.start ⟨.none, own⟩)
  return (← p.settle).state

def readService (name : String) (words : List String) : Except Fault (General × Service) :=
  match name with
  | "server" => do
    let w ← readAll serverCommand .none words
    let o := w.own
    return (w.general, .server (o.listen.host.getD loopback)
      (o.listen.port.getD defaultServerPort) o.config o.overrides)
  | "echo" => do
    let w ← readAll echoCommand ⟨none, none⟩ words
    return (w.general, .echo (w.own.host.getD anyAddress) (w.own.port.getD defaultEchoPort))
  | _ =>
    match words with
    | [] => .error .helpWanted
    | [word] =>
      if program.commands.contains word then .error .helpWanted else .error .unknownCommand
    | _ => .error .unknownCommand

end CommandLine

open CommandLine in
/-- Understands a command line, whose first word names the program. The words of a command are
read before the last option in front of it is looked at. -/
def Invocation.ofWords (words : List String) : Except Fault Invocation := do
  let (p, command?) ← program.read (words.drop 1) false (.start ⟨.none, ()⟩)
  let service? ← match command? with
    | some (name, rest) => (readService name rest).map some
    | none => pure none
  let general := (← p.settle).state.general
  let inner := (service?.map (·.1)).getD .none
  return {
    logLevel := (inner.logLevel.or general.logLevel).getD "info"
    logFormat := (inner.logFormat.or general.logFormat).getD .text
    service := service?.map (·.2) }

end MachineFleet
