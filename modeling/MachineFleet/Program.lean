import MachineFleet.CommandLine
import MachineFleet.Data.EnvFile
import MachineFleet.Log.Filter
import MachineFleet.Style

namespace MachineFleet

structure Surroundings where
  environment : EnvFile.Variables
  environmentFile : Option String
  userHome : Path
  onTerminal : Bool
  read : Path → Except Files.Failure (List UInt8)

inductive Serving where
  | fleet (address : Endpoint) (config : FleetConfig)
  | echo (address : Endpoint)
  deriving DecidableEq, Repr

inductive ProgramCourse where
  /-- Ends with a code, after a complaint. The wording of usage errors is left open. -/
  | ends (code : Nat) (complaint : Option String)
  | serves (what : Serving)
  deriving DecidableEq, Repr

namespace Program

def environment (s : Surroundings) : EnvFile.Variables :=
  match s.environmentFile with
  | some text => EnvFile.addTo s.environment text
  | none => s.environment

def valueOf? (s : Surroundings) (name : String) : Option String :=
  ((environment s).find? (·.1 == name)).map (·.2)

/-- Texts are emphasised on terminals, except on those that say they cannot show it. -/
def display (s : Surroundings) : Display :=
  if s.onTerminal && valueOf? s "TERM" != some "dumb" then .terminal else .plain

def complaint (s : Surroundings) (e : Error) : String :=
  Style.error.apply (display s) "error:" ++ " " ++ e.message ++ "\n"

/-- What is said once connections to an address are accepted. -/
def announcement (s : Surroundings) (address : String) : String :=
  Style.header.apply (display s) "monofleet" ++ " listening on " ++
    Style.literal.apply (display s) address ++ "\n"

/-- Log lines are chosen by a variable of the environment if it says something that can be
understood, or else by the command line. -/
def checkLogLevel (s : Surroundings) (level : String) : Except Error Unit :=
  match (valueOf? s "RUST_LOG").map LogFilter.check with
  | some (.ok ()) => .ok ()
  | _ => (LogFilter.check level).mapError fun fault =>
      .invalidArgument (.badLogLevel level fault.message)

def usageCode : CommandLine.Fault → Nat
  | .helpWanted | .versionWanted => 0
  | _ => 2

def configPath? (words : List String) : Option Path :=
  match Invocation.ofWords words with
  | .ok ⟨_, _, some (.server _ _ config _)⟩ => config
  | _ => none

def prepare (s : Surroundings) : Service → Except Error Serving
  | .echo host port => .ok (.echo ⟨host, port⟩)
  | .server host port config overrides => do
    let home := homeDirectory (valueOf? s "MONOFLEET_HOME") s.userHome
    return .fleet ⟨host, port⟩ (← loadConfig home (config.map s.read) overrides)

/-- What the program does with its command line, the first word of which names it. -/
def run (s : Surroundings) (words : List String) : ProgramCourse :=
  match Invocation.ofWords words with
  | .error fault => .ends (usageCode fault) none
  | .ok invocation =>
    match checkLogLevel s invocation.logLevel with
    | .error e => .ends 1 (some ("Error: " ++ e.report ++ "\n"))
    | .ok () =>
      match invocation.service.map (prepare s) with
      | none => .ends 0 none
      | some (.error e) => .ends 1 (some (complaint s e))
      | some (.ok serving) => .serves serving

end Program

end MachineFleet
