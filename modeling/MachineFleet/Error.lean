import MachineFleet.Data.Base64
import MachineFleet.Data.SystemCall
import MachineFleet.Duration
import MachineFleet.Files.Failure

namespace MachineFleet

inductive Misuse where
  | zeroPeriod
  | tickerRunning
  | tickerStopped
  | emptyMachineId
  | controllerExited (id : String)
  | rootRefused (path : String)
  | cacheNotDirectory (path : String)
  | machineAlreadyStarted
  | machineNeverStarted
  | badLogLevel (level : String) (reason : String)
  | other (text : String)
  deriving Repr, DecidableEq

inductive ConfigFault where
  | notPositive (field : String)
  | subnetTooSmall (subnet : String)
  | jailBaseOutside (base : String)
  | jailWithoutName
  | other (text : String)
  deriving Repr, DecidableEq

inductive Error where
  | io (failure : Files.Failure)
  /-- Any error at all; the contexts that were put around it, the innermost first. -/
  | custom (text : String) (contexts : List String)
  | httpRequest
  | json
  | yaml
  | base64 (failure : Base64.Failure)
  | systemCall (number : Int)
  | invalidArgument (misuse : Misuse)
  | alreadyExists (id : String)
  | noReadyBackend
  | startTimeout (limit : Duration)
  | machineStart (reason : String)
  | machineExit (status : String)
  | controllerUnavailable
  | shutdownTimeout (id : String) (limit : Duration)
  | invalidConfig (fault : ConfigFault)
  | invalidUrl (text : String)
  | addressesExhausted (subnet : String)
  | invalidMethod (method : String)
  deriving Repr, DecidableEq

def Misuse.message : Misuse → String
  | zeroPeriod => "ticker period must be greater than zero"
  | tickerRunning => "ticker is already running"
  | tickerStopped => "ticker has been stopped and cannot be restarted"
  | emptyMachineId => "machine id must not be empty"
  | controllerExited id => "controller of machine " ++ id ++ " has already exited"
  | rootRefused path => "refusing to remove isolated root " ++ path
  | cacheNotDirectory path => "network cache " ++ path ++ " is not a directory"
  | machineAlreadyStarted => "machine has already been started"
  | machineNeverStarted => "machine was never started"
  | badLogLevel level reason => "invalid log level " ++ level ++ ": " ++ reason
  | other text => text

def ConfigFault.message : ConfigFault → String
  | notPositive field => field ++ " must be greater than zero"
  | subnetTooSmall subnet => "machine.network.subnet " ++ subnet ++ " is too small"
  | jailBaseOutside base => "machine.jailer.chroot_base_dir must be below /srv/, got " ++ base
  | jailWithoutName => "machine.jailer.exec_file must name a file"
  | other text => text

namespace Error

/-- The text of an error; what a parser or the network says is not part of it. -/
def message : Error → String
  | io failure => "io error: " ++ failure.message
  | custom text contexts => contexts.getLast?.getD text
  | httpRequest => "http request error"
  | json => "json error"
  | yaml => "yaml error"
  | base64 failure => "base64 decode error: " ++ failure.message
  | systemCall number => "system error: " ++ SystemCall.failureText number
  | invalidArgument misuse => "invalid argument: " ++ misuse.message
  | alreadyExists id => "machine already exists: " ++ id
  | noReadyBackend => "no ready machine found"
  | startTimeout limit => "machine did not start within " ++ limit.text
  | machineStart reason => "machine start failed: " ++ reason
  | machineExit status => "machine exited with failure: " ++ status
  | controllerUnavailable => "machine controller unavailable"
  | shutdownTimeout id limit => "machine " ++ id ++ " did not stop within " ++ limit.text
  | invalidConfig fault => "invalid configuration: " ++ fault.message
  | invalidUrl text => "invalid url: " ++ text
  | addressesExhausted subnet => "no free address left in subnet " ++ subnet
  | invalidMethod method => "invalid http method: " ++ method

def cause? : Error → Option String
  | io failure => some failure.message
  | base64 failure => some failure.message
  | systemCall number => some (SystemCall.failureText number)
  | _ => none

def indent (text : String) : String :=
  String.ofList (text.toList.flatMap fun c => if c = '\n' then "\n    ".toList else [c])

def report (e : Error) : String :=
  match e.cause? with
  | some cause => e.message ++ "\n\nCaused by:\n    " ++ indent cause
  | none => e.message

end Error

end MachineFleet
