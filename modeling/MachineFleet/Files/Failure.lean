namespace MachineFleet.Files

inductive Failure where
  | notFound
  | permissionDenied
  | alreadyExists
  | notADirectory
  | isADirectory
  | invalidArgument
  | busy
  | notUtf8
  | other (text : String)
  deriving Repr, DecidableEq, Inhabited

def Failure.message : Failure → String
  | notFound => "No such file or directory (os error 2)"
  | permissionDenied => "Permission denied (os error 13)"
  | alreadyExists => "File exists (os error 17)"
  | notADirectory => "Not a directory (os error 20)"
  | isADirectory => "Is a directory (os error 21)"
  | invalidArgument => "Invalid argument (os error 22)"
  | busy => "Device or resource busy (os error 16)"
  | notUtf8 => "stream did not contain valid UTF-8"
  | other text => text

end MachineFleet.Files
