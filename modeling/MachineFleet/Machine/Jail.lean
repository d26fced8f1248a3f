import MachineFleet.Config
import MachineFleet.Files.Tree

namespace MachineFleet

/-- The root of the jail with this identity, if the jailer's executable has a name. -/
def JailerConfig.root? (c : JailerConfig) (jail : String) : Option Path :=
  c.execFile.fileName?.map fun name => Path.join (Path.join c.baseDir name) jail

/-- Whether a path is too dangerous to remove: it is relative, has a component `..`, or names the
root of the file system. -/
def Path.isRefusedAsRoot (root : Path) : Bool :=
  !root.isAbsolute || root.hasNoParent || root.components.contains .parent

/-- Removes the root of a machine with all that is in it. One that is gone already is as good. -/
def removeIsolatedRoot (t : Files.Tree) (root : Path) : Files.Tree × Except Error Unit :=
  if root.isRefusedAsRoot then (t, .error (.invalidArgument (.rootRefused root)))
  else
    match t.removeDirectory root with
    | (t, .error .notFound) => (t, .ok ())
    | (t, .error e) => (t, .error (.io e))
    | (t, .ok ()) => (t, .ok ())

end MachineFleet
