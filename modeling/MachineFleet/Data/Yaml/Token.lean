namespace MachineFleet.Yaml

inductive ScalarStyle where
  | plain
  | quoted
  | literal
  | folded
  deriving DecidableEq, Repr

/-- A tag as written. Without a handle the suffix is the whole tag. -/
structure TagName where
  handle : String
  suffix : String
  deriving DecidableEq, Repr

inductive Token where
  | version (major minor : Nat)
  | tagHandle (handle expansion : String)
  | documentStart
  | documentEnd
  | blockListStart
  | blockTableStart
  | blockEnd
  | listStart
  | listEnd
  | tableStart
  | tableEnd
  | blockEntry
  | separator
  | key
  | value
  | alias (name : String)
  | anchor (name : String)
  | tag (name : TagName)
  | scalar (style : ScalarStyle) (text : String)
  deriving DecidableEq, Repr

end MachineFleet.Yaml
