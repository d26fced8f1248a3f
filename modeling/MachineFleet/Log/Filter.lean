namespace MachineFleet.LogFilter

inductive Fault where
  | malformed
  | noLevel
  deriving DecidableEq, Repr

def Fault.message : Fault → String
  | malformed => "invalid filter directive"
  | noLevel => "error parsing level filter: expected one of \"off\", \"error\", \"warn\", " ++
      "\"info\", \"debug\", \"trace\", or a number 0-5"

/-- Whether a text is a level: nothing, a name in any case, or a number up to five. -/
def isLevel (text : List Char) : Bool :=
  let lower := String.ofList (text.map Char.toLower)
  let digits := match text with
    | '+' :: rest => rest
    | rest => rest
  ["", "off", "error", "warn", "info", "debug", "trace"].contains lower ||
    (!digits.isEmpty && digits.all Char.isDigit && (String.ofList digits).toNat?.any (· ≤ 5))

inductive Position where
  | start
  | name
  | span
  | field (isEmpty : Bool)
  | fields
  | afterSpan
  | level (begin : Nat)
  deriving DecidableEq, Repr

def beginsName (c : Char) : Bool :=
  c == '-' || c == ':' || c == '_' || c.isAlphanum || 128 ≤ c.toNat

def next? (index : Nat) (c : Char) : Position → Option Position
  | .start => if c == '[' then some .span else if beginsName c then some .name else none
  | .name =>
    some (if c == '=' then .level (index + 1) else if c == '[' then .span else .name)
  | .span => some (if c == ']' then .afterSpan else if c == '\x7b' then .field true else .span)
  | .field isEmpty =>
    if c == '\x7d' then if isEmpty then none else some .fields else some (.field false)
  | .fields => if c == ']' then some .afterSpan else none
  | .afterSpan => if c == '=' then some (.level (index + 1)) else none
  | .level begin => some (.level begin)

def scan? (index : Nat) (p : Position) : List Char → Option Position
  | [] => some p
  | c :: rest => (next? index c p).bind fun p => scan? (index + 1) p rest

/-- Looks at one directive. Blanks around it are passed over, except that the level is cut out of
the text with its blanks, as many characters from its beginning as stand before the level without
them. -/
def checkDirective (directive : String) : Except Fault Unit :=
  match scan? 0 .start directive.trimAscii.toString.toList with
  | some .name | some .afterSpan => .ok ()
  | some (.level begin) =>
    if isLevel (directive.toList.drop begin) then .ok () else .error .noLevel
  | _ => .error .malformed

def check (filter : String) : Except Fault Unit :=
  ((filter.splitOn ",").filter (!·.isEmpty)).forM checkDirective

end MachineFleet.LogFilter
