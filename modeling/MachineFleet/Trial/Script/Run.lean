import MachineFleet.Data.Utf8
import MachineFleet.Machine.ExitStatus
import MachineFleet.Trial.Script.Arithmetic
import MachineFleet.Trial.Script.Syntax

/-!
Running scripts in simulated time. Only sleeping takes time. Signals come at given times; one that
comes while a script sleeps ends it, unless the script ignores the signal or has said what is to be
done about it, which is then done after the sleep.
-/
namespace MachineFleet.Trial.Script

abbrev Moment := Nat

inductive Stop where
  | exit (code : Nat)
  | killed (signal : Nat)
  | endless
  | leaveLoop
  | nextRound
  deriving DecidableEq, Repr

inductive Sink where
  | output
  | errors
  | nowhere
  | buffer
  deriving DecidableEq, Repr

structure State where
  environment : List (String × String)
  args : List String
  directory : String
  status : Nat
  /-- What is to be done about signals, by their numbers; zero stands for the end of the script. -/
  traps : List (Nat × String)
  clock : Moment
  coming : List (Moment × Nat)
  written : List (Moment × Bool × List UInt8)
  buffered : List UInt8
  output : Sink
  errors : Sink
  input : List UInt8

abbrev Run := ExceptT Stop (StateM State)

def horizon : Moment := 20 * 1000000

def ownProcess : String := "4242"

def emitTo (sink : Sink) (bytes : List UInt8) : Run Unit :=
  modify fun s =>
    match sink with
    | .output => { s with written := (s.clock, false, bytes) :: s.written }
    | .errors => { s with written := (s.clock, true, bytes) :: s.written }
    | .nowhere => s
    | .buffer => { s with buffered := s.buffered ++ bytes }

def emit (text : String) : Run Unit := do
  emitTo (← get).output (Utf8.ofString text)

def complain (text : String) : Run Unit := do
  emitTo (← get).errors (Utf8.ofString ("sh: 1: " ++ text ++ "\n"))

def redirected (s : State) : Redirection → State
  | .copy 1 2 => { s with output := s.errors }
  | .copy 2 1 => { s with errors := s.output }
  | .copy .. => s
  | .file 2 _ => { s with errors := .nowhere }
  | .file .. => { s with output := .nowhere }
  | .input _ => { s with input := [] }

def isHarmless (signal : Nat) : Bool := [17, 18, 23, 28].contains signal

def trap? (s : State) (signal : Nat) : Option String :=
  if signal = 9 then none else (s.traps.find? (·.1 == signal)).map (·.2)

def receive (signal : Nat) : Run (List String) := do
  match trap? (← get) signal with
  | some "" => return []
  | some action => return [action]
  | none => if isHarmless signal then return [] else throw (.killed signal)

def pause (duration : Moment) : Run (List String) := do
  let s ← get
  let stop := s.clock + duration
  let due := s.coming.filter (·.1 < stop)
  let actions ← due.mapM fun (time, signal) => do
    modify fun s => { s with clock := max s.clock time }
    receive signal
  set { (← get) with clock := stop, coming := s.coming.filter (stop ≤ ·.1) }
  if horizon < stop then throw .endless
  return actions.flatten

def signalOf? (name : String) : Option Nat :=
  match name.toNat? with
  | some n => some n
  | none =>
    if name == "EXIT" then some 0
    else if name.startsWith "SIG" then ExitStatus.signalNumber? (name.drop 3).toString
    else ExitStatus.signalNumber? name

/-- The value of a parameter. After a colon and a dash stands what an empty one is replaced by. -/
def parameter (s : State) (text : String) : String :=
  let (name, instead) := match text.splitOn ":-" with
    | [name, instead] => (name, instead)
    | _ => (text, "")
  let value := match name with
    | "$" => ownProcess
    | "?" => toString s.status
    | "#" => toString (s.args.length - 1)
    | "@" | "*" => " ".intercalate (s.args.drop 1)
    | _ =>
      match name.toNat? with
      | some n => (s.args[n]?).getD ""
      | none => ((s.environment.find? (·.1 == name)).map (·.2)).getD ""
  if value.isEmpty then instead else value

def assign (name value : String) (s : State) : State :=
  { s with environment := (name, value) :: s.environment.filter (·.1 != name) }

def writeOut (s : State) : (fuel : Nat) → List Char → List Char
  | fuel + 1, '$' :: rest =>
    match expansion? true rest with
    | some (.value name _, rest) => (parameter s name).toList ++ writeOut s fuel rest
    | _ => '$' :: writeOut s fuel rest
  | fuel + 1, c :: rest => c :: writeOut s fuel rest
  | _, _ => []

def integer (text : String) : Int := (text.trimAscii.toString.toInt?).getD 0

def arithmetic (s : State) (expression : List Char) : Int :=
  (Arithmetic.eval? (fun name => integer (parameter s name))
    (writeOut s expression.length expression)).getD 0

structure FieldList where
  complete : List String
  begun : Option String

namespace FieldList

def add (text : String) (f : FieldList) : FieldList :=
  { f with begun := some (f.begun.getD "" ++ text) }

def close (f : FieldList) : FieldList :=
  ⟨f.begun.toList ++ f.complete, none⟩

def addCut (f : FieldList) : List Char → FieldList
  | [] => f
  | c :: rest =>
    if isBlank c || c == '\n' then addCut f.close rest
    else addCut (f.add (String.singleton c)) rest

def addEach (f : FieldList) : List String → FieldList
  | [] => f
  | [text] => f.add text
  | text :: rest => addEach (f.add text).close rest

def toList (f : FieldList) : List String := f.close.complete.reverse

end FieldList

def escaped : Char → List Char
  | 'n' => ['\n']
  | 't' => ['\t']
  | 'r' => ['\r']
  | 'a' => ['\x07']
  | 'b' => ['\x08']
  | 'f' => ['\x0c']
  | 'v' => ['\x0b']
  | '\\' => ['\\']
  | c => ['\\', c]

def unescape : List Char → List Char
  | '\\' :: c :: rest => escaped c ++ unescape rest
  | c :: rest => c :: unescape rest
  | [] => []

def fillFormat : List Char → List String → List Char × List String
  | '%' :: '%' :: rest, args => (fillFormat rest args).map ('%' :: ·) id
  | '%' :: 's' :: rest, args =>
    (fillFormat rest args.tail).map ((args.headD "").toList ++ ·) id
  | '%' :: 'd' :: rest, args =>
    (fillFormat rest args.tail).map ((toString (integer (args.headD "0"))).toList ++ ·) id
  | '\\' :: c :: rest, args => (fillFormat rest args).map (escaped c ++ ·) id
  | c :: rest, args => (fillFormat rest args).map (c :: ·) id
  | [], args => ([], args)

def format (text : List Char) : (times : Nat) → List String → List Char
  | 0, _ => []
  | times + 1, args =>
    let (filled, left) := fillFormat text args
    if left.isEmpty || left.length = args.length then filled
    else filled ++ format text times left

def holds? : List String → Option Bool
  | [] => some false
  | [a] => some (a != "")
  | "!" :: rest => (holds? rest).map (!·)
  | ["-n", a] => some (a != "")
  | ["-z", a] => some (a == "")
  | [a, "=", b] => some (a == b)
  | [a, "!=", b] => some (a != b)
  | [a, operator, b] => do
    let x ← a.toInt?
    let y ← b.toInt?
    match operator with
    | "-eq" => some (x == y)
    | "-ne" => some (x != y)
    | "-lt" => some (x < y)
    | "-le" => some (x ≤ y)
    | "-gt" => some (y < x)
    | "-ge" => some (y ≤ x)
    | _ => none
  | _ => none

def moment (text : String) : Moment :=
  let cs := text.toList
  let whole := cs.takeWhile Char.isDigit
  let fraction := ((cs.drop (whole.length + 1)).takeWhile Char.isDigit).take 6
  let digits := whole ++ fraction ++ List.replicate (6 - fraction.length) '0'
  ((String.ofList digits).toNat?).getD 0

def testStatus (args : List String) : Nat :=
  match holds? args with
  | some true => 0
  | some false => 1
  | none => 2

def programs : List String :=
  ["sh", "true", "false", "echo", "printf", "sleep", "cat", "pwd", "kill", "test"]

def killTarget? : List String → Option (Nat × List String)
  | "-s" :: name :: rest => (signalOf? name).map (·, rest)
  | word :: rest =>
    if word.startsWith "-" then (signalOf? (word.drop 1).toString).map (·, rest)
    else some (15, word :: rest)
  | [] => none

mutual

def expand : (fuel : Nat) → Word → FieldList → Run FieldList
  | 0, _, _ => throw .endless
  | _, [], f => return f
  | fuel + 1, piece :: rest, f => do
    match piece with
    | .text cs => expand fuel rest (f.add (String.ofList cs))
    | .value "@" true => expand fuel rest (f.addEach ((← get).args.drop 1))
    | .value name true => expand fuel rest (f.add (parameter (← get) name))
    | .value name false => expand fuel rest (f.addCut (parameter (← get) name).toList)
    | .number expression =>
      expand fuel rest (f.add (toString (arithmetic (← get) expression)))
    | .printed script quoted =>
      let text ← capture fuel (parse script)
      expand fuel rest (if quoted then f.add (String.ofList text) else f.addCut text)

def capture : (fuel : Nat) → Command → Run (List Char)
  | 0, _ => throw .endless
  | fuel + 1, c => do
    let before ← get
    set { before with output := .buffer, buffered := [] }
    try eval fuel c
    catch
      | .exit code => modify fun s => { s with status := code }
      | stop => throw stop
    let after ← get
    set { before with
      status := after.status
      clock := after.clock
      coming := after.coming
      written := after.written }
    return (((Utf8.decodeLossy after.buffered).reverse.dropWhile (· == '\n')).reverse)

def expandAll : (fuel : Nat) → List Word → Run (List String)
  | 0, _ => throw .endless
  | _, [] => return []
  | fuel + 1, word :: rest => do
    let fields := (← expand fuel word ⟨[], none⟩).toList
    return fields ++ (← expandAll fuel rest)

def perform : (fuel : Nat) → List String → Run Unit
  | 0, _ => throw .endless
  | _, [] => return
  | fuel + 1, action :: rest => do
    eval fuel (parse action.toList)
    perform fuel rest

def runProgram : (fuel : Nat) → (name : String) → (args : List String) → Run Nat
  | 0, _, _ => throw .endless
  | fuel + 1, name, args => do
    match name, args with
    | ":", _ | "true", _ | "wait", _ | "set", _ | "unset", _ => return 0
    | "false", _ => return 1
    | "exit", _ => throw (.exit (((args.head?.bind String.toNat?).getD (← get).status) % 256))
    | "echo", "-n" :: rest =>
      emit (String.ofList (unescape (" ".intercalate rest).toList))
      return 0
    | "echo", _ =>
      emit (String.ofList (unescape (" ".intercalate args).toList ++ ['\n']))
      return 0
    | "printf", f :: rest =>
      emit (String.ofList (format f.toList (rest.length + 1) rest))
      return 0
    | "pwd", _ =>
      emit ((← get).directory ++ "\n")
      return 0
    | "cd", path :: _ =>
      modify fun s => { s with directory := path }
      return 0
    | "sleep", time :: _ =>
      perform fuel (← pause (moment time))
      return 0
    | "cat", _ =>
      let s ← get
      emitTo s.output s.input
      modify fun s => { s with input := [] }
      return 0
    | "seq", [last] =>
      for n in List.range (integer last).toNat do emit (toString (n + 1) ++ "\n")
      return 0
    | "read", _ => return 1
    | "test", _ => return testStatus args
    | "[", _ => return testStatus args.dropLast
    | "export", _ =>
      for a in args do
        let name := a.toList.takeWhile (· != '=')
        if name.length < a.length then
          modify (assign (String.ofList name) (String.ofList (a.toList.drop (name.length + 1))))
      return 0
    | "shift", _ =>
      modify fun s => { s with args := s.args.take 1 ++ s.args.drop 2 }
      return 0
    | "break", _ => throw .leaveLoop
    | "continue", _ => throw .nextRound
    | "trap", action :: names =>
      let signals := names.filterMap signalOf?
      modify fun s =>
        let kept := s.traps.filter fun t => !signals.contains t.1
        if action == "-" then { s with traps := kept }
        else { s with traps := kept ++ signals.map (·, action) }
      return 0
    | "kill", _ =>
      match killTarget? args with
      | some (signal, targets) =>
        if targets.contains ownProcess && signal != 0 then perform fuel (← receive signal)
        return 0
      | none => return 2
    | "exec", program :: rest =>
      modify fun s => { s with traps := s.traps.filter (·.2 == "") }
      throw (.exit (← runProgram fuel program rest))
    | "exec", [] => return 0
    | "sh", "-c" :: script :: rest =>
      let before ← get
      set { before with args := if rest.isEmpty then ["sh"] else rest }
      let status ← runScript fuel (parse script.toList)
      modify fun s => { s with args := before.args }
      return status
    | "sh", _ => return 0
    | _, _ =>
      complain (name ++ ": not found")
      return 127

def runScript : (fuel : Nat) → Command → Run Nat
  | 0, _ => throw .endless
  | fuel + 1, c => do
    let code ← try
        eval fuel c
        pure (← get).status
      catch
        | .exit code => pure code
        | stop => throw stop
    match trap? (← get) 0 with
    | some action =>
      modify fun s => { s with traps := s.traps.filter (·.1 != 0), status := code }
      try
        eval fuel (parse action.toList)
        return code
      catch
        | .exit code => return code
        | stop => throw stop
    | none => return code

def eval : (fuel : Nat) → Command → Run Unit
  | 0, _ => throw .endless
  | fuel + 1, c => do
    match c with
    | .pass => return
    | .simple assignments words redirections =>
      let fields ← expandAll fuel words
      let before ← get
      for (name, value) in assignments do
        let text := " ".intercalate (← expand fuel value ⟨[], none⟩).toList
        modify (assign name text)
      match fields with
      | [] => modify fun s => { s with status := 0 }
      | name :: args =>
        modify fun s => redirections.foldl redirected s
        let status ← runProgram fuel name args
        modify fun s => { s with status }
        if !(name == "exec" && args.isEmpty) then
          modify fun s => { s with output := before.output, errors := before.errors }
    | .sequence first second =>
      eval fuel first
      eval fuel second
    | .both first second =>
      eval fuel first
      if (← get).status = 0 then eval fuel second
    | .either first second =>
      eval fuel first
      if (← get).status != 0 then eval fuel second
    | .negation c =>
      eval fuel c
      modify fun s => { s with status := if s.status = 0 then 1 else 0 }
    | .pipe first second =>
      let text ← capture fuel first
      modify fun s => { s with input := Utf8.encode text ++ (if text.isEmpty then [] else [10]) }
      eval fuel second
    | .inside c =>
      let before ← get
      let code ← runScript fuel c
      modify fun s => { before with
        status := code
        clock := s.clock
        coming := s.coming
        written := s.written
        buffered := s.buffered }
    | .choice condition yes no =>
      eval fuel condition
      if (← get).status = 0 then eval fuel yes
      else
        modify fun s => { s with status := 0 }
        eval fuel no
    | .loop isWhile condition body =>
      eval fuel condition
      if ((← get).status = 0) = isWhile then
        let again ← evalBody fuel body
        if again then eval fuel (.loop isWhile condition body)
      else modify fun s => { s with status := 0 }
    | .each name words body => evalEach fuel name (← expandAll fuel words) body

def evalBody : (fuel : Nat) → Command → Run Bool
  | 0, _ => throw .endless
  | fuel + 1, body => do
    try
      eval fuel body
      return true
    catch
      | .leaveLoop => return false
      | .nextRound => return true
      | stop => throw stop

def evalEach : (fuel : Nat) → (name : String) → (values : List String) → Command → Run Unit
  | 0, _, _, _ => throw .endless
  | _, _, [], _ => return
  | fuel + 1, name, value :: rest, body => do
    modify (assign name value)
    if ← evalBody fuel body then evalEach fuel name rest body

end

structure Course where
  written : List (Moment × Bool × List UInt8)
  ending : Option (Moment × ExitStatus)

def stepLimit : Nat := 20000

def course (program : String) (args : List String) (environment : List (String × String))
    (directory : String) (signals : List (Moment × Nat)) : Course :=
  let start : State :=
    ⟨environment, [program], directory, 0, [], 0, signals, [], [], .output, .errors, []⟩
  let (result, s) := (runProgram stepLimit program args).run.run start
  let ending := match result with
    | .ok code => some (s.clock, .code code)
    | .error (.exit code) => some (s.clock, .code code)
    | .error (.killed signal) => some (s.clock, .signal signal false)
    | .error _ =>
      (signals.find? fun (_, n) => (trap? s n).isNone && !isHarmless n).map fun (time, n) =>
        (time, .signal n false)
  ⟨s.written.reverse, ending⟩

end MachineFleet.Trial.Script
