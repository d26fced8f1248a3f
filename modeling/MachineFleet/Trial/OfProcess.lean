import MachineFleet.Machine.ProcessDriver
import MachineFleet.Trial.Script.Run

/-!
A trial of machines that run as processes. Launched processes run scripts in simulated time, which
passes only while somebody waits for them.
-/
namespace MachineFleet.Trial

open Script (Moment Course)

structure Job where
  started : ProcessDriver.Started
  since : Moment
  signals : List (Moment × Nat)
  logged : Nat

structure ProcessSlot where
  driver : ProcessDriver
  job : Option Job

structure ProcessTrial where
  config : MachineConfig
  premises : Premises
  slots : List ProcessSlot
  now : Moment
  identities : Nat

namespace Job

def course (j : Job) : Course :=
  Script.course (launchName j.started.launch.program) j.started.launch.args
    j.started.launch.environment.entries
    (j.started.launch.directory.getD "/") j.signals
where
  launchName (program : Path) : String := program.fileName?.getD program

/-- The lines that are complete after some pieces were written. What `output` and `errors` hold is
the begin of a line of each stream. -/
def completeLines (output errors : List UInt8) :
    List (Moment × Bool × List UInt8) → List (List UInt8) × List (List UInt8)
  | [] => ([], [output, errors].filter (!·.isEmpty))
  | (_, isError, bytes) :: rest =>
    let all := MachineLog.lines ((if isError then errors else output) ++ bytes)
    let whole := all.filter (·.getLast? == some MachineLog.newline)
    let left := (all.drop whole.length).flatten
    let (more, partials) :=
      if isError then completeLines output left rest else completeLines left errors rest
    (whole ++ more, partials)

/-- The lines written by a time since the launch; those that are not complete count once the process
has ended. -/
def linesAt (c : Course) (time : Moment) : List (List UInt8) :=
  let (whole, partials) := completeLines [] [] (c.written.filter (·.1 ≤ time))
  if c.ending.any (·.1 ≤ time) then whole ++ partials else whole

end Job

namespace ProcessTrial

def new (config : MachineConfig) (files : Files.Tree) : ProcessTrial :=
  ⟨config, ⟨.new config.network.subnet, files⟩, [], 0, 0⟩

def identity (n : Nat) : String :=
  let digits := toString n
  "00000000-0000-4000-8000-" ++ String.ofList (List.replicate (12 - digits.length) '0') ++ digits

def withDrivers : (count : Nat) → ProcessTrial → ProcessTrial
  | 0, t => t
  | count + 1, t =>
    let t := withDrivers count t
    if t.slots.length ≤ count then
      { t with
        slots := t.slots ++ [⟨.new t.config (identity t.identities), none⟩]
        identities := t.identities + 1 }
    else t

def slot? (t : ProcessTrial) (i : Nat) : Option ProcessSlot := t.slots[i]?

def setSlot (t : ProcessTrial) (i : Nat) (s : ProcessSlot) : ProcessTrial :=
  { t with slots := t.slots.set i s }

def settleSlot (t : ProcessTrial) (i : Nat) : ProcessTrial :=
  match t.slot? i with
  | some ⟨driver, some job⟩ =>
    let course := job.course
    let age := t.now - job.since
    let lines := Job.linesAt course age
    let files := match job.started.log with
      | some log => (log.writeAll t.premises.files (lines.drop job.logged)).2
      | none => t.premises.files
    let driver := match course.ending with
      | some (time, status) =>
        if time ≤ age then (driver.recordExit (.ofStatus status)).1 else driver
      | none => driver
    { t with premises.files := files }.setSlot i
      ⟨driver, some { job with logged := lines.length }⟩
  | _ => t

def settle (t : ProcessTrial) : ProcessTrial :=
  (List.range t.slots.length).foldl settleSlot t

def waitUntil (t : ProcessTrial) (time : Moment) : ProcessTrial :=
  { t with now := max t.now time }.settle

def refuses (files : Files.Tree) (l : Launch) : Option Files.Failure :=
  let texts := l.program :: l.args ++ l.environment.entries.flatMap fun (k, v) => [k, v]
  if texts.any (·.toList.contains '\x00') then some (.other "nul byte found in provided data")
  else if Script.programs.contains l.program ||
      ["/bin/", "/usr/bin/"].any fun d => Script.programs.any fun p => d ++ p == l.program then
    none
  else if !l.program.toList.contains '/' then some .notFound
  else match files.find l.program with
    | .ok _ => some .permissionDenied
    | .error e => some e

def start (i : Nat) (t : ProcessTrial) : ProcessTrial × Except Error Metadata :=
  match t.slot? i with
  | none => (t, .error .controllerUnavailable)
  | some s =>
    let (driver, premises, result) :=
      s.driver.start t.config refuses (identity t.identities) t.premises
    let t := { t with premises, identities := t.identities + 1 }
    match result with
    | .error e => (t.setSlot i { s with driver }, .error e)
    | .ok started =>
      ((t.setSlot i ⟨driver, some ⟨started, t.now, [], 0⟩⟩).settle, .ok started.machine)

def send (i : Nat) (signal : Nat) (t : ProcessTrial) : ProcessTrial :=
  match t.slot? i with
  | some ⟨driver, some job⟩ =>
    t.setSlot i
      ⟨driver, some { job with signals := job.signals ++ [(t.now - job.since, signal)] }⟩
  | _ => t

def applyEffect (i : Nat) (t : ProcessTrial) : ProcessDriver.Effect → ProcessTrial
  | .terminate => t.send i 15
  | .kill => t.send i 9
  | .answer .. => t

def awaitExit (i : Nat) (c : ExitCall) (t : ProcessTrial) :
    ProcessTrial × Option (Except Error Unit) :=
  match t.slot? i with
  | some ⟨_, some job⟩ =>
    match job.course.ending with
    | some (time, status) =>
      (t.waitUntil (job.since + time), some (c.result (.ofStatus status)))
    | none => (t, none)
  | _ => (t, none)

def call (i : Nat) (c : ExitCall) (t : ProcessTrial) :
    ProcessTrial × Option (Except Error Unit) :=
  match t.slot? i with
  | none => (t, none)
  | some s =>
    let (driver, effects) := s.driver.call 0 c
    let t := effects.foldl (applyEffect i) (t.setSlot i { s with driver })
    match effects with
    | [.answer _ result] => (t, some result)
    | _ => t.awaitExit i c

def idOf (i : Nat) (t : ProcessTrial) : String :=
  (((t.slot? i).bind (·.job)).map (·.started.machine.id)).getD "m1"

def release (i : Nat) (t : ProcessTrial) : ProcessTrial × Except Error Unit :=
  match t.slot? i with
  | none => (t, .ok ())
  | some s =>
    let (premises, result) := s.driver.release t.config (t.idOf i) t.premises
    ({ t with premises }, result)

def makeCache (i : Nat) (asFile : Bool) (t : ProcessTrial) : ProcessTrial :=
  let files := t.premises.files
  let path := ProcessDriver.cachePath t.config (t.idOf i)
  let made :=
    if asFile then do
      let files ← files.makeDirectory t.config.network.cacheDir
      return (← files.openFile path).2
    else files.makeDirectory (Path.join path "results")
  match made with
  | .ok files => { t with premises.files := files }
  | .error _ => t

def logPath? (i : Nat) (t : ProcessTrial) : Option Path :=
  ((t.slot? i).bind (·.job)).map fun job =>
    ProcessDriver.logPath t.config job.started.machine.id

def hasPart (part : List UInt8) : List UInt8 → Bool
  | [] => part.isEmpty
  | b :: rest => part.isPrefixOf (b :: rest) || hasPart part rest

def awaitLog (i : Nat) (text : List UInt8) (t : ProcessTrial) : ProcessTrial × Bool :=
  match t.slot? i with
  | some ⟨_, some job⟩ =>
    let course := job.course
    let times := course.written.map (·.1) ++ course.ending.toList.map (·.1)
    match times.find? fun time => hasPart text (Job.linesAt course time).flatten with
    | some time => (t.waitUntil (job.since + time), true)
    | none => (t, false)
  | _ => (t, false)

end ProcessTrial

end MachineFleet.Trial
