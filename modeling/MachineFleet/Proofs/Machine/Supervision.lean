import MachineFleet.Proofs.Machine.FailedLaunch
import MachineFleet.Proofs.Run

/-!
A driver, its callers and the task that supervises its process. The task waits for the process and,
at the same time, for the one request to kill it; when the process has ended it records how, and
whoever waits for that is told. However the calls come and however the process ends, all that wait
are told the same, and the process is killed once at most.

A call does all that it does at once and waits after that, so a call is one step; what comes between
its parts might as well have come before or after it. Calls may come while the machine is being
started. A start is made when no other one is under way.
-/
namespace MachineFleet

def MachineExit.ofReaped : Except String ExitStatus → MachineExit
  | .ok status => .ofStatus status
  | .error reason => .failure reason

inductive KillLine where
  | silent
  | asked
  | heard
  /-- The driver gave the line up without having used it. The task just waits for the process then. -/
  | hungUp
  deriving DecidableEq, Repr

def KillLine.requests : KillLine → Nat
  | .asked | .heard => 1
  | .silent | .hungUp => 0

def KillLine.killings : KillLine → Nat
  | .heard => 1
  | .silent | .asked | .hungUp => 0

structure SupervisedDriver where
  driver : ProcessDriver
  premises : Premises
  starting : Option Ipv4
  calls : List ExitCall
  line : KillLine
  /-- How the process has ended, which the task does not know before it has waited for it. -/
  ended : Option (Except String ExitStatus)

namespace SupervisedDriver

def new (config : MachineConfig) (jail : String) (on : Premises) : SupervisedDriver where
  driver := .new config jail
  premises := on
  starting := none
  calls := []
  line := .silent
  ended := none

inductive Action where
  | beginStart
  | endStart (id : String) (refuses : Files.Tree → Launch → Option Files.Failure)
  | call (c : ExitCall)
  | refuse (n : Nat) (failure : Error)
  | hangUp
  | childEnds (how : Except String ExitStatus)
  | hearKill
  | recordExit
  | share (premises : Premises)

inductive Effect where
  | started (result : Except Error Metadata)
  | driver (effect : ProcessDriver.Effect)
  | killed

def Effect.isRequest : Effect → Bool
  | .driver .kill => true
  | _ => false

def Effect.isKilling : Effect → Bool
  | .killed => true
  | _ => false

def Effect.isStart : Effect → Bool
  | .started (.ok _) => true
  | _ => false

def Effect.answer? : Effect → Option (Nat × Except Error Unit)
  | .driver (.answer n result) => some (n, result)
  | _ => none

def isRecorded (s : SupervisedDriver) : Bool := (s.driver.process.bind (·.exit)).isSome

def isSupervised (s : SupervisedDriver) : Bool := s.driver.process.any (·.exit.isNone)

def waiting (s : SupervisedDriver) : List Nat :=
  (s.driver.process.map fun p => p.waiting.map (·.1)).getD []

def step (config : MachineConfig) (s : SupervisedDriver) :
    Action → Option (SupervisedDriver × List Effect)
  | .beginStart =>
    if s.starting.isSome then none
    else match s.driver.beginStart s.premises.pool with
      | .error e => some (s, [.started (.error e)])
      | .ok (address, pool) =>
        some ({ s with premises.pool := pool, starting := some address }, [])
  | .endStart id refuses => s.starting.map fun address =>
    let (driver, premises, result) := s.driver.endStart config refuses id address s.premises
    ({ s with driver, premises, starting := none }, [.started (result.map (·.machine))])
  | .call c =>
    let (driver, effects) := s.driver.call s.calls.length c
    let effects := effects.map Effect.driver
    some ({ s with
      driver, calls := s.calls ++ [c],
      line := if effects.any (·.isRequest) then .asked else s.line }, effects)
  | .refuse n failure =>
    if s.calls[n]? = some .shutdown then
      let (driver, effects) := s.driver.refuse n failure
      some ({ s with driver }, effects.map .driver)
    else none
  | .hangUp =>
    match s.line, s.driver.process with
    | .silent, some p => some ({ s with
        driver.process := some { p with killWanted := true }, line := .hungUp }, [])
    | _, _ => none
  | .childEnds how =>
    if s.driver.process.isSome && s.ended.isNone then some ({ s with ended := some how }, [])
    else none
  | .hearKill =>
    if s.line = .asked ∧ s.isSupervised then some ({ s with line := .heard }, [.killed])
    else none
  | .recordExit =>
    match s.ended with
    | some how =>
      if s.isSupervised then
        let (driver, effects) := s.driver.recordExit (.ofReaped how)
        some ({ s with driver }, effects.map .driver)
      else none
    | none => none
  | .share premises => some ({ s with premises }, [])

abbrev History := List (Happening SupervisedDriver Action Effect)

inductive Move (s : SupervisedDriver) : Action → SupervisedDriver → List Effect → Prop where
  | startRefused (e : Error) : Move s .beginStart s [.started (.error e)]
  | startBegun (address : Ipv4) (pool : AddressPool) (hp : s.driver.process = none) :
      Move s .beginStart { s with premises.pool := pool, starting := some address } []
  | startFailed (id : String) (refuses : Files.Tree → Launch → Option Files.Failure) (e : Error)
      (premises : Premises) (hs : s.starting.isSome = true) :
      Move s (.endStart id refuses) { s with premises, starting := none } [.started (.error e)]
  | started (id : String) (refuses : Files.Tree → Launch → Option Files.Failure)
      (address : Ipv4) (machine : Metadata) (premises : Premises)
      (hs : s.starting.isSome = true) :
      Move s (.endStart id refuses)
        { s with
          driver.process := some ⟨address, false, none, []⟩, premises, starting := none }
        [.started (.ok machine)]
  | calledUnstarted (c : ExitCall) (hp : s.driver.process = none) :
      Move s (.call c) { s with calls := s.calls ++ [c] }
        [.driver (.answer s.calls.length (.error (.invalidArgument .machineNeverStarted)))]
  | calledLate (c : ExitCall) (p : Process) (exit : MachineExit)
      (hp : s.driver.process = some p) (he : p.exit = some exit) :
      Move s (.call c)
        { s with
          driver.process := some { p with killWanted := p.killWanted || c == .kill }
          calls := s.calls ++ [c] }
        [.driver (.answer s.calls.length (c.result exit))]
  | calledToKill (p : Process) (hp : s.driver.process = some p) (he : p.exit = none)
      (hw : p.killWanted = false) :
      Move s (.call .kill)
        { s with
          driver.process := some { p with
            killWanted := true, waiting := p.waiting ++ [(s.calls.length, .kill)] }
          calls := s.calls ++ [.kill], line := .asked }
        [.driver .kill]
  | called (c : ExitCall) (p : Process) (effects : List Effect)
      (hp : s.driver.process = some p) (he : p.exit = none)
      (heffects : effects = [] ∨ effects = [.driver .terminate]) :
      Move s (.call c)
        { s with
          driver.process := some { p with
            killWanted := p.killWanted || c == .kill
            waiting := p.waiting ++ [(s.calls.length, c)] }
          calls := s.calls ++ [c] }
        effects
  | refused (n : Nat) (failure : Error) (p : Process) (hp : s.driver.process = some p)
      (hn : s.calls[n]? = some .shutdown) (hw : n ∈ p.waiting.map (·.1)) :
      Move s (.refuse n failure)
        { s with driver.process := some { p with waiting := p.waiting.filter (·.1 != n) } }
        [.driver (.answer n (.error failure))]
  | notRefused (n : Nat) (failure : Error) : Move s (.refuse n failure) s []
  | hungUp (p : Process) (hp : s.driver.process = some p) (hline : s.line = .silent) :
      Move s .hangUp
        { s with driver.process := some { p with killWanted := true }, line := .hungUp } []
  | childEnded (how : Except String ExitStatus) (p : Process) (hp : s.driver.process = some p)
      (he : s.ended = none) : Move s (.childEnds how) { s with ended := some how } []
  | killHeard (hline : s.line = .asked) : Move s .hearKill { s with line := .heard } [.killed]
  | recorded (p : Process) (how : Except String ExitStatus) (hp : s.driver.process = some p)
      (he : p.exit = none) (hended : s.ended = some how) :
      Move s .recordExit
        { s with driver.process := some { p with exit := some (.ofReaped how), waiting := [] } }
        (p.waiting.map fun (n, c) => .driver (.answer n (c.result (.ofReaped how))))
  | shared (premises : Premises) : Move s (.share premises) { s with premises } []

section Steps

variable {config : MachineConfig} {s s' : SupervisedDriver} {a : Action} {effects : List Effect}
  {p : Process}

theorem isSupervised_iff :
    s.isSupervised = true ↔ ∃ p, s.driver.process = some p ∧ p.exit = none := by
  simp [isSupervised, Option.any_eq_true]

theorem isRecorded_of_process (hp : s.driver.process = some p) :
    s.isRecorded = p.exit.isSome := by
  rw [isRecorded, hp, Option.bind_some]

theorem move_of_beginStart (h : step config s .beginStart = some (s', effects)) :
    Move s .beginStart s' effects := by
  simp only [step] at h
  split at h
  · cases h
  · split at h
    · cases h
      exact .startRefused _
    · rename_i address pool hbegin
      cases h
      unfold ProcessDriver.beginStart at hbegin
      split at hbegin
      · cases hbegin
      · rename_i hp
        exact .startBegun address pool (by simpa using hp)

theorem move_of_endStart {id : String} {refuses : Files.Tree → Launch → Option Files.Failure}
    (h : step config s (.endStart id refuses) = some (s', effects)) :
    Move s (.endStart id refuses) s' effects := by
  obtain ⟨address, hs, h⟩ := Option.map_eq_some_iff.1 h
  have hstarting : s.starting.isSome = true := by rw [hs]; rfl
  simp only [ProcessDriver.endStart] at h
  generalize s.driver.spawn config refuses id address s.premises.files = spawned at h
  obtain ⟨files, result⟩ := spawned
  cases result with
  | error e =>
    cases h
    exact .startFailed id refuses e _ hstarting
  | ok started =>
    cases h
    exact .started id refuses address started.machine _ hstarting

theorem move_of_call {c : ExitCall} (h : step config s (.call c) = some (s', effects)) :
    Move s (.call c) s' effects := by
  cases hp : s.driver.process with
  | none =>
    simp only [step, ProcessDriver.call, hp] at h
    cases h
    exact .calledUnstarted c hp
  | some p =>
    obtain ⟨address, killWanted, exit, waiting⟩ := p
    simp only [step, ProcessDriver.call, hp] at h
    cases exit with
    | some exit =>
      cases h
      exact .calledLate c _ exit hp rfl
    | none =>
      -- Only the first kill asks for the kill signal.
      cases c with
      | wait =>
        cases h
        exact .called .wait _ [] hp rfl (.inl rfl)
      | shutdown =>
        cases h
        exact .called .shutdown _ _ hp rfl (.inr rfl)
      | kill =>
        cases killWanted with
        | false =>
          cases h
          exact .calledToKill _ hp rfl rfl
        | true =>
          cases h
          exact .called .kill _ [] hp rfl (.inl rfl)

theorem move_of_refuse {n : Nat} {failure : Error}
    (h : step config s (.refuse n failure) = some (s', effects)) :
    Move s (.refuse n failure) s' effects := by
  simp only [step, ProcessDriver.refuse] at h
  split at h
  · rename_i hn
    cases hp : s.driver.process with
    | none =>
      rw [hp] at h
      cases h
      exact .notRefused n failure
    | some p =>
      rw [hp] at h
      dsimp only at h
      split at h
      · rename_i hw
        cases h
        exact .refused n failure p hp hn (by simpa using hw)
      · cases h
        exact .notRefused n failure
  · cases h

theorem move_of_recordExit (h : step config s .recordExit = some (s', effects)) :
    Move s .recordExit s' effects := by
  simp only [step] at h
  split at h
  · rename_i how hended
    split at h
    · rename_i hsupervised
      obtain ⟨p, hp, he⟩ := isSupervised_iff.1 hsupervised
      simp only [ProcessDriver.recordExit, hp, he] at h
      cases h
      have hmove := Move.recorded p how hp he hended
      simpa [Function.comp_def] using hmove
    · cases h
  · cases h

theorem move_of_step (h : step config s a = some (s', effects)) : Move s a s' effects := by
  cases a with
  | beginStart => exact move_of_beginStart h
  | endStart id refuses => exact move_of_endStart h
  | call c => exact move_of_call h
  | refuse n failure => exact move_of_refuse h
  | hangUp =>
    simp only [step] at h
    split at h
    · rename_i p hline hp
      cases h
      exact .hungUp p hp hline
    · cases h
  | childEnds how =>
    simp only [step] at h
    split at h
    · rename_i hguard
      cases h
      obtain ⟨hp, he⟩ := Bool.and_eq_true_iff.1 hguard
      obtain ⟨p, hp⟩ := Option.isSome_iff_exists.1 hp
      exact .childEnded how p hp (by simpa using he)
    · cases h
  | hearKill =>
    simp only [step] at h
    split at h
    · rename_i hguard
      cases h
      exact .killHeard hguard.1
    · cases h
  | recordExit => exact move_of_recordExit h
  | share premises =>
    cases h
    exact .shared premises

end Steps

variable {s s' : SupervisedDriver} {a : Action} {effects : List Effect} {d : ProcessDriver}
  {p : Process} {history : History}

/-- No start has succeeded so far, and nothing has come of the calls. -/
structure IsUnstarted (d : ProcessDriver) (s : SupervisedDriver) : Prop where
  driver : s.driver = d
  process : s.driver.process = none
  ended : s.ended = none
  line : s.line = .silent

/-- The machine was started, and what its driver knows of the process is true. -/
structure IsStarted (s : SupervisedDriver) (p : Process) : Prop where
  process : s.driver.process = some p
  starting : s.starting = none
  exit : ∀ exit, p.exit = some exit →
    p.waiting = [] ∧ ∃ how, s.ended = some how ∧ exit = .ofReaped how
  waiting : ∀ n c, (n, c) ∈ p.waiting → s.calls[n]? = some c
  line : s.line ≠ .silent → p.killWanted = true

def IsInOrder (d : ProcessDriver) (s : SupervisedDriver) : Prop :=
  IsUnstarted d s ∨ ∃ p, s.IsStarted p

theorem IsUnstarted.move (u : IsUnstarted d s) (h : Move s a s' effects) : IsInOrder d s' := by
  have hnone (p : Process) : s.driver.process ≠ some p := by simp [u.process]
  cases h with
  | startRefused | notRefused => exact .inl u
  | startBegun | startFailed | calledUnstarted | shared =>
    exact .inl ⟨u.driver, u.process, u.ended, u.line⟩
  | started => exact .inr ⟨_, rfl, rfl, nofun, nofun, fun hline => absurd u.line hline⟩
  | calledLate c p exit hp => exact absurd hp (hnone p)
  | calledToKill p hp => exact absurd hp (hnone p)
  | called c p effects hp => exact absurd hp (hnone p)
  | refused n failure p hp => exact absurd hp (hnone p)
  | hungUp p hp => exact absurd hp (hnone p)
  | childEnded how p hp => exact absurd hp (hnone p)
  | recorded p how hp => exact absurd hp (hnone p)
  | killHeard hline =>
    rw [u.line] at hline
    cases hline

theorem IsStarted.eq_of_process {q : Process} (r : s.IsStarted p)
    (hq : s.driver.process = some q) : p = q :=
  Option.some.inj (r.process.symm.trans hq)

theorem IsStarted.move (r : s.IsStarted p) (h : Move s a s' effects) : ∃ p', s'.IsStarted p' := by
  have hcalls {n : Nat} {c : ExitCall} (new : ExitCall) (hn : (n, c) ∈ p.waiting) :
      (s.calls ++ [new])[n]? = some c := getElem?_concat_eq_some.2 (.inl (r.waiting n c hn))
  have hlast (c : ExitCall) : (s.calls ++ [c])[s.calls.length]? = some c := by simp
  cases h with
  | startRefused | notRefused => exact ⟨p, r⟩
  | startBegun address pool hp => simp [r.process] at hp
  | startFailed id refuses e premises hs => simp [r.starting] at hs
  | started id refuses address machine premises hs => simp [r.starting] at hs
  | calledUnstarted c hp => simp [r.process] at hp
  | calledLate c q exit hp he =>
    obtain rfl := r.eq_of_process hp
    exact ⟨_, rfl, r.starting, r.exit, fun n c' hn => hcalls c hn,
      fun hline => by simp [r.line hline]⟩
  | calledToKill q hp he hw =>
    obtain rfl := r.eq_of_process hp
    refine ⟨_, rfl, r.starting, by simp [he], fun n c hn => ?_, fun _ => rfl⟩
    rcases List.mem_append.1 hn with hn | hn
    · exact hcalls .kill hn
    · obtain ⟨rfl, rfl⟩ := Prod.mk.inj (List.mem_singleton.1 hn)
      exact hlast .kill
  | called c q effects hp he heffects =>
    obtain rfl := r.eq_of_process hp
    refine ⟨_, rfl, r.starting, by simp [he], fun n c' hn => ?_,
      fun hline => by simp [r.line hline]⟩
    rcases List.mem_append.1 hn with hn | hn
    · exact hcalls c hn
    · obtain ⟨rfl, rfl⟩ := Prod.mk.inj (List.mem_singleton.1 hn)
      exact hlast c'
  | refused n failure q hp hn hw =>
    obtain rfl := r.eq_of_process hp
    refine ⟨_, rfl, r.starting, fun exit he => ?_,
      fun m c hm => r.waiting m c (List.mem_filter.1 hm).1, r.line⟩
    obtain ⟨hwaiting, hended⟩ := r.exit exit he
    simp [hwaiting] at hw
  | hungUp q hp hline =>
    obtain rfl := r.eq_of_process hp
    exact ⟨_, rfl, r.starting, r.exit, r.waiting, fun _ => rfl⟩
  | childEnded how q hp he =>
    refine ⟨p, r.process, r.starting, fun exit hexit => ?_, r.waiting, r.line⟩
    -- What is recorded was known before, so the process cannot end once more.
    obtain ⟨-, how', hended, -⟩ := r.exit exit hexit
    rw [he] at hended
    cases hended
  | killHeard hline =>
    exact ⟨p, r.process, r.starting, r.exit, r.waiting, fun _ => r.line (by simp [hline])⟩
  | recorded q how hp he hended =>
    obtain rfl := r.eq_of_process hp
    refine ⟨_, rfl, r.starting, fun exit hexit => ?_, nofun, r.line⟩
    exact ⟨rfl, how, hended, (Option.some.inj hexit).symm⟩
  | shared => exact ⟨p, r.process, r.starting, r.exit, r.waiting, r.line⟩

theorem IsInOrder.move (o : IsInOrder d s) (h : Move s a s' effects) : IsInOrder d s' := by
  rcases o with u | ⟨p, r⟩
  · exact u.move h
  · exact .inr (r.move h)

theorem isInOrder_new (config : MachineConfig) (jail : String) (on : Premises) :
    IsInOrder (.new config jail) (new config jail on) :=
  .inl ⟨rfl, rfl, rfl, rfl⟩

end SupervisedDriver

end MachineFleet
