import MachineFleet.Proofs.Lifecycle.Teardown

/-!
The journal of a controller: what it begins to do to its machine, and what comes of it, in the order
in which it happens. A controller does one thing at a time, so every entry but the last is answered
by the one after it.
-/
namespace MachineFleet.Controller

def Action.isEnd : Action → Bool
  | driverStarted _ => true
  | driverShutDown _ => true
  | shutdownExpired => true
  | driverKilled _ => true
  | networkReleased .. => true
  | rootRemoved _ => true
  | _ => false

inductive Entry where
  | begun (deed : Effect)
  | ended (a : Action)

/-- What a step ends comes before what it begins. -/
def entriesOf (a : Action) (effects : List Effect) : List Entry :=
  (if a.isEnd then [.ended a] else []) ++ (effects.filter (·.isDeed)).map .begun

def launched (machine : Metadata) : List Entry :=
  [.begun (.call .start), .ended (.driverStarted (.ok machine))]

def Entry.isStart : Entry → Bool
  | begun (.call .start) => true
  | ended (.driverStarted _) => true
  | _ => false

inductive Fails : Action → Prop where
  | refused (e : Error) : Fails (.driverShutDown (some e))
  | overdue : Fails .shutdownExpired

/-- The ways in which a machine is brought down: it shuts down, or it is killed because it has not.
-/
inductive BroughtDown : List Entry → Prop where
  | shutDown : BroughtDown [.begun (.call .shutdown), .ended (.driverShutDown none)]
  | killed (why : Action) (hw : Fails why) (failure : Option Error) :
      BroughtDown [.begun (.call .shutdown), .ended why,
        .begun (.call .kill), .ended (.driverKilled failure)]

/-- The ways in which a machine is cleaned up: its network is released and then its root is removed,
if it has one. What fails is left alone. -/
inductive CleanedUp (id : String) : List Entry → Prop where
  | bare (failure : Option Error) :
      CleanedUp id [.begun (.call (.releaseNetwork id)), .ended (.networkReleased failure none)]
  | isolated (failure : Option Error) (root : Path) (failure' : Option Error) :
      CleanedUp id [.begun (.call (.releaseNetwork id)),
        .ended (.networkReleased failure (some root)),
        .begun (.removeRoot root), .ended (.rootRemoved failure')]

def Gone (reply : Option ReplyId) (down : List Entry) : Prop :=
  BroughtDown down ∨ reply = none ∧ down = []

theorem Gone.broughtDown {r : ReplyId} {down : List Entry} (h : Gone (some r) down) :
    BroughtDown down :=
  h.resolve_right fun hn => absurd hn.1 (by simp)

/-- The journal by the time the controller has come to a phase. -/
inductive Keeps : Phase → List Entry → Prop where
  | stopped : Keeps .stopped []
  | starting (reply : ReplyId) : Keeps (.starting reply) [.begun (.call .start)]
  | started (run : Running) : Keeps (.started run) (launched run.machine)
  | exiting (run : Running) : Keeps (.exiting run) (launched run.machine)
  | shuttingDown (machine : Metadata) (reply : Option ReplyId) (deadline : Instant) :
      Keeps (.shuttingDown ⟨machine.id, reply⟩ deadline)
        (launched machine ++ [.begun (.call .shutdown)])
  | killing (machine : Metadata) (reply : Option ReplyId) (why : Action) (hw : Fails why) :
      Keeps (.killing ⟨machine.id, reply⟩)
        (launched machine ++ [.begun (.call .shutdown), .ended why, .begun (.call .kill)])
  | releasing (machine : Metadata) (reply : Option ReplyId) (down : List Entry)
      (hd : Gone reply down) :
      Keeps (.releasing ⟨machine.id, reply⟩)
        (launched machine ++ down ++ [.begun (.call (.releaseNetwork machine.id))])
  | removing (machine : Metadata) (reply : Option ReplyId) (down : List Entry)
      (hd : Gone reply down) (failure : Option Error) (root : Path) :
      Keeps (.removing ⟨machine.id, reply⟩)
        (launched machine ++ down ++ [.begun (.call (.releaseNetwork machine.id)),
          .ended (.networkReleased failure (some root)), .begun (.removeRoot root)])
  | unused : Keeps .terminated []
  | failed (e : Error) :
      Keeps .terminated [.begun (.call .start), .ended (.driverStarted (.error e))]
  | terminated (machine : Metadata) (reply : Option ReplyId) (down up : List Entry)
      (hd : Gone reply down) (hu : CleanedUp machine.id up) :
      Keeps .terminated (launched machine ++ down ++ up)

section Steps

variable {s : Surroundings} {c c' : Controller} {a : Action} {effects : List Effect}
  {j : List Entry}

theorem keeps_setProbe {p : Probe} (h : Keeps c.phase j) : Keeps (c.setProbe p).phase j := by
  rcases phase_setProbe c p with hp | ⟨run, hc, hp⟩ | ⟨run, hc, hp⟩
  · rwa [hp]
  · rw [hc] at h
    rw [hp]
    cases h
    exact .started { run with probe := some p }
  · rw [hc] at h
    rw [hp]
    cases h
    exact .exiting { run with probe := some p }

theorem keeps_move (h : Move s c a c' effects) (hk : Keeps c.phase j) :
    Keeps c'.phase (j ++ entriesOf a effects) := by
  have hsame {phase : Phase} (hk : Keeps phase j) (he : entriesOf a effects = []) :
      Keeps phase (j ++ entriesOf a effects) := by
    rw [he, List.append_nil]
    exact hk
  cases h with
  | takeStart reply rest hp =>
    rw [hp] at hk
    cases hk
    exact .starting reply
  | skip m rest hp => exact hsame hk (by simp [entriesOf, Action.isEnd, filter_dropReply])
  | giveUp hp =>
    rw [hp] at hk
    cases hk
    exact hsame .unused (by simp [entriesOf, Action.isEnd])
  | takeRegistered run rest hp =>
    rw [hp] at hk
    cases hk
    refine hsame ?_ rfl
    rw [← machine_beginProbing s.now c.probeConfig run]
    exact .started _
  | takeStop run reply rest hp =>
    rw [hp] at hk
    cases hk
    exact .shuttingDown run.machine (some reply) _
  | takeRetire run rest hp =>
    rw [hp] at hk
    cases hk
    exact .shuttingDown run.machine none _
  | takeExit run failure rest hp =>
    rw [hp] at hk
    cases hk
    exact .exiting run
  | passReady | passUnready | refuseStart => exact hsame hk (by simp [entriesOf, Action.isEnd])
  | letGo run hp =>
    rw [hp] at hk
    cases hk
    exact .shuttingDown run.machine none _
  | reportExit run hp =>
    rw [hp] at hk
    cases hk
    exact .releasing run.machine none [] (.inr ⟨rfl, rfl⟩)
  | startFailed reply e hp =>
    rw [hp] at hk
    cases hk
    have he : entriesOf (.driverStarted (.error e)) (.answer reply (.failed e) :: c.terminate.2) =
        [.ended (.driverStarted (.error e))] := by
      simp [entriesOf, Action.isEnd]
    rw [he]
    exact .failed e
  | startTaken reply machine hp =>
    rw [hp] at hk
    cases hk
    exact .started ⟨machine, none, false⟩
  | startUnwanted reply machine hp =>
    rw [hp] at hk
    cases hk
    exact .shuttingDown machine none _
  | shutDown t deadline hp =>
    rw [hp] at hk
    cases hk with
    | shuttingDown machine reply =>
      exact .releasing machine reply _ (.inl .shutDown)
  | shutdownFailed t deadline e hp =>
    rw [hp] at hk
    cases hk with
    | shuttingDown machine reply => exact .killing machine reply _ (.refused e)
  | shutdownExpired t deadline hp =>
    rw [hp] at hk
    cases hk with
    | shuttingDown machine reply => exact .killing machine reply _ .overdue
  | killed t failure hp =>
    rw [hp] at hk
    cases hk with
    | killing machine reply why hw =>
      exact .releasing machine reply _ (.inl (.killed why hw failure))
  | released t failure hp =>
    rw [hp] at hk
    cases hk with
    | releasing machine reply down hd =>
      have he : entriesOf (.networkReleased failure none)
          (.call .isolatedRoot :: (c.finish ⟨machine.id, reply⟩).2) =
          [.ended (.networkReleased failure none)] := by
        simp [entriesOf, Action.isEnd]
      rw [he, List.append_assoc]
      exact .terminated machine reply down _ hd (.bare failure)
  | releasedWithRoot t failure root hp =>
    rw [hp] at hk
    cases hk with
    | releasing machine reply down hd =>
      rw [List.append_assoc]
      exact .removing machine reply down hd failure root
  | rootRemoved t failure hp =>
    rw [hp] at hk
    cases hk with
    | removing machine reply down hd failure' root =>
      have he : entriesOf (.rootRemoved failure) (c.finish ⟨machine.id, reply⟩).2 =
          [.ended (.rootRemoved failure)] := by
        simp [entriesOf, Action.isEnd]
      rw [he, List.append_assoc]
      exact .terminated machine reply down _ hd (.isolated failure' root failure)
  | exited =>
    rw [phase_postIfHeld]
    exact hsame hk rfl
  | tick => exact hsame (keeps_setProbe hk) (by simp [entriesOf, Action.isEnd])
  | checkEnded => exact hsame (keeps_setProbe hk) rfl
  | judged p p' report =>
    refine hsame ?_ rfl
    cases report with
    | none => exact keeps_setProbe hk
    | some m =>
      rw [Option.map_some, Option.getD_some, phase_postIfHeld]
      exact keeps_setProbe hk

theorem entriesOf_eq_nil_of_terminated (h : Move s c a c' effects) (hp : c.phase = .terminated) :
    entriesOf a effects = [] := by
  have hq : c.probe? = none := by
    unfold probe?
    rw [hp]
  cases h with
  | exited => rfl
  | tick p p' ht => cases hq.symm.trans ht
  | checkEnded p p' outcome ht => cases hq.symm.trans ht
  | judged p p' report ht => cases hq.symm.trans ht
  | _ => simp_all

theorem filter_entriesOf_of_begun (h : Move s c a c' effects) (hb : c.phase.HasBegun) :
    (entriesOf a effects).filter (·.isStart) = [] := by
  cases h with
  | takeStart | startFailed | startTaken | startUnwanted =>
    exact absurd hb (by simp [*, Phase.HasBegun, Phase.rank])
  | _ => simp [entriesOf, Action.isEnd, Entry.isStart, filter_dropReply]

end Steps

end MachineFleet.Controller
