import MachineFleet.Proofs.Probe
import MachineFleet.Proofs.Readiness.Confirmation
import MachineFleet.Proofs.Run
import MachineFleet.Proofs.Ticker

namespace MachineFleet

def ReadinessTracker.changes (t : ReadinessTracker) (outcomes : List Signal) : List Transition :=
  (t.observeAll outcomes).filterMap (·.2)

theorem ReadinessTracker.changes_concat (t : ReadinessTracker) (outcomes : List Signal)
    (x : Signal) :
    t.changes (outcomes ++ [x]) =
      t.changes outcomes ++ ((t.after outcomes).observe x).2.toList := by
  rw [changes, observeAll_concat, filterMap_concat, changes]

theorem ReadinessTracker.changes_prefix (t : ReadinessTracker) (outcomes later : List Signal) :
    t.changes outcomes <+: t.changes (outcomes ++ later) := by
  induction later using List.reverseRecOn with
  | nil => simp
  | append_singleton later x ih =>
    rw [← List.append_assoc, changes_concat]
    exact ih.trans (List.prefix_append ..)

structure LinkedProbe where
  probe : Probe
  holders : Nat
  isOpen : Bool
  deriving DecidableEq

namespace LinkedProbe

inductive Input where
  | tick (now : Instant)
  | checkEnded (outcome : Signal)
  | judge
  | stop
  | drop
  | hold
  | letGo
  | close
  deriving DecidableEq, Repr

inductive Effect where
  | check (url : Url) (timeout : Duration)
  | message (m : Message)
  deriving DecidableEq, Repr

/-- A controller that nobody holds, or whose mailbox is closed, cannot be reached any more. -/
def isReachable (s : LinkedProbe) : Bool := decide (0 < s.holders) && s.isOpen

def step (s : LinkedProbe) : Input → Option (LinkedProbe × List Effect)
  | .tick now => (s.probe.tick? now).map fun probe =>
    ({ s with probe }, [.check s.probe.url s.probe.timeout])
  | .checkEnded outcome => (s.probe.finish? outcome).map fun probe => ({ s with probe }, [])
  | .judge => (s.probe.judge? s.isReachable).map fun (probe, report) =>
    ({ s with probe }, report.toList.map .message)
  | .stop | .drop => some ({ s with probe := s.probe.stop }, [])
  | .hold => if 0 < s.holders then some ({ s with holders := s.holders + 1 }, []) else none
  | .letGo => if 0 < s.holders then some ({ s with holders := s.holders - 1 }, []) else none
  | .close => some ({ s with isOpen := false }, [])

abbrev History := List (Happening LinkedProbe Input Effect)

def Input.isEnd : Input → Bool
  | stop | drop => true
  | _ => false

def Input.outcome? : Input → Option Signal
  | checkEnded outcome => some outcome
  | _ => none

def Effect.message? : Effect → Option Message
  | message m => some m
  | check .. => none

def Effect.isCheck : Effect → Bool
  | check .. => true
  | message _ => false

def outcomes (history : History) : List Signal := history.filterMap (·.input.outcome?)

def effects (history : History) : List Effect := history.flatMap (·.effects)

def messages (history : History) : List Message := (effects history).filterMap (·.message?)

def checksBegun (history : History) : Nat := (effects history).countP (·.isCheck)

section

variable {spec : ProbeSpec} {machine : Metadata} {now : Instant} {history later : History}
  {start s s' : LinkedProbe} {i : Input} {done : List Effect}

@[simp] theorem outcomes_concat (history : History) (s : LinkedProbe) (i : Input)
    (done : List Effect) :
    outcomes (history ++ [⟨s, i, done⟩]) = outcomes history ++ i.outcome?.toList := by
  rw [outcomes, filterMap_concat, outcomes]

@[simp] theorem messages_concat (history : History) (s : LinkedProbe) (i : Input)
    (done : List Effect) :
    messages (history ++ [⟨s, i, done⟩]) = messages history ++ done.filterMap (·.message?) := by
  simp [messages, effects]

@[simp] theorem checksBegun_concat (history : History) (s : LinkedProbe) (i : Input)
    (done : List Effect) :
    checksBegun (history ++ [⟨s, i, done⟩]) = checksBegun history + done.countP (·.isCheck) := by
  simp [checksBegun, effects]

theorem outcome?_of_isEnd (h : i.isEnd = true) : i.outcome? = none := by
  cases i with
  | stop | drop => rfl
  | _ => cases h

inductive Move (s : LinkedProbe) : Input → LinkedProbe → List Effect → Prop where
  | tick (now : Instant) (p : Probe) (h : s.probe.tick? now = some p) :
      Move s (.tick now) { s with probe := p } [.check s.probe.url s.probe.timeout]
  | checkEnded (outcome : Signal) (p : Probe) (h : s.probe.finish? outcome = some p) :
      Move s (.checkEnded outcome) { s with probe := p } []
  | judge (p : Probe) (report : Option Message)
      (h : s.probe.judge? s.isReachable = some (p, report)) :
      Move s .judge { s with probe := p } (report.toList.map .message)
  | ended (i : Input) (h : i.isEnd = true) : Move s i { s with probe := s.probe.stop } []
  | hold (h : 0 < s.holders) : Move s .hold { s with holders := s.holders + 1 } []
  | letGo (h : 0 < s.holders) : Move s .letGo { s with holders := s.holders - 1 } []
  | close : Move s .close { s with isOpen := false } []

theorem move_of_step (h : s.step i = some (s', done)) : Move s i s' done := by
  cases i with
  | tick now =>
    obtain ⟨p, hp, he⟩ := Option.map_eq_some_iff.1 h
    cases he
    exact .tick now p hp
  | checkEnded outcome =>
    obtain ⟨p, hp, he⟩ := Option.map_eq_some_iff.1 h
    cases he
    exact .checkEnded outcome p hp
  | judge =>
    obtain ⟨⟨p, report⟩, hp, he⟩ := Option.map_eq_some_iff.1 h
    cases he
    exact .judge p report hp
  | stop =>
    cases h
    exact .ended .stop rfl
  | drop =>
    cases h
    exact .ended .drop rfl
  | hold =>
    simp only [step] at h
    split at h
    · cases h
      exact .hold ‹_›
    · cases h
  | letGo =>
    simp only [step] at h
    split at h
    · cases h
      exact .letGo ‹_›
    · cases h
  | close =>
    cases h
    exact .close

/-- A probe that neither checks nor judges any more. -/
structure IsOver (s : LinkedProbe) : Prop where
  state_eq : s.probe.ticker.state = .stopped
  tracker_eq : s.probe.tracker = none
  outcomes_eq : s.probe.outcomes = []

theorem isOver_stop : IsOver { s with probe := s.probe.stop } := ⟨rfl, rfl, rfl⟩

theorem state_of_tick? {p p' : Probe} (h : p.tick? now = some p') :
    ∃ due, p.ticker.state = .running (.waiting due) := by
  obtain ⟨ticker, ht, -⟩ := Option.map_eq_some_iff.1 h
  obtain ⟨due, hs, -⟩ := Ticker.fire?_cases ht
  exact ⟨due, hs⟩

theorem state_of_finish? {p p' : Probe} {outcome : Signal} (h : p.finish? outcome = some p') :
    ∃ next, p.ticker.state = .running (.firing next) := by
  obtain ⟨ticker, ht, -⟩ := Option.map_eq_some_iff.1 h
  obtain ⟨next, hs, -⟩ := Ticker.finish?_cases ht
  exact ⟨next, hs⟩

theorem IsOver.move (o : IsOver s) (h : Move s i s' done) :
    IsOver s' ∧ done = [] ∧ i.outcome? = none := by
  cases h with
  | tick now p hp =>
    obtain ⟨due, hs⟩ := state_of_tick? hp
    cases o.state_eq.symm.trans hs
  | checkEnded outcome p hp =>
    obtain ⟨next, hs⟩ := state_of_finish? hp
    cases o.state_eq.symm.trans hs
  | judge p report hp =>
    obtain ⟨tracker, outcome, rest, ht, -⟩ := Probe.judge?_cases hp
    cases o.tracker_eq.symm.trans ht
  | ended i hi =>
    exact ⟨isOver_stop, rfl, outcome?_of_isEnd hi⟩
  | hold | letGo | close => exact ⟨⟨o.state_eq, o.tracker_eq, o.outcomes_eq⟩, rfl, rfl⟩

theorem IsOver.run (o : IsOver start) (run : Run step start history s) :
    IsOver s ∧ effects history = [] ∧ outcomes history = [] := by
  refine run.invariant
    (P := fun history s => IsOver s ∧ effects history = [] ∧ outcomes history = [])
    ⟨o, rfl, rfl⟩ ?_
  rintro history s i s' done ⟨o, hnone, houtcomes⟩ h
  obtain ⟨o', rfl, hi⟩ := o.move (move_of_step h)
  rw [outcomes_concat, houtcomes, hi]
  exact ⟨o', by simpa [effects] using hnone, rfl⟩

theorem isReachable_of_move (h : Move s i s' done) (hr : s'.isReachable = true) :
    s.isReachable = true := by
  simp only [isReachable, Bool.and_eq_true, decide_eq_true_eq] at hr ⊢
  cases h with
  | hold h => exact ⟨h, hr.2⟩
  | letGo h => exact ⟨h, hr.2⟩
  | close => cases hr.2
  | tick | checkEnded | judge | ended => exact hr

theorem messages_of_unreachable (h : Move s i s' done) (hr : s.isReachable = false) :
    done.filterMap (·.message?) = [] := by
  cases h with
  | judge p report hp =>
    obtain ⟨tracker, outcome, rest, -, -, ⟨-, rfl, -⟩ | ⟨change, -, ⟨ht, -⟩ | ⟨-, rfl, -⟩⟩⟩ :=
      Probe.judge?_cases hp
    · rfl
    · cases hr.symm.trans ht
    · rfl
  | tick | checkEnded | ended | hold | letGo | close => rfl

theorem messages_of_run_unreachable (hr : start.isReachable = false)
    (run : Run step start history s) : messages history = [] := by
  refine (run.invariant
    (P := fun history s => s.isReachable = false ∧ messages history = []) ⟨hr, rfl⟩ ?_).2
  rintro history s i s' done ⟨hr, hnone⟩ h
  have hm := move_of_step h
  rw [messages_concat, hnone, messages_of_unreachable hm hr]
  exact ⟨Bool.eq_false_iff.2 fun hr' => Bool.eq_false_iff.1 hr (isReachable_of_move hm hr'), rfl⟩

/-- A check is under way while it was begun and has not come to its end; one that is cut off has
none. -/
structure Checks (history : History) (s : LinkedProbe) : Prop where
  ended_le : (outcomes history).length ≤ checksBegun history
  begun_le : checksBegun history ≤ (outcomes history).length + 1
  begun_eq : s.probe.isRunning = true →
    checksBegun history = (outcomes history).length + s.probe.ticker.isFiring.toNat

theorem Checks.move (k : Checks history s) (h : Move s i s' done) :
    Checks (history ++ [⟨s, i, done⟩]) s' := by
  have hend := k.ended_le
  have hbegun := k.begun_le
  -- What neither begins nor ends a check, and leaves the ticker of a probe that runs.
  have hsame {i : Input} {s' : LinkedProbe} {done : List Effect} (hi : i.outcome? = none)
      (hd : done.countP (·.isCheck) = 0)
      (ht : s'.probe.isRunning = true → s'.probe.ticker = s.probe.ticker) :
      Checks (history ++ [⟨s, i, done⟩]) s' := by
    refine ⟨?_, ?_, fun hr => ?_⟩
    · simpa [hi, hd] using hend
    · simpa [hi, hd] using hbegun
    · have heq := k.begun_eq (by rwa [Probe.isRunning, ← ht hr])
      simpa [hi, hd, ht hr] using heq
  cases h with
  | tick now p hp =>
    obtain ⟨due, hs⟩ := state_of_tick? hp
    obtain ⟨hidle, hfiring⟩ := Probe.isFiring_tick? hp
    have heq := k.begun_eq (by simp [Probe.isRunning, Ticker.isRunning, hs])
    rw [hidle] at heq
    exact {
      ended_le := by simp [Input.outcome?, Effect.isCheck]; omega
      begun_le := by simp [Input.outcome?, Effect.isCheck, heq]
      begun_eq := fun _ => by simp [Input.outcome?, Effect.isCheck, heq, hfiring] }
  | checkEnded outcome p hp =>
    obtain ⟨next, hs⟩ := state_of_finish? hp
    obtain ⟨hfiring, hidle⟩ := Probe.isFiring_finish? hp
    have heq := k.begun_eq (by simp [Probe.isRunning, Ticker.isRunning, hs])
    rw [hfiring] at heq
    exact {
      ended_le := by simp [Input.outcome?, heq]
      begun_le := by simp [Input.outcome?, heq]
      begun_eq := fun _ => by simp [Input.outcome?, heq, hidle] }
  | judge p report hp =>
    exact hsame rfl (by cases report <;> rfl) fun _ => Probe.ticker_judge? hp
  | ended i hi =>
    exact hsame (outcome?_of_isEnd hi) rfl fun hr => by cases hr
  | hold | letGo | close => exact hsame rfl rfl fun _ => rfl

variable {fresh : ReadinessTracker}

/-- All outcomes up to those that wait were judged, and their changes were told; or judging was
given up, at the end of probing or for a controller that could not be reached. -/
structure Follows (machine : Metadata) (fresh : ReadinessTracker) (history : History)
    (s : LinkedProbe) : Prop where
  machine_eq : s.probe.machine = machine
  messages_prefix :
    messages history <+: (fresh.changes (outcomes history)).map (Probe.report machine)
  judging : ∀ tracker, s.probe.tracker = some tracker → ∃ judged,
    outcomes history = judged ++ s.probe.outcomes ∧ tracker = fresh.after judged ∧
      messages history = (fresh.changes judged).map (Probe.report machine)
  given_up : s.probe.tracker = none → s.probe.outcomes = [] ∧
    (s.isReachable = true → ∃ x ∈ history, x.input.isEnd = true)

theorem Follows.idle (f : Follows machine fresh history s)
    (hmachine : s'.probe.machine = s.probe.machine) (htracker : s'.probe.tracker = s.probe.tracker)
    (houtcomes : s'.probe.outcomes = s.probe.outcomes) (hi : i.outcome? = none)
    (hdone : done.filterMap (·.message?) = [])
    (hreach : s'.isReachable = true → s.isReachable = true) :
    Follows machine fresh (history ++ [⟨s, i, done⟩]) s' := by
  have hout : outcomes (history ++ [⟨s, i, done⟩]) = outcomes history := by simp [hi]
  have hmess : messages (history ++ [⟨s, i, done⟩]) = messages history := by simp [hdone]
  refine ⟨hmachine.trans f.machine_eq, by rw [hout, hmess]; exact f.messages_prefix,
    fun tracker ht => ?_, fun ht => ?_⟩
  · rw [hout, hmess, houtcomes]
    exact f.judging tracker (htracker ▸ ht)
  · obtain ⟨hnil, hend⟩ := f.given_up (htracker ▸ ht)
    refine ⟨houtcomes.trans hnil, fun hr => ?_⟩
    obtain ⟨x, hx, he⟩ := hend (hreach hr)
    exact ⟨x, List.mem_append_left _ hx, he⟩

theorem Follows.judged (f : Follows machine fresh history s) {tracker : ReadinessTracker}
    {outcome : Signal} {rest : List Signal} (ht : s.probe.tracker = some tracker)
    (ho : s.probe.outcomes = outcome :: rest)
    (hdone : done.filterMap (·.message?) =
      (tracker.observe outcome).2.toList.map (Probe.report machine)) :
    Follows machine fresh (history ++ [⟨s, .judge, done⟩])
      { s with probe :=
        { s.probe with tracker := some (tracker.observe outcome).1, outcomes := rest } } := by
  obtain ⟨judged, hall, rfl, htold⟩ := f.judging tracker ht
  have hout : outcomes (history ++ [⟨s, .judge, done⟩]) = (judged ++ [outcome]) ++ rest := by
    simp [Input.outcome?, hall, ho]
  have hmess : messages (history ++ [⟨s, .judge, done⟩]) =
      (fresh.changes (judged ++ [outcome])).map (Probe.report machine) := by
    rw [messages_concat, htold, hdone, ReadinessTracker.changes_concat, List.map_append]
  refine ⟨f.machine_eq, ?_, ?_, nofun⟩
  · rw [hout, hmess]
    exact (ReadinessTracker.changes_prefix ..).map _
  · rintro tracker ⟨⟩
    exact ⟨judged ++ [outcome], hout, (ReadinessTracker.after_concat ..).symm, hmess⟩

theorem Follows.move (f : Follows machine fresh history s) (h : Move s i s' done) :
    Follows machine fresh (history ++ [⟨s, i, done⟩]) s' := by
  have hreach := isReachable_of_move h
  cases h with
  | tick now p hp =>
    obtain ⟨ticker, rfl⟩ := Probe.tick?_eq hp
    exact f.idle rfl rfl rfl rfl rfl hreach
  | checkEnded outcome p hp =>
    -- The outcome waits if somebody judges, and is lost otherwise.
    obtain ⟨ticker, rfl⟩ := Probe.finish?_eq hp
    have hout : outcomes (history ++ [⟨s, .checkEnded outcome, []⟩]) =
        outcomes history ++ [outcome] := by simp [Input.outcome?]
    have hmess : messages (history ++ [⟨s, .checkEnded outcome, []⟩]) = messages history := by simp
    refine ⟨f.machine_eq, ?_, fun tracker ht => ?_, fun ht => ?_⟩
    · rw [hout, hmess]
      exact f.messages_prefix.trans ((ReadinessTracker.changes_prefix ..).map _)
    · obtain ⟨judged, hall, htracker, htold⟩ := f.judging tracker ht
      refine ⟨judged, ?_, htracker, hmess.trans htold⟩
      rw [hout, hall, if_pos (by simp [show s.probe.tracker = some tracker from ht]),
        List.append_assoc]
    · obtain ⟨-, hend⟩ := f.given_up ht
      refine ⟨if_neg (by simp [show s.probe.tracker = none from ht]), fun hr => ?_⟩
      obtain ⟨x, hx, he⟩ := hend hr
      exact ⟨x, List.mem_append_left _ hx, he⟩
  | judge p report hp =>
    obtain ⟨tracker, outcome, rest, ht, ho, ⟨hchange, rfl, rfl⟩ | ⟨change, hchange, hcase⟩⟩ :=
      Probe.judge?_cases hp
    · exact f.judged ht ho (by rw [hchange]; rfl)
    · obtain ⟨-, rfl, rfl⟩ | ⟨hr, rfl, rfl⟩ := hcase
      · exact f.judged ht ho (by rw [hchange, f.machine_eq]; rfl)
      · -- The change reaches nobody, and judging is given up with it.
        refine ⟨f.machine_eq, ?_, nofun, fun _ => ⟨rfl, fun hr' => ?_⟩⟩
        · simpa [Input.outcome?] using f.messages_prefix
        · cases hr.symm.trans hr'
  | ended i hi =>
    have hout := outcome?_of_isEnd hi
    refine ⟨f.machine_eq, ?_, nofun, fun _ => ⟨rfl, fun _ => ⟨⟨s, i, []⟩, by simp, hi⟩⟩⟩
    simpa [hout] using f.messages_prefix
  | hold | letGo | close => exact f.idle rfl rfl rfl rfl rfl hreach

theorem follows_of_run {p : Probe} {holders : Nat} {isOpen : Bool}
    (h : Probe.spawn spec machine now = .ok p) (run : Run step ⟨p, holders, isOpen⟩ history s) :
    Follows machine (.new spec.successThreshold.toNat spec.failureThreshold.toNat) history s := by
  obtain ⟨-, hmachine, -, houtcomes, htracker⟩ := Probe.spawn_eq_ok h
  refine run.invariant (P := Follows machine _) ?_ fun _ _ _ _ _ f h => f.move (move_of_step h)
  refine ⟨hmachine, List.nil_prefix, fun tracker ht => ⟨[], ?_, ?_, rfl⟩, fun ht => ?_⟩
  · rw [houtcomes]
    rfl
  · exact Option.some.inj (ht.symm.trans htracker)
  · cases ht.symm.trans htracker

theorem checks_of_run {p : Probe} {holders : Nat} {isOpen : Bool}
    (h : Probe.spawn spec machine now = .ok p) (run : Run step ⟨p, holders, isOpen⟩ history s) :
    Checks history s := by
  refine run.invariant (P := Checks) ?_ fun _ _ _ _ _ k h => k.move (move_of_step h)
  exact ⟨Nat.le_refl _, Nat.zero_le _, fun _ => by rw [(Probe.spawn_eq_ok h).2.2.1]; rfl⟩

theorem holders_of_run (run : Run step start history s) :
    s.holders + history.countP (·.input == .letGo) =
        start.holders + history.countP (·.input == .hold) := by
  refine run.invariant (P := fun history s => s.holders + history.countP (·.input == .letGo) =
    start.holders + history.countP (·.input == .hold)) rfl ?_
  intro history s i s' done heq h
  rw [List.countP_append, List.countP_append]
  cases move_of_step h with
  | hold h => simp; omega
  | letGo h => simp; omega
  | ended i hi =>
    cases i with
    | stop | drop => simpa using heq
    | _ => cases hi
  | tick | checkEnded | judge | close => simpa using heq

/-- Whatever the checks of a probe come to and however they are timed, the controller is told the
changes of the judgement over the checks that came to an end, in order and with the machine; while
it can be reached and the probing has not been ended, it has been told all of them as soon as no
outcome waits. At most one check is under way. Once the probing has been ended nothing is checked,
taken in or told, and the probe does not count among those who hold the controller. -/
theorem reports_follow_checks {p : Probe} (h : Probe.spawn spec machine now = .ok p) (holders : Nat)
    (run : Run step ⟨p, holders, true⟩ history s) :
    let fresh : ReadinessTracker :=
      .new spec.successThreshold.toNat spec.failureThreshold.toNat
    let changes := (fresh.observeAll (outcomes history)).filterMap (·.2)
    messages history <+: changes.map (Probe.report machine) ∧
    ((∀ x ∈ history, x.input.isEnd = false) → s.isReachable = true → s.probe.outcomes = [] →
      messages history = changes.map (Probe.report machine)) ∧
    (outcomes history).length ≤ checksBegun history ∧
    checksBegun history ≤ (outcomes history).length + 1 ∧
    (∀ earlier x later, history = earlier ++ x :: later →
      (x.input.isEnd = true →
        effects later = [] ∧ outcomes later = [] ∧ s.probe.isRunning = false) ∧
      (x.before.isReachable = false → messages (x :: later) = [])) ∧
    s.holders + history.countP (·.input == .letGo) =
      holders + history.countP (·.input == .hold) := by
  intro fresh changes
  have hfollows := follows_of_run h run
  have hchecks := checks_of_run h run
  refine ⟨hfollows.messages_prefix, fun hend hr hnone => ?_, hchecks.ended_le, hchecks.begun_le,
    ?_, holders_of_run run⟩
  · cases ht : s.probe.tracker with
    | none =>
      obtain ⟨x, hx, he⟩ := (hfollows.given_up ht).2 hr
      cases (hend x hx).symm.trans he
    | some tracker =>
      obtain ⟨judged, hall, -, htold⟩ := hfollows.judging tracker ht
      rw [hnone, List.append_nil] at hall
      rw [htold, ← hall]
      rfl
  · rintro earlier ⟨before, i, done⟩ later rfl
    obtain ⟨t, -, hx, hlater⟩ := run.of_append_cons
    refine ⟨fun he => ?_, fun hr => messages_of_run_unreachable hr ((Run.one hx).trans hlater)⟩
    have hover : IsOver t := by
      cases i with
      | stop | drop =>
        cases hx
        exact isOver_stop
      | _ => cases he
    obtain ⟨o, heffects, houtcomes⟩ := hover.run hlater
    exact ⟨heffects, houtcomes, by simp [Probe.isRunning, Ticker.isRunning, o.state_eq]⟩

def probed : Metadata := ⟨"m1", .v4 (.ofBytes 10 0 0 2)⟩

def pace : ProbeSpec :=
  { ProbeConfig.defaults with periodMs := 10, failureThreshold := 1 }.toSpec probed.address

def trial (inputs : List Input) : Option (History × LinkedProbe) :=
  (Probe.spawn pace probed 0).toOption.bind fun p => replay step ⟨p, 1, true⟩ inputs

theorem run_of_trial {inputs : List Input} (h : trial inputs = some (history, s)) :
    ∃ p, Probe.spawn pace probed 0 = .ok p ∧ Run step ⟨p, 1, true⟩ history s ∧
      history.map (·.input) = inputs := by
  unfold trial at h
  cases hp : Probe.spawn pace probed 0 with
  | error e =>
    rw [hp] at h
    cases h
  | ok p =>
    rw [hp] at h
    exact ⟨p, rfl, Run.of_replay h, map_input_of_replay h⟩

/-- One outcome waits and a check is under way when the probing is ended. -/
theorem waiting_outcome_is_given_up : ∃ p history s, Probe.spawn pace probed 0 = .ok p ∧
    Run step ⟨p, 1, true⟩ history s ∧
    history.map (·.input) = [.tick 0, .checkEnded .ready, .judge, .tick 10000000,
      .checkEnded .unready, .tick 20000000, .stop] ∧
    outcomes history = [.ready, .unready] ∧ messages history = [.ready probed] ∧
    messages history <+: [.becameReady, .becameUnready].map (Probe.report probed) ∧
    checksBegun history = 3 ∧ checksBegun history ≤ (outcomes history).length + 1 := by
  have key : (trial [.tick 0, .checkEnded .ready, .judge, .tick 10000000, .checkEnded .unready,
      .tick 20000000, .stop]).map (fun (history, _) =>
        (outcomes history, messages history, checksBegun history)) =
      some ([.ready, .unready], [.ready probed], 3) := by decide +kernel
  obtain ⟨⟨history, s⟩, ht, he⟩ := Option.map_eq_some_iff.1 key
  obtain ⟨p, hp, run, hinputs⟩ := run_of_trial ht
  simp only [Prod.mk.injEq] at he
  obtain ⟨houtcomes, hmessages, hchecks⟩ := he
  obtain ⟨hearlier, -, -, hbegun, -⟩ := reports_follow_checks hp 1 run
  rw [show ((ReadinessTracker.new pace.successThreshold.toNat
    pace.failureThreshold.toNat).observeAll (outcomes history)).filterMap (·.2) =
      [.becameReady, .becameUnready] by rw [houtcomes]; decide] at hearlier
  exact ⟨p, history, s, hp, run, hinputs, houtcomes, hmessages, hearlier, hchecks, hbegun⟩

/-- A controller that nobody holds any more is not told that its machine is not ready, though the
probing goes on and no outcome waits. -/
theorem unheld_controller_is_not_told : ∃ p history s, Probe.spawn pace probed 0 = .ok p ∧
    Run step ⟨p, 1, true⟩ history s ∧ (∀ x ∈ history, x.input.isEnd = false) ∧
    s.probe.isRunning = true ∧ s.probe.ticker.isFiring = false ∧ s.probe.outcomes = [] ∧
    messages history = [.ready probed] ∧
    ((ReadinessTracker.new pace.successThreshold.toNat pace.failureThreshold.toNat).observeAll
      (outcomes history)).filterMap (·.2) = [.becameReady, .becameUnready] := by
  have key : (trial [.tick 0, .checkEnded .ready, .judge, .letGo, .tick 10000000,
      .checkEnded .unready, .judge]).map (fun (history, s) =>
        (s.probe.isRunning, s.probe.ticker.isFiring, s.probe.outcomes, messages history,
          outcomes history)) =
      some (true, false, [], [.ready probed], [.ready, .unready]) := by decide +kernel
  obtain ⟨⟨history, s⟩, ht, he⟩ := Option.map_eq_some_iff.1 key
  obtain ⟨p, hp, run, hinputs⟩ := run_of_trial ht
  simp only [Prod.mk.injEq] at he
  obtain ⟨hrunning, hfiring, houtcomes, hmessages, hall⟩ := he
  refine ⟨p, history, s, hp, run, fun x hx => ?_, hrunning, hfiring, houtcomes, hmessages, ?_⟩
  · have hi : x.input ∈ history.map (·.input) := List.mem_map_of_mem hx
    rw [hinputs] at hi
    revert hi
    generalize x.input = i
    revert i
    decide
  · rw [hall]
    decide

end

end LinkedProbe

end MachineFleet
