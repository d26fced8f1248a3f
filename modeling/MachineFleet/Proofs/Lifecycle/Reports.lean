import MachineFleet.Proofs.Lifecycle.Checks

namespace MachineFleet

def turn (machine : Metadata) (ready : Bool) : FleetEvent :=
  if ready then .ready machine else .unready machine

/-- The first turns of a machine's readiness. A machine is not ready at first, so they begin with
ready, and each undoes the one before. -/
def turns (machine : Metadata) (n : Nat) : List FleetEvent :=
  (List.range n).map fun i => turn machine (i % 2 == 0)

def Message.event? : Message → Option FleetEvent
  | ready machine => some (.ready machine)
  | unready machine => some (.unready machine)
  | _ => none

@[simp] theorem Message.event?_registered : Message.registered.event? = none := rfl

@[simp] theorem Message.event?_start (reply : ReplyId) : (Message.start reply).event? = none := rfl

@[simp] theorem Message.event?_ready (machine : Metadata) :
    (Message.ready machine).event? = some (.ready machine) := rfl

@[simp] theorem Message.event?_unready (machine : Metadata) :
    (Message.unready machine).event? = some (.unready machine) := rfl

@[simp] theorem turns_zero (machine : Metadata) : turns machine 0 = [] := rfl

theorem turns_succ (machine : Metadata) (n : Nat) :
    turns machine (n + 1) = turns machine n ++ [turn machine (n % 2 == 0)] := by
  simp [turns, List.range_succ]

theorem exists_turns_of_append {machine : Metadata} {told more : List FleetEvent} {n : Nat}
    (h : told ++ more = turns machine n) : ∃ i, told = turns machine i := by
  refine ⟨min told.length n, ?_⟩
  have htake : told = (turns machine n).take told.length := by
    rw [← h, List.take_left']
    rfl
  rw [htake]
  simp only [turns, ← List.map_take, List.take_range, List.length_map, List.length_range,
    Nat.min_assoc, Nat.min_self]

theorem stopped_notMem_turns {machine : Metadata} {id : String} {n : Nat} :
    .stopped id ∉ turns machine n := by
  intro h
  obtain ⟨i, -, hi⟩ := List.mem_map.1 h
  unfold turn at hi
  split at hi <;> cases hi

@[simp] theorem Probe.event?_report (machine : Metadata) (change : Transition) :
    (Probe.report machine change).event? = some (turn machine change.isReady) := by
  cases change <;> rfl

theorem Message.event?_eq_none {m : Message} : m.event? = none ↔ m.news? = none := by
  cases m <;> simp [event?, news?]

namespace Controller

def Effect.event? : Effect → Option FleetEvent
  | .event e => some e
  | _ => none

@[simp] theorem event?_event (event : FleetEvent) :
    (Effect.event event).event? = some event := rfl

@[simp] theorem event?_call (call : DriverCall) : (Effect.call call).event? = none := rfl

@[simp] theorem event?_removeRoot (root : Path) : (Effect.removeRoot root).event? = none := rfl

@[simp] theorem event?_answer (reply : ReplyId) (answer : Answer) :
    (Effect.answer reply answer).event? = none := rfl

@[simp] theorem event?_check (url : Url) (timeout : Duration) :
    (Effect.check url timeout).event? = none := rfl

def events (history : List Episode) : List FleetEvent := (trace history).filterMap Effect.event?

/-- Nobody but the probe has written news of the machine's readiness. -/
def NewsIsOwn (history : List Episode) : Prop :=
  ∀ x ∈ history, ∀ m, x.input = .post m → m.news? = none

/-- The message that the fleet knows the machine was taken from the mailbox while the machine ran.
-/
def RegistrationTaken (history : List Episode) : Prop :=
  ∃ x ∈ history, ∃ run rest, x.did .receive ∧ x.before.phase = .started run ∧
    x.before.mailbox = .registered :: rest

/-- The controller gives its machine up: it takes the request to stop or to retire it, finds that
nobody holds it any more, or that nobody waits for the machine that has just started. -/
inductive GivesUp (s : Surroundings) (c : Controller) : Action → Prop where
  | stop (run : Running) (reply : ReplyId) (rest : List Message) (hp : c.phase = .started run)
      (hm : c.mailbox = .stop reply :: rest) : GivesUp s c .receive
  | retire (run : Running) (rest : List Message) (hp : c.phase = .started run)
      (hm : c.mailbox = .retire :: rest) : GivesUp s c .receive
  | letGo (run : Running) (hp : c.phase = .started run) (hm : c.mailbox = [])
      (hh : s.held = false) : GivesUp s c .receive
  | unwanted (reply : ReplyId) (machine : Metadata) (hp : c.phase = .starting reply)
      (ha : s.awaits reply = false) : GivesUp s c (.driverStarted (.ok machine))

def GivenUp (history : List Episode) : Prop :=
  ∃ x ∈ history, ∃ s a, x.input = .act s a ∧ GivesUp s x.before a

theorem mem_events {history : List Episode} {event : FleetEvent} :
    event ∈ events history ↔ .event event ∈ trace history := by
  simp only [events, List.mem_filterMap]
  constructor
  · rintro ⟨e, he, h⟩
    cases e <;> cases h
    exact he
  · exact fun h => ⟨_, h, rfl⟩

@[simp] theorem events_snoc (history : List Episode) (x : Episode) :
    events (history ++ [x]) = events history ++ x.effects.filterMap Effect.event? := by
  simp [events]

@[simp] theorem filterMap_event?_terminate (c : Controller) :
    c.terminate.2.filterMap Effect.event? = [] := by
  rw [List.filterMap_eq_nil_iff]
  intro e he
  cases e with
  | event event => exact absurd he event_not_mem_terminate
  | _ => rfl

@[simp] theorem filterMap_event?_finish (c : Controller) (t : Teardown) :
    (c.finish t).2.filterMap Effect.event? = [] := by
  rw [List.filterMap_eq_nil_iff]
  intro e he
  cases e with
  | event event => exact absurd he event_not_mem_finish
  | _ => rfl

@[simp] theorem filterMap_event?_dropReply (m : Message) :
    (dropReply m).filterMap Effect.event? = [] := by
  cases m <;> rfl

/-- The judgement over a machine goes with the number of turns so far, and nothing is judged before
it is probed. -/
def Judged (run : Running) (n : Nat) : Prop :=
  (run.probe = none → n = 0) ∧
    ∀ p tracker, run.probe = some p → p.tracker = some tracker →
      tracker.isReady = (n % 2 == 1)

/-- What the fleet was told of a machine by the time its controller has come to a phase. While the
machine runs, the news in the mailbox goes on from there. -/
def Told (machine : Metadata) (told : List FleetEvent) (c : Controller) : Prop :=
  match c.phase with
  | .stopped => told = [] ∧ c.mailbox.filterMap Message.event? = []
  | .starting _ => told = [] ∧ c.mailbox.filterMap Message.event? = []
  | .started run => run.machine = machine ∧ ∃ n,
      told ++ c.mailbox.filterMap Message.event? = turns machine n ∧ Judged run n
  | .exiting run => run.machine = machine ∧ ∃ n, told = turns machine n
  | .shuttingDown .. => ∃ n, told = turns machine n
  | .killing _ => ∃ n, told = turns machine n
  | _ => ∃ n, told = turns machine n ∨ told = turns machine n ++ [.stopped machine.id]

section Told

variable {s : Surroundings} {c c' : Controller} {a : Action} {effects : List Effect}
  {machine : Metadata} {told : List FleetEvent} {run : Running} {p p' : Probe} {n : Nat}

theorem Judged.beginProbing {now : Instant} {config : ProbeConfig} (hj : Judged run n)
    (hb : run.probing = false → run.probe = none) :
    Judged (Controller.beginProbing now config run) n := by
  rcases beginProbing_cases now config run with ⟨-, he⟩ | ⟨hn, probe, he, hp⟩
  · rwa [he]
  · -- Probing begins only now, so nothing was told yet.
    have hzero : n = 0 := hj.1 (hb hn)
    rw [he]
    refine ⟨fun _ => hzero, fun p tracker hprobe ht => ?_⟩
    rw [(hp p hprobe).2.2] at ht
    cases ht
    rw [hzero]
    rfl

theorem Judged.setProbe (hj : Judged run n) (hp : run.probe = some p)
    (ht : p'.tracker = p.tracker) : Judged { run with probe := some p' } n := by
  refine ⟨nofun, fun q tracker hq htr => ?_⟩
  cases hq
  exact hj.2 p tracker hp (ht ▸ htr)

/-- The fleet is told of a change, and the turns go on with it. -/
theorem told_judge {report : Option Message} {held : Bool} (ho : c.isOpen = true)
    (hp : c.phase = .started run) (hprobe : run.probe = some p)
    (hj : p.judge? (held && c.isOpen) = some (p', report)) (hm : p.machine = machine)
    (ht : Told machine told c) :
    Told machine told ((report.map ((c.setProbe p').postIfHeld held)).getD (c.setProbe p')) := by
  unfold Told at ht
  rw [hp] at ht
  obtain ⟨hrun, n, hturns, hjudged⟩ := ht
  rw [setProbe_of_started hp]
  obtain ⟨tracker, outcome, rest, htr, -, hcase⟩ := Probe.judge?_cases hj
  have hready := hjudged.2 p tracker hprobe htr
  have hkeep := ReadinessTracker.isReady_observe tracker outcome
  rcases hcase with ⟨hn, rfl, rfl⟩ | ⟨change, hc, ⟨hr, rfl, rfl⟩ | ⟨-, rfl, rfl⟩⟩
  · -- The outcome confirms the judgement.
    refine ⟨hrun, n, hturns, nofun, fun q tracker' hq htr' => ?_⟩
    cases hq
    cases htr'
    rw [hkeep, hn]
    exact hready
  · have hheld : held = true := by
      rw [ho, Bool.and_true] at hr
      exact hr
    have hchange : change.isReady = (n % 2 == 0) := by
      rw [ReadinessTracker.isReady_of_change hc, hready]
      rcases Nat.mod_two_eq_zero_or_one n with h | h <;> rw [h] <;> rfl
    rw [hheld, Option.map_some, Option.getD_some, postIfHeld_of_open (by exact ho)]
    refine ⟨hrun, n + 1, ?_, nofun, fun q tracker' hq htr' => ?_⟩
    · rw [List.filterMap_append, ← List.append_assoc, hturns, turns_succ, hm]
      simp [hchange]
    · cases hq
      cases htr'
      rw [hkeep, hc, Option.map_some, Option.getD_some, hchange]
      have hnext : (n + 1) % 2 = 1 - n % 2 := by omega
      rcases Nat.mod_two_eq_zero_or_one n with h | h <;> rw [hnext, h] <;> rfl
  · -- Nobody can be reached any more, and judging ends.
    refine ⟨hrun, n, hturns, nofun, fun q tracker' hq htr' => ?_⟩
    cases hq
    cases htr'

theorem told_setProbe_exiting (hp : c.phase = .exiting run) (ht : Told machine told c)
    (p : Probe) : Told machine told (c.setProbe p) := by
  unfold Told at ht
  rw [hp] at ht
  have hset : c.setProbe p = { c with phase := .exiting { run with probe := some p } } := by
    simp [Controller.setProbe, hp]
  rw [hset]
  exact ht

theorem told_setProbe (hp : c.probe? = some p) (htr : p'.tracker = p.tracker)
    (ht : Told machine told c) : Told machine told (c.setProbe p') := by
  cases hphase : c.phase with
  | started run =>
    have hprobe : run.probe = some p := by
      rw [probe?_eq, hphase] at hp
      exact hp
    unfold Told at ht
    rw [hphase] at ht
    obtain ⟨hrun, n, hturns, hjudged⟩ := ht
    rw [setProbe_of_started hphase]
    exact ⟨hrun, n, hturns, hjudged.setProbe hprobe htr⟩
  | exiting run => exact told_setProbe_exiting hphase ht p'
  | _ =>
    rw [probe?_eq, hphase] at hp
    cases hp

theorem told_postIfHeld {held : Bool} {m : Message}
    (hm : (∀ run, c.phase ≠ .exiting run) → m.event? = none) (ht : Told machine told c) :
    Told machine told (c.postIfHeld held m) := by
  unfold Controller.postIfHeld post?
  split
  · split
    · rw [Option.getD_some]
      unfold Told at ht ⊢
      cases hp : c.phase with
      | stopped | starting | started =>
        have hnone : m.event? = none := hm (by simp [hp])
        simpa [hp, List.filterMap_append, hnone] using ht
      | _ => simpa [hp] using ht
    · exact ht
  · exact ht

/-- The fleet is told of the machine's readiness in turns, and last of its exit. -/
theorem told_move (h : Move s c a c' effects) (hs : Sound c)
    (hm : ∀ m, a = .driverStarted (.ok m) → m = machine) (ht : Told machine told c) :
    Told machine (told ++ effects.filterMap Effect.event?) c' := by
  have hbefore := ht
  -- What holds in a phase is read off where the phase is known.
  unfold Told at ht
  cases h with
  | takeStart reply rest hp hmail =>
    rw [hp] at ht
    have hrest : rest.filterMap Message.event? = [] := by
      simpa [hmail, List.filterMap_cons] using ht.2
    exact ⟨by simp [ht.1], hrest⟩
  | skip m rest hp hmail hskip =>
    rw [hp] at ht
    have hnews : (m :: rest).filterMap Message.event? = [] := hmail ▸ ht.2
    have hrest : rest.filterMap Message.event? = [] := by
      rw [List.filterMap_eq_nil_iff] at hnews ⊢
      exact fun x hx => hnews x (List.mem_cons_of_mem _ hx)
    unfold Told
    simp only [hp, filterMap_event?_dropReply, List.append_nil]
    exact ⟨ht.1, hrest⟩
  | giveUp hp hmail hh =>
    rw [hp] at ht
    exact ⟨0, .inl (by simp [ht.1])⟩
  | takeRegistered run rest hp hmail =>
    rw [hp, hmail] at ht
    obtain ⟨hrun, n, hturns, hjudged⟩ := ht
    refine ⟨by simpa using hrun, n, by simpa [List.filterMap_cons] using hturns, ?_⟩
    exact hjudged.beginProbing (hs.probing run (by rw [hp]; rfl))
  | takeStop run reply rest hp hmail =>
    rw [hp] at ht
    obtain ⟨-, n, hturns, -⟩ := ht
    simpa [Told, List.filterMap_cons] using exists_turns_of_append hturns
  | takeRetire run rest hp hmail =>
    rw [hp] at ht
    obtain ⟨-, n, hturns, -⟩ := ht
    simpa [Told, List.filterMap_cons] using exists_turns_of_append hturns
  | takeExit run failure rest hp hmail =>
    rw [hp] at ht
    obtain ⟨hrun, n, hturns, -⟩ := ht
    exact ⟨hrun, by simpa using exists_turns_of_append hturns⟩
  | passReady run machine' rest hp hmail =>
    rw [hp, hmail] at ht
    unfold Told
    simp only [hp]
    obtain ⟨hrun, n, hturns, hjudged⟩ := ht
    exact ⟨hrun, n, by simpa [List.filterMap_cons] using hturns, hjudged⟩
  | passUnready run machine' rest hp hmail =>
    rw [hp, hmail] at ht
    unfold Told
    simp only [hp]
    obtain ⟨hrun, n, hturns, hjudged⟩ := ht
    exact ⟨hrun, n, by simpa [List.filterMap_cons] using hturns, hjudged⟩
  | refuseStart run reply rest hp hmail =>
    rw [hp, hmail] at ht
    unfold Told
    simp only [hp]
    obtain ⟨hrun, n, hturns, hjudged⟩ := ht
    exact ⟨hrun, n, by simpa [List.filterMap_cons] using hturns, hjudged⟩
  | letGo run hp hmail hh =>
    rw [hp] at ht
    obtain ⟨-, n, hturns, -⟩ := ht
    simpa [Told, List.filterMap_cons] using exists_turns_of_append hturns
  | reportExit run hp =>
    rw [hp] at ht
    obtain ⟨hrun, n, hturns⟩ := ht
    exact ⟨n, .inr (by simp [List.filterMap_cons, hturns, hrun])⟩
  | startFailed reply e hp =>
    rw [hp] at ht
    exact ⟨0, .inl (by simp [ht.1, List.filterMap_cons])⟩
  | startTaken reply machine' hp ha =>
    rw [hp] at ht
    refine ⟨hm machine' rfl, 0, by simp [ht.1, ht.2, List.filterMap_cons], fun _ => rfl, ?_⟩
    intro p tracker hprobe
    cases hprobe
  | startUnwanted reply machine' hp ha =>
    rw [hp] at ht
    exact ⟨0, by simp [ht.1, List.filterMap_cons]⟩
  | shutDown t deadline hp =>
    rw [hp] at ht
    obtain ⟨n, hturns⟩ := ht
    exact ⟨n, .inl (by simp [List.filterMap_cons, hturns])⟩
  | shutdownFailed t deadline e hp =>
    rw [hp] at ht
    simpa [Told, List.filterMap_cons] using ht
  | shutdownExpired t deadline hp hd =>
    rw [hp] at ht
    simpa [Told, List.filterMap_cons] using ht
  | killed t failure hp =>
    rw [hp] at ht
    obtain ⟨n, hturns⟩ := ht
    exact ⟨n, .inl (by simp [List.filterMap_cons, hturns])⟩
  | released t failure hp =>
    rw [hp] at ht
    simpa [Told, List.filterMap_cons] using ht
  | releasedWithRoot t failure root hp =>
    rw [hp] at ht
    simpa [Told, List.filterMap_cons] using ht
  | rootRemoved t failure hp =>
    rw [hp] at ht
    simpa [Told, List.filterMap_cons] using ht
  | exited failure hw =>
    rw [List.filterMap_nil, List.append_nil]
    exact told_postIfHeld (fun _ => rfl) hbefore
  | tick p p' hp htick =>
    have htracker : p'.tracker = p.tracker := by
      obtain ⟨ticker, rfl⟩ := Probe.tick?_eq htick
      rfl
    simpa [List.filterMap_cons] using told_setProbe hp htracker hbefore
  | checkEnded p p' outcome hp hf =>
    have htracker : p'.tracker = p.tracker := by
      obtain ⟨ticker, rfl⟩ := Probe.finish?_eq hf
      rfl
    simpa using told_setProbe hp htracker hbefore
  | judged p p' report hp hj =>
    rw [List.filterMap_nil, List.append_nil]
    cases hphase : c.phase with
    | started run =>
      have hprobe : run.probe = some p := by
        rw [probe?_eq, hphase] at hp
        exact hp
      have hrun : c.phase.running? = some run := by
        rw [hphase]
        rfl
      have ho : c.isOpen = true := hs.isOpen (by simp [hphase, Phase.rank])
      rw [hphase] at ht
      exact told_judge ho hphase hprobe hj ((hs.machine run p hrun hprobe).trans ht.1) hbefore
    | exiting run =>
      have hset := told_setProbe_exiting hphase hbefore p'
      cases report with
      | none => exact hset
      | some m =>
        refine told_postIfHeld (fun hn => ?_) hset
        exact absurd (by simp [Controller.setProbe, hphase]) (hn { run with probe := some p' })
    | _ =>
      rw [probe?_eq, hphase] at hp
      cases hp

end Told

section Silence

variable {s : Surroundings} {c c' : Controller} {a : Action} {effects : List Effect}

/-- Nothing is known of the machine's readiness and no check begins, until the message is taken that
the fleet knows it. -/
theorem quiet_move (h : Move s c a c' effects) (hp : c.probe? = none)
    (hmail : ∀ m ∈ c.mailbox, m.news? = none) :
    (a = .receive ∧ ∃ run rest, c.phase = .started run ∧ c.mailbox = .registered :: rest) ∨
      c'.probe? = none ∧ (∀ m ∈ c'.mailbox, m.news? = none) ∧
        ∀ e ∈ effects, e.isCheck = false ∧ e.news? = none := by
  by_cases hreg : a = .receive ∧ ∃ run rest,
      c.phase = .started run ∧ c.mailbox = .registered :: rest
  · exact .inl hreg
  refine .inr ⟨?_, fun m hm => ?_, fun e he => ⟨?_, ?_⟩⟩
  · cases h with
    | takeRegistered run rest hq hm => exact absurd ⟨rfl, run, rest, hq, hm⟩ hreg
    | skip | passReady | passUnready | refuseStart => exact hp
    | takeExit run failure rest hq =>
      rw [probe?_eq, hq] at hp
      exact hp
    | exited => rwa [probe?_postIfHeld]
    | tick p p' hq => cases hp.symm.trans hq
    | checkEnded p p' outcome hq => cases hp.symm.trans hq
    | judged p p' report hq => cases hp.symm.trans hq
    | _ => rfl
  · rcases mailbox_move h hm with hm | ⟨failure, rfl⟩ | ⟨p, change, hq, -⟩
    · exact hmail m hm
    · rfl
    · cases hp.symm.trans hq
  · rw [← Bool.not_eq_true]
    intro hcheck
    obtain ⟨-, -, p, p', hq, -⟩ := check_move h he hcheck
    cases hp.symm.trans hq
  · cases e with
    | event event =>
      rcases event_move h he with ⟨run, -, rfl, -⟩ | ⟨machine, rest, -, -, hcase⟩
      · rfl
      -- News that is passed on was in the mailbox.
      · rcases hcase with ⟨hm, rfl⟩ | ⟨hm, rfl⟩
        · cases hmail _ (by rw [hm]; exact List.mem_cons_self ..)
        · cases hmail _ (by rw [hm]; exact List.mem_cons_self ..)
    | _ => rfl

theorem exists_running_of_event {event : FleetEvent} (h : Move s c a c' effects)
    (he : .event event ∈ effects) : ∃ running, c.phase.running? = some running := by
  cases h with
  | passReady run machine rest hp => exact ⟨run, by rw [hp]; rfl⟩
  | passUnready run machine rest hp => exact ⟨run, by rw [hp]; rfl⟩
  | reportExit run hp => exact ⟨run, by rw [hp]; rfl⟩
  | skip =>
    obtain ⟨_, _, hanswer⟩ := exists_answer_of_mem_dropReply he
    cases hanswer
  | giveUp => exact absurd he event_not_mem_terminate
  | startFailed =>
    exact absurd ((List.mem_cons.1 he).resolve_left (by simp)) event_not_mem_terminate
  | released => exact absurd ((List.mem_cons.1 he).resolve_left (by simp)) event_not_mem_finish
  | rootRemoved => exact absurd he event_not_mem_finish
  | _ => simp at he

theorem quiet_of_isTornDown {history : List Episode} (run : Run feed c history c')
    (ht : c.phase.IsTornDown) :
    c'.phase.IsTornDown ∧ ∀ event, .event event ∉ trace history := by
  refine run.invariant
    (P := fun history c' => c'.phase.IsTornDown ∧ ∀ event, .event event ∉ trace history)
    ⟨ht, fun _ => nofun⟩ ?_
  rintro history c i c' effects ⟨ht, hquiet⟩ h
  rcases feed_cases h with ⟨m, rfl, rfl, rfl⟩ | ⟨s, a, rfl, hmove⟩
  · exact ⟨by rwa [phase_postIfHeld], by simpa using hquiet⟩
  · refine ⟨isTornDown_move hmove ht, fun event he => ?_⟩
    rw [trace_append, trace_singleton] at he
    rcases List.mem_append.1 he with he | he
    · exact hquiet event he
    · obtain ⟨running, hr⟩ := exists_running_of_event hmove he
      cases ht.2.symm.trans hr

theorem givesUp_move (hg : GivesUp s c a) (h : Move s c a c' effects) :
    effects = [.call .shutdown] ∧ c.phase.rank ≤ 2 := by
  have hsame {c₁ : Controller} (hm : Move s c a c₁ [.call .shutdown]) :
      effects = [.call .shutdown] := by
    have he := (step_of_move h).symm.trans (step_of_move hm)
    exact (Prod.mk.inj (Option.some.inj he)).2
  cases hg with
  | stop run reply rest hp hm =>
    exact ⟨hsame (.takeStop run reply rest hp hm), by simp [hp, Phase.rank]⟩
  | retire run rest hp hm => exact ⟨hsame (.takeRetire run rest hp hm), by simp [hp, Phase.rank]⟩
  | letGo run hp hm hh => exact ⟨hsame (.letGo run hp hm hh), by simp [hp, Phase.rank]⟩
  | unwanted reply machine hp ha =>
    exact ⟨hsame (.startUnwanted reply machine hp ha), by simp [hp, Phase.rank]⟩

end Silence

section Runs

variable {config : ProbeConfig} {timeout : Duration} {history : List Episode}
  {s : Surroundings} {c c' : Controller} {a : Action} {effects : List Effect} {machine : Metadata}

theorem told_of_run (run : Run feed (Controller.new config timeout) history c)
    (hm : ∀ x ∈ history, ∀ m, x.did (.driverStarted (.ok m)) → m = machine)
    (own : NewsIsOwn history) : Told machine (events history) c := by
  induction run with
  | nil => exact ⟨rfl, rfl⟩
  | @snoc history c c' i effects run h ih =>
    have ht := ih (fun x hx => hm x (List.mem_append_left _ hx))
      (fun x hx => own x (List.mem_append_left _ hx))
    rw [events_snoc]
    rcases feed_cases h with ⟨m, rfl, rfl, rfl⟩ | ⟨s, a, rfl, hmove⟩
    · rw [List.filterMap_nil, List.append_nil]
      have hnews : m.news? = none := own ⟨c, .post m, []⟩ (by simp) m rfl
      exact told_postIfHeld (fun _ => Message.event?_eq_none.2 hnews) ht
    · refine told_move hmove (sound_of_run run) (fun m ha => ?_) ht
      exact hm ⟨c, .act s a, effects⟩ (by simp) m (by simp [ha])

theorem exists_start_of_run (run : Run feed (Controller.new config timeout) history c)
    {running : Running} (hr : c.phase.running? = some running) :
    ∃ x ∈ history, Episode.did x (.driverStarted (.ok running.machine)) := by
  induction run generalizing running with
  | nil => cases hr
  | @snoc history c c' i effects run h ih =>
    have hearlier {before : Running} (hb : c.phase.running? = some before) :
        ∃ x ∈ history ++ [⟨c, i, effects⟩],
          Episode.did x (.driverStarted (.ok before.machine)) := by
      obtain ⟨x, hx, hdid⟩ := ih hb
      exact ⟨x, List.mem_append_left _ hx, hdid⟩
    rcases feed_cases h with ⟨m, rfl, rfl, rfl⟩ | ⟨s, a, rfl, hmove⟩
    · rw [phase_postIfHeld] at hr
      exact hearlier hr
    · rcases running?_move hmove hr with ⟨before, hb, he⟩ | ⟨reply, -, rfl⟩
      · exact he ▸ hearlier hb
      · exact ⟨⟨c, .act s _, effects⟩, by simp, s, rfl⟩

theorem hasStarted_of_events (run : Run feed (Controller.new config timeout) history c)
    (he : events history ≠ []) : HasStarted history := by
  obtain ⟨event, hmem⟩ := List.exists_mem_of_ne_nil _ he
  obtain ⟨earlier, before, s, a, after, effects, hp, hrun, hmove, hin⟩ :=
    exists_move_of_mem_trace run (mem_events.1 hmem)
  obtain ⟨running, hr⟩ := exists_running_of_event hmove hin
  obtain ⟨x, hx, hdid⟩ := exists_start_of_run hrun hr
  exact ⟨x, hp.subset hx, running.machine, hdid⟩

theorem quiet_of_run (run : Run feed (Controller.new config timeout) history c)
    (own : NewsIsOwn history) : RegistrationTaken history ∨
      c.probe? = none ∧ (∀ m ∈ c.mailbox, m.news? = none) ∧
        ∀ e ∈ trace history, e.isCheck = false ∧ e.news? = none := by
  induction run with
  | nil =>
    refine .inr ⟨rfl, fun m hm => ?_, fun e he => ?_⟩
    · cases hm
    · cases he
  | @snoc history c c' i effects run h ih =>
    rcases ih fun x hx => own x (List.mem_append_left _ hx) with
      ⟨x, hx, hreg⟩ | ⟨hprobe, hmail, htrace⟩
    · exact .inl ⟨x, List.mem_append_left _ hx, hreg⟩
    rcases feed_cases h with ⟨m, rfl, rfl, rfl⟩ | ⟨s, a, rfl, hmove⟩
    · refine .inr ⟨by rwa [probe?_postIfHeld], fun m' hm' => ?_, by simpa using htrace⟩
      rcases mem_postIfHeld_mailbox hm' with hm' | rfl
      · exact hmail m' hm'
      · exact own ⟨c, .post m', []⟩ (by simp) m' rfl
    · rcases quiet_move hmove hprobe hmail with
        ⟨rfl, running, rest, hp, hm⟩ | ⟨hprobe', hmail', heffects⟩
      · exact .inl ⟨⟨c, .act s .receive, effects⟩, by simp, running, rest, ⟨s, rfl⟩, hp, hm⟩
      · refine .inr ⟨hprobe', hmail', fun e he => ?_⟩
        rw [trace_append, trace_singleton] at he
        rcases List.mem_append.1 he with he | he
        · exact htrace e he
        · exact heffects e he

theorem exiting_of_running? {phase : Phase} {running : Running}
    (hr : phase.running? = some running) (hrank : 3 ≤ phase.rank) : phase = .exiting running := by
  cases phase with
  | exiting run =>
    cases hr
    rfl
  | started run => exact absurd hrank (by simp [Phase.rank])
  | _ => cases hr

/-- The fleet is told of the machine's exit exactly if the news of it was taken, and at once. -/
theorem exitTaken_iff (run : Run feed (Controller.new config timeout) history c) :
    ExitTaken history ↔
      (∃ running, c.phase = .exiting running) ∨ ∃ id, .stopped id ∈ events history := by
  obtain ⟨id, root, hn⟩ := names_of_run run
  constructor
  · intro hexit
    induction run with
    | nil =>
      obtain ⟨x, hx, -⟩ := hexit
      cases hx
    | @snoc history c c' i effects run h ih =>
      obtain ⟨x, hx, hexit⟩ := hexit
      rcases List.mem_append.1 hx with hx | hx
      · rcases ih (hn.of_earlier (List.prefix_append ..)) ⟨x, hx, hexit⟩ with
          ⟨running, hp⟩ | ⟨id', hid⟩
        · rcases feed_cases h with ⟨m, rfl, rfl, rfl⟩ | ⟨s, a, rfl, hmove⟩
          · exact .inl ⟨running, by simpa using hp⟩
          have hrank := rank_move hmove
          rw [hp] at hrank
          rcases running?_stays hmove (by rw [hp]; rfl) with
            ⟨after, ha, -⟩ | ⟨-, -, hevent⟩ | ⟨hs, -⟩
          · exact .inl ⟨after, exiting_of_running? ha hrank⟩
          · refine .inr ⟨running.machine.id, mem_events.2 ?_⟩
            rw [trace_append, trace_singleton]
            exact List.mem_append_right _ hevent
          · cases hp.symm.trans hs
        · exact .inr ⟨id', by simp [hid]⟩
      · obtain rfl := List.mem_singleton.1 hx
        obtain ⟨running, failure, rest, ⟨s, hi⟩, hp, hm⟩ := hexit
        obtain rfl : i = .act s .receive := hi
        have hstep := step_of_move (.takeExit (s := s) running failure rest hp hm)
        cases (Option.some.inj (h.symm.trans hstep))
        exact .inl ⟨running, rfl⟩
  · rintro (⟨running, hp⟩ | ⟨id', hid⟩)
    · exact (course_of_run run hn).exit running hp
    · obtain ⟨earlier, before, s, a, after, effects, hp, hrun, hmove, hin⟩ :=
        exists_move_of_mem_trace run (mem_events.1 hid)
      rcases event_move hmove hin with ⟨running, hexiting, -⟩ | ⟨_, _, -, -, ⟨-, he⟩ | ⟨-, he⟩⟩
      · have hexit := (course_of_run hrun (hn.of_earlier hp)).exit running hexiting
        obtain ⟨later, rfl⟩ := hp
        exact hexit.mono
      · cases he
      · cases he

theorem stopped_notMem_of_givenUp (run : Run feed (Controller.new config timeout) history c)
    (hg : GivenUp history) (id : String) : .stopped id ∉ events history := by
  intro hstopped
  have hexit := mem_events.1 hstopped
  obtain ⟨x, hx, s, a, hi, hg⟩ := hg
  obtain ⟨earlier, later, t, rfl, hfirst, h, hrest⟩ := run.split hx
  rw [hi] at h
  obtain ⟨heffects, hrank⟩ := givesUp_move hg (move_of_step h)
  have hend : t.phase.IsTornDown :=
    isTornDown_of_teardown (e := .call .shutdown) (move_of_step h) (by simp [heffects]) rfl
  rw [← List.singleton_append, trace_append, trace_append, trace_singleton, heffects] at hexit
  rcases List.mem_append.1 hexit with hexit | hexit
  · -- Before it was given up, the machine was not torn down.
    have hgone := (isTornDown_of_run hfirst hexit rfl).1
    omega
  · refine (quiet_of_isTornDown hrest hend).2 (.stopped id) ?_
    simpa using hexit

theorem exists_turns_of_told {told : List FleetEvent} (h : Told machine told c) :
    ∃ n, told = turns machine n ∨ told = turns machine n ++ [.stopped machine.id] := by
  unfold Told at h
  cases hp : c.phase with
  | stopped | starting =>
    rw [hp] at h
    exact ⟨0, .inl h.1⟩
  | started running =>
    rw [hp] at h
    obtain ⟨-, n, hturns, -⟩ := h
    obtain ⟨i, hi⟩ := exists_turns_of_append hturns
    exact ⟨i, .inl hi⟩
  | exiting running =>
    rw [hp] at h
    obtain ⟨-, n, hturns⟩ := h
    exact ⟨n, .inl hturns⟩
  | shuttingDown | killing =>
    rw [hp] at h
    obtain ⟨n, hturns⟩ := h
    exact ⟨n, .inl hturns⟩
  | releasing | removing | terminated =>
    rw [hp] at h
    exact h

/-- A controller whose readiness nobody else writes about tells the fleet of one machine, the one
that its driver has started: that it is ready, that it is not, and so on in turns, and last at most
that it has exited. Before the registration is taken nothing is checked and no news of readiness is
told; no check begins while another one is under way, nor once the teardown has begun. The exit is
told exactly if the news of it was taken, and never of a machine that was given up. -/
theorem reports_take_turns (run : Run feed (Controller.new config timeout) history c)
    (own : NewsIsOwn history) :
    (∃ machine n, (∀ x ∈ history, ∀ m, x.did (.driverStarted (.ok m)) → m = machine) ∧
      (events history ≠ [] → HasStarted history) ∧
      (events history = turns machine n ∨
        events history = turns machine n ++ [.stopped machine.id])) ∧
    (∀ earlier, earlier <+: history → ¬ RegistrationTaken earlier →
      checksBegun earlier = 0 ∧ ∀ event ∈ events earlier, event.news? = none) ∧
    (∀ earlier, earlier <+: history →
      checksEnded earlier ≤ checksBegun earlier ∧ checksBegun earlier ≤ checksEnded earlier + 1) ∧
    (trace history).Pairwise (fun e e' => e.isTeardown = true → e'.isCheck = false) ∧
    (ExitTaken history ↔
      (∃ running, c.phase = .exiting running) ∨ ∃ id, .stopped id ∈ events history) ∧
    (GivenUp history → ∀ id, .stopped id ∉ events history) := by
  refine ⟨?_, ?_, ?_, checks_before_teardown run, exitTaken_iff run, stopped_notMem_of_givenUp run⟩
  · obtain ⟨machine, hm⟩ := exists_machine_of_run run
    obtain ⟨n, hturns⟩ := exists_turns_of_told (told_of_run run hm own)
    exact ⟨machine, n, hm, hasStarted_of_events run, hturns⟩
  · intro earlier hp hn
    obtain ⟨before, hrun⟩ := run.of_prefix hp
    obtain ⟨-, -, htrace⟩ :=
      (quiet_of_run hrun fun x hx => own x (hp.subset hx)).resolve_left hn
    refine ⟨?_, fun event he => ?_⟩
    · rw [checksBegun, List.countP_eq_zero]
      intro e he
      rw [(htrace e he).1]
      exact Bool.false_ne_true
    · exact (htrace _ (mem_events.1 he)).2
  · intro earlier hp
    obtain ⟨before, hrun⟩ := run.of_prefix hp
    have hchecked := checked_of_run hrun
    exact ⟨hchecked.ended_le, hchecked.begun_le⟩

/-- A machine that is registered twice, turns out to be ready and then not, and exits in the middle
of a check. -/
def shortLivedMachine : List Input :=
  let moment (now : Instant) : Surroundings := ⟨now, true, fun _ => true⟩
  let s := moment 0
  let later := moment 1000000000
  [.post (.start 0), .act s .receive,
    .act s (.driverStarted (.ok ⟨"m1", .v4 (.ofBytes 10 0 0 2)⟩)), .post .registered,
    .post .registered, .act s .receive, .act s .receive, .act s .tick, .act s (.checkEnded .ready),
    .act s .judge, .act s .receive, .act later .tick, .act later (.checkEnded .unready),
    .act later .judge, .act (moment 2000000000) .tick, .act later .receive,
    .act later (.machineExited none), .post .retire, .act later .receive, .act later .reportExit,
    .act later (.networkReleased none none)]

theorem short_lived_machine_is_reported :
    ∃ history c, Run feed (Controller.new { ProbeConfig.defaults with failureThreshold := 1 } 5)
        history c ∧ NewsIsOwn history ∧ checksBegun history = 3 ∧ checksEnded history = 2 ∧
      ExitTaken history ∧
      ∃ n, events history =
        turns ⟨"m1", .v4 (.ofBytes 10 0 0 2)⟩ n ++ [.stopped "m1"] := by
  obtain ⟨⟨history, c⟩, hr⟩ : ∃ r,
      replay feed (Controller.new { ProbeConfig.defaults with failureThreshold := 1 } 5)
        shortLivedMachine = some r := Option.isSome_iff_exists.1 (by decide +kernel)
  have run := Run.of_replay hr
  have own : NewsIsOwn history := by
    intro x hx m hm
    have hmem : x.input ∈ shortLivedMachine := (mem_inputs_of_replay hr).2 ⟨x, hx, rfl⟩
    rw [hm] at hmem
    simp only [shortLivedMachine, List.mem_cons, List.not_mem_nil, Input.post.injEq, reduceCtorEq,
      or_false, false_or] at hmem
    rcases hmem with rfl | rfl | rfl | rfl <;> rfl
  have hevents : (events history).contains (.stopped "m1") = true :=
    history_of_replay hr (fun past => (events past).contains (.stopped "m1")) (by decide +kernel)
  have hcounts : (checksBegun history, checksEnded history) = (3, 2) :=
    history_of_replay hr (fun past => (checksBegun past, checksEnded past)) (by decide +kernel)
  have hstopped : .stopped "m1" ∈ events history := by simpa using hevents
  obtain ⟨x, hx, hstarted⟩ : ∃ x ∈ history,
      Episode.did x (.driverStarted (.ok ⟨"m1", .v4 (.ofBytes 10 0 0 2)⟩)) :=
    (exists_did_iff_of_replay hr).2 ⟨⟨0, true, fun _ => true⟩, by simp [shortLivedMachine]⟩
  obtain ⟨⟨machine, n, hm, -, hturns⟩, -, -, -, hexit, -⟩ := reports_take_turns run own
  obtain rfl := hm x hx _ hstarted
  refine ⟨history, c, run, own, congrArg (·.1) hcounts, congrArg (·.2) hcounts,
    hexit.2 (.inr ⟨_, hstopped⟩), n, ?_⟩
  refine hturns.resolve_left fun he => ?_
  rw [he] at hstopped
  exact stopped_notMem_turns hstopped

end Runs

end Controller

end MachineFleet
