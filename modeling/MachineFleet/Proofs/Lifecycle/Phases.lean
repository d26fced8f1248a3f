import MachineFleet.Proofs.Lifecycle.Answers

namespace MachineFleet

def Message.isStop : Message → Bool
  | stop _ => true
  | _ => false

namespace Controller

def Phase.running? : Phase → Option Running
  | started run => some run
  | exiting run => some run
  | _ => none

def Phase.isTeardown : Phase → Bool
  | exiting _ => true
  | shuttingDown .. => true
  | killing _ => true
  | releasing _ => true
  | removing _ => true
  | _ => false

def Phase.rank : Phase → Nat
  | stopped => 0
  | starting _ => 1
  | started _ => 2
  | exiting _ => 3
  | shuttingDown .. => 3
  | killing _ => 4
  | releasing _ => 5
  | removing _ => 6
  | terminated => 7

def Phase.HasBegun (p : Phase) : Prop := 2 ≤ p.rank

def Phase.IsOver (p : Phase) : Prop := 5 ≤ p.rank

theorem Phase.HasBegun.ne_starting {p : Phase} (h : p.HasBegun) (reply : ReplyId) :
    p ≠ .starting reply := by
  rintro rfl
  exact absurd h (by simp [HasBegun, rank])

theorem Phase.IsOver.ne_started {p : Phase} (h : p.IsOver) (run : Running) : p ≠ .started run := by
  rintro rfl
  exact absurd h (by simp [IsOver, rank])

section Phases

variable {s : Surroundings} {c c' : Controller} {a : Action} {effects : List Effect} {m : Message}
  {run : Running} {id : String}

theorem running?_setProbe (c : Controller) (p : Probe) :
    (c.setProbe p).phase.running? =
      c.phase.running?.map fun run => { run with probe := some p } := by
  unfold setProbe
  split
  · rename_i run hp
    rw [hp]
    rfl
  · rename_i run hp
    rw [hp]
    rfl
  · cases hp : c.phase <;> first | rfl | simp_all

@[simp] theorem rank_setProbe (c : Controller) (p : Probe) :
    (c.setProbe p).phase.rank = c.phase.rank := by
  rcases phase_setProbe c p with he | ⟨before, hb, he⟩ | ⟨before, hb, he⟩ <;> simp [*, Phase.rank]

@[simp] theorem machine_beginProbing (now : Instant) (config : ProbeConfig) (run : Running) :
    (beginProbing now config run).machine = run.machine := by
  unfold beginProbing
  split <;> rfl

/-- Beside what others write, a mailbox receives the news of the exit and of the probe. -/
theorem mailbox_move (h : Move s c a c' effects) (hm : m ∈ c'.mailbox) :
    m ∈ c.mailbox ∨ (∃ failure, m = .runFinished failure) ∨
      ∃ p change, c.probe? = some p ∧ m = Probe.report p.machine change := by
  cases h with
  | takeStart | skip | takeRegistered | takeStop | takeRetire | takeExit | passReady | passUnready
    | refuseStart => simp_all
  | exited failure =>
    rcases mem_postIfHeld_mailbox hm with hm | rfl
    · exact .inl hm
    · exact .inr (.inl ⟨failure, rfl⟩)
  | tick p p' => exact .inl (mailbox_setProbe c p' ▸ hm)
  | checkEnded p p' => exact .inl (mailbox_setProbe c p' ▸ hm)
  | judged p p' report hp hj =>
    cases report with
    | none => exact .inl (mailbox_setProbe c p' ▸ hm)
    | some m' =>
      rcases mem_postIfHeld_mailbox hm with hm | rfl
      · exact .inl (mailbox_setProbe c p' ▸ hm)
      · obtain ⟨change, hc⟩ := Probe.exists_change hj
        exact .inr (.inr ⟨p, change, hp, hc⟩)
  | giveUp | startFailed | released | rootRemoved => cases hm
  | _ => exact .inl hm

/-- No phase is ever returned to from a later one. -/
theorem rank_move (h : Move s c a c' effects) : c.phase.rank ≤ c'.phase.rank := by
  cases h with
  | skip | passReady | passUnready | refuseStart => exact Nat.le_refl _
  | exited => simp
  | tick => simp
  | checkEnded => simp
  | judged p p' report => cases report <;> simp
  | _ => simp [*, Phase.rank]

theorem running?_move (h : Move s c a c' effects) (hr : c'.phase.running? = some run) :
    (∃ before, c.phase.running? = some before ∧ before.machine = run.machine) ∨
      ∃ reply, c.phase = .starting reply ∧ a = .driverStarted (.ok run.machine) := by
  have hset (p : Probe) (hr : (c.setProbe p).phase.running? = some run) :
      ∃ before, c.phase.running? = some before ∧ before.machine = run.machine := by
    rw [running?_setProbe] at hr
    obtain ⟨before, hb, rfl⟩ := Option.map_eq_some_iff.1 hr
    exact ⟨before, hb, rfl⟩
  cases h with
  | takeRegistered before rest hp => 
    cases hr
    exact .inl ⟨before, by rw [hp]; rfl, by simp⟩
  | takeExit before failure rest hp =>
    cases hr
    exact .inl ⟨run, by rw [hp]; rfl, rfl⟩
  | startTaken reply machine hp =>
    cases hr
    exact .inr ⟨reply, hp, rfl⟩
  | skip | passReady | passUnready | refuseStart => exact .inl ⟨run, hr, rfl⟩
  | exited => exact .inl ⟨run, by simpa using hr, rfl⟩
  | tick p p' => exact .inl (hset p' hr)
  | checkEnded p p' => exact .inl (hset p' hr)
  | judged p p' report => exact .inl (hset p' (by cases report <;> simpa using hr))
  | _ => cases hr

theorem started_move (h : Move s c a c' effects) (hp : c'.phase = .started run) :
    (∃ before, c.phase = .started before ∧ before.machine = run.machine) ∨
      ∃ reply, c.phase = .starting reply ∧ a = .driverStarted (.ok run.machine) := by
  have hr : c'.phase.running? = some run := by
    rw [hp]
    rfl
  rcases running?_move h hr with ⟨before, hb, hm⟩ | hs
  · left
    -- No phase is returned to, so the machine was started before, or is so just now.
    have hrank := rank_move h
    rw [hp] at hrank
    cases hq : c.phase with
    | started before' =>
      rw [hq] at hb
      cases hb
      exact ⟨before, rfl, hm⟩
    | exiting before' =>
      rw [hq] at hrank
      exact absurd hrank (by simp [Phase.rank])
    | _ =>
      rw [hq] at hb
      cases hb
  · exact .inr hs

theorem started_of_begun (h : Move s c a c' effects) (hb : c.phase.HasBegun)
    (hp : c'.phase = .started run) :
    ∃ before, c.phase = .started before ∧ before.machine = run.machine := by
  refine (started_move h hp).resolve_right ?_
  rintro ⟨reply, hs, -⟩
  exact hb.ne_starting reply hs

theorem running?_stays (h : Move s c a c' effects) (hr : c.phase.running? = some run) :
    (∃ after, c'.phase.running? = some after ∧ after.machine = run.machine) ∨
    (c.phase = .exiting run ∧ c'.phase.IsOver ∧ .event (.stopped run.machine.id) ∈ effects) ∨
    (c.phase = .started run ∧
      ((∃ reply, .stop reply ∈ c.mailbox) ∨ .retire ∈ c.mailbox ∨ s.held = false)) := by
  have hset (p : Probe) :
      ∃ after, (c.setProbe p).phase.running? = some after ∧ after.machine = run.machine := by
    rw [running?_setProbe, hr]
    exact ⟨_, rfl, rfl⟩
  cases h with
  | takeRegistered before rest hp =>
    rw [hp] at hr
    cases hr
    exact .inl ⟨_, rfl, by simp⟩
  | takeStop before reply rest hp hm =>
    rw [hp] at hr
    cases hr
    exact .inr (.inr ⟨hp, .inl ⟨reply, by simp [hm]⟩⟩)
  | takeRetire before rest hp hm =>
    rw [hp] at hr
    cases hr
    exact .inr (.inr ⟨hp, .inr (.inl (by simp [hm]))⟩)
  | takeExit before failure rest hp =>
    rw [hp] at hr
    cases hr
    exact .inl ⟨_, rfl, rfl⟩
  | letGo before hp hm hh =>
    rw [hp] at hr
    cases hr
    exact .inr (.inr ⟨hp, .inr (.inr hh)⟩)
  | reportExit before hp =>
    rw [hp] at hr
    cases hr
    exact .inr (.inl ⟨hp, Nat.le_refl 5, by simp⟩)
  | skip | passReady | passUnready | refuseStart => exact .inl ⟨run, hr, rfl⟩
  | exited => exact .inl ⟨run, by simpa using hr, rfl⟩
  | tick p p' => exact .inl (hset p')
  | checkEnded p p' => exact .inl (hset p')
  | judged p p' report => exact .inl (by cases report <;> simpa using hset p')
  | _ => simp_all [Phase.running?]

theorem exists_answer_of_mem_dropReply {m : Message} {e : Effect} (h : e ∈ dropReply m) :
    ∃ reply answer, e = .answer reply answer := by
  unfold dropReply at h
  split at h
  · exact ⟨_, _, List.mem_singleton.1 h⟩
  · cases h

theorem exists_answer_of_mem_terminate {e : Effect} (h : e ∈ c.terminate.2) :
    ∃ reply answer, e = .answer reply answer := by
  obtain ⟨m, -, hm⟩ := List.mem_flatMap.1 h
  exact exists_answer_of_mem_dropReply hm

theorem exists_answer_of_mem_finish {t : Teardown} {e : Effect} (h : e ∈ (c.finish t).2) :
    ∃ reply answer, e = .answer reply answer := by
  rcases List.mem_append.1 h with h | h
  · split at h
    · exact ⟨_, _, List.mem_singleton.1 h⟩
    · cases h
  · exact exists_answer_of_mem_terminate h

theorem event_not_mem_terminate {event : FleetEvent} : .event event ∉ c.terminate.2 := by
  intro h
  obtain ⟨_, _, he⟩ := exists_answer_of_mem_terminate h
  cases he

theorem event_not_mem_finish {t : Teardown} {event : FleetEvent} :
    .event event ∉ (c.finish t).2 := by
  intro h
  obtain ⟨_, _, he⟩ := exists_answer_of_mem_finish h
  cases he

theorem event_move {event : FleetEvent} (h : Move s c a c' effects) (he : .event event ∈ effects) :
    (∃ run, c.phase = .exiting run ∧ event = .stopped run.machine.id ∧ c'.phase.IsOver) ∨
      ∃ machine rest, effects = [.event event] ∧ c' = { c with mailbox := rest } ∧
        (c.mailbox = .ready machine :: rest ∧ event = .ready machine ∨
          c.mailbox = .unready machine :: rest ∧ event = .unready machine) := by
  cases h with
  | reportExit run hp =>
    simp only [List.mem_cons, Effect.event.injEq, reduceCtorEq, List.not_mem_nil, or_false] at he
    exact .inl ⟨run, hp, he, Nat.le_refl 5⟩
  | passReady run machine rest hp hm =>
    cases List.mem_singleton.1 he
    exact .inr ⟨machine, rest, rfl, rfl, .inl ⟨hm, rfl⟩⟩
  | passUnready run machine rest hp hm =>
    cases List.mem_singleton.1 he
    exact .inr ⟨machine, rest, rfl, rfl, .inr ⟨hm, rfl⟩⟩
  | skip =>
    obtain ⟨_, _, hanswer⟩ := exists_answer_of_mem_dropReply he
    cases hanswer
  | giveUp => exact absurd he event_not_mem_terminate
  | startFailed =>
    exact absurd ((List.mem_cons.1 he).resolve_left (by simp)) event_not_mem_terminate
  | released => exact absurd ((List.mem_cons.1 he).resolve_left (by simp)) event_not_mem_finish
  | rootRemoved => exact absurd he event_not_mem_finish
  | _ => simp at he

/-- Whether a step takes a message or ends what a phase waits for, once the driver has started the
machine. -/
def Action.isAdvance : Action → Bool
  | receive => true
  | reportExit => true
  | driverShutDown _ => true
  | shutdownExpired => true
  | driverKilled _ => true
  | networkReleased .. => true
  | rootRemoved _ => true
  | _ => false

/-- Whether nothing keeps a controller that has started its machine from its end: nobody holds it
any more, its machine is torn down already, or it was asked to stop. -/
def IsDoomed (held : Bool) (c : Controller) : Prop :=
  held = false ∨ 3 ≤ c.phase.rank ∨ ∃ m ∈ c.mailbox, m.isStop = true

theorem IsDoomed.of_true {held : Bool} (hd : c.IsDoomed true) : c.IsDoomed held := by
  rcases hd with hd | hd
  · cases hd
  · exact .inr hd

def toGo (c : Controller) : Nat :=
  match c.phase with
  | .started _ => 5 + c.mailbox.findIdx Message.isStop
  | p => 7 - p.rank

theorem toGo_started (hp : c.phase = .started run) :
    c.toGo = 5 + c.mailbox.findIdx Message.isStop := by
  rw [toGo, hp]

theorem toGo_of_rank (hr : 3 ≤ c.phase.rank) : c.toGo = 7 - c.phase.rank := by
  unfold toGo
  split
  · rename_i hp
    rw [hp] at hr
    exact absurd hr (by simp [Phase.rank])
  · rfl

theorem toGo_setProbe (c : Controller) (p : Probe) : (c.setProbe p).toGo = c.toGo := by
  rcases phase_setProbe c p with hp | ⟨before, hb, hp⟩ | ⟨before, hb, hp⟩
  · unfold toGo
    rw [hp, mailbox_setProbe]
  · rw [toGo_started hp, toGo_started hb, mailbox_setProbe]
  · rw [toGo, toGo, hp, hb]
    rfl

theorem isDoomed_setProbe {held : Bool} {p : Probe} (hd : c.IsDoomed held) :
    (c.setProbe p).IsDoomed held := by
  unfold IsDoomed
  rw [rank_setProbe, mailbox_setProbe]
  exact hd

theorem toGo_postIfHeld {held : Bool} (hd : c.IsDoomed held) (m : Message) :
    (c.postIfHeld held m).toGo = c.toGo := by
  by_cases hopen : held = true ∧ c.isOpen = true
  · obtain ⟨rfl, ho⟩ := hopen
    have hpost : c.postIfHeld true m = { c with mailbox := c.mailbox ++ [m] } := by
      simp [postIfHeld, post?, ho]
    rw [hpost]
    cases hp : c.phase with
    | started run =>
      have hstop : ∃ m ∈ c.mailbox, m.isStop = true := by
        rcases hd with hd | hd | hd
        · cases hd
        · rw [hp] at hd
          exact absurd hd (by simp [Phase.rank])
        · exact hd
      have hlt : c.mailbox.findIdx Message.isStop < c.mailbox.length :=
        List.findIdx_lt_length.2 hstop
      have hq : ({ c with mailbox := c.mailbox ++ [m], phase := .started run } : Controller).phase =
          .started run := rfl
      rw [toGo_started hp, toGo_started hq, List.findIdx_append, if_pos hlt]
    | _ => simp only [toGo, hp]
  · have hpost : c.postIfHeld held m = c := by
      unfold postIfHeld post?
      split
      · rename_i hh
        rw [if_neg fun ho => hopen ⟨hh, ho⟩]
        rfl
      · rfl
    rw [hpost]

theorem isDoomed_postIfHeld {held held' : Bool} (hd : c.IsDoomed held) (m : Message) :
    (c.postIfHeld held' m).IsDoomed held := by
  rcases hd with hd | hd | ⟨m', hm, hs⟩
  · exact .inl hd
  · exact .inr (.inl (by simpa using hd))
  · exact .inr (.inr ⟨m', mem_postIfHeld_of_mem hm, hs⟩)

theorem isDoomed_move (h : Move s c a c' effects) (hb : c.phase.HasBegun)
    (hd : c.IsDoomed true) : c'.IsDoomed true := by
  have hrank (hr : 3 ≤ c'.phase.rank) : c'.IsDoomed true := .inr (.inl hr)
  rcases hd with hd | hd | ⟨m, hm, hs⟩
  · cases hd
  · exact hrank (Nat.le_trans hd (rank_move h))
  -- The request stays in the mailbox until it is taken.
  have hrest {m' : Message} {rest : List Message} (hmail : c.mailbox = m' :: rest)
      (hn : m'.isStop = false) : m ∈ rest := by
    rw [hmail] at hm
    rcases List.mem_cons.1 hm with rfl | hm
    · cases hs.symm.trans hn
    · exact hm
  cases h with
  | takeRegistered run rest hp hmail => exact .inr (.inr ⟨m, hrest hmail rfl, hs⟩)
  | passReady run machine rest hp hmail | passUnready run machine rest hp hmail
    | refuseStart run reply rest hp hmail => exact .inr (.inr ⟨m, hrest hmail rfl, hs⟩)
  | exited failure hw =>
    exact isDoomed_postIfHeld (c := { c with watching := false }) (.inr (.inr ⟨m, hm, hs⟩)) _
  | tick p p' => exact isDoomed_setProbe (.inr (.inr ⟨m, hm, hs⟩))
  | checkEnded p p' => exact isDoomed_setProbe (.inr (.inr ⟨m, hm, hs⟩))
  | judged p p' report =>
    have hset : (c.setProbe p').IsDoomed true := isDoomed_setProbe (.inr (.inr ⟨m, hm, hs⟩))
    cases report with
    | none => exact hset
    | some m' => exact isDoomed_postIfHeld hset m'
  | takeStart | skip | giveUp | startFailed | startTaken | startUnwanted =>
    exact absurd hb (by simp [*, Phase.HasBegun, Phase.rank])
  | _ => exact hrank (by simp [Phase.rank])

/-- A doomed controller comes nearer to its end with every step that advances it, and does not get
away from it. -/
theorem toGo_move (h : Move s c a c' effects) (hb : c.phase.HasBegun) (hd : c.IsDoomed s.held) :
    c'.toGo ≤ c.toGo ∧ (a.isAdvance = true → c'.toGo < c.toGo) := by
  have hlt (h : c'.toGo < c.toGo) : c'.toGo ≤ c.toGo ∧ (a.isAdvance = true → c'.toGo < c.toGo) :=
    ⟨Nat.le_of_lt h, fun _ => h⟩
  -- A message that is no request to stop makes room for the next.
  have htaken {after : Controller} {before run' : Running} {m : Message} {rest : List Message}
      (hp : c.phase = .started before) (hm : c.mailbox = m :: rest) (hs : m.isStop = false)
      (hq : after.phase = .started run') (ha : after.mailbox = rest) : after.toGo < c.toGo := by
    rw [toGo_started hq, toGo_started hp, hm, ha, List.findIdx_cons, hs]
    simp
  cases h with
  | takeRegistered run rest hp hm => exact hlt (htaken hp hm rfl rfl rfl)
  | passReady run machine rest hp hm | passUnready run machine rest hp hm
    | refuseStart run reply rest hp hm => exact hlt (htaken hp hm rfl hp rfl)
  | takeStop run reply rest hp | takeRetire run rest hp | takeExit run failure rest hp
    | letGo run hp =>
    refine hlt ?_
    rw [toGo_of_rank (by simp [Phase.rank]), toGo_started hp]
    simp only [Phase.rank]
    omega
  | reportExit run hp | shutDown t deadline hp | shutdownFailed t deadline e hp
    | shutdownExpired t deadline hp | killed t failure hp | released t failure hp
    | releasedWithRoot t failure root hp | rootRemoved t failure hp =>
    refine hlt ?_
    rw [toGo_of_rank (by simp [Phase.rank]), toGo_of_rank (by simp [hp, Phase.rank]), hp]
    simp [Phase.rank]
  | exited failure hw =>
    refine ⟨Nat.le_of_eq ?_, nofun⟩
    exact toGo_postIfHeld (c := { c with watching := false }) hd _
  | tick p p' => exact ⟨Nat.le_of_eq (toGo_setProbe c p'), nofun⟩
  | checkEnded p p' => exact ⟨Nat.le_of_eq (toGo_setProbe c p'), nofun⟩
  | judged p p' report =>
    refine ⟨Nat.le_of_eq ?_, nofun⟩
    cases report with
    | none => exact toGo_setProbe c p'
    | some m => exact (toGo_postIfHeld (isDoomed_setProbe hd) m).trans (toGo_setProbe c p')
  | _ => exact absurd hb (by simp [*, Phase.HasBegun, Phase.rank])

theorem terminated_of_rank {p : Phase} (hr : 7 ≤ p.rank) : p = .terminated := by
  cases p <;> first | rfl | exact absurd hr (by simp [Phase.rank])

/-- As long as it has not ended, a doomed controller can advance. -/
theorem exists_advance (hb : c.phase.HasBegun) (hd : c.IsDoomed s.held)
    (hn : c.phase ≠ .terminated) : ∃ a, a.isAdvance = true ∧ (c.step s a).isSome = true := by
  cases hp : c.phase with
  | started run =>
    refine ⟨.receive, rfl, ?_⟩
    cases hm : c.mailbox with
    | nil =>
      have hh : s.held = false := by
        rcases hd with hd | hd | ⟨m, hmem, -⟩
        · exact hd
        · rw [hp] at hd
          exact absurd hd (by simp [Phase.rank])
        · rw [hm] at hmem
          cases hmem
      simp [step, receive?, hp, hm, hh]
    | cons m rest => simp [step, receive?, hp, hm]
  | exiting run => exact ⟨.reportExit, rfl, by simp [step, hp]⟩
  | shuttingDown t deadline => exact ⟨.driverShutDown none, rfl, by simp [step, hp]⟩
  | killing t => exact ⟨.driverKilled none, rfl, by simp [step, hp]⟩
  | releasing t => exact ⟨.networkReleased none none, rfl, by simp [step, hp]⟩
  | removing t => exact ⟨.rootRemoved none, rfl, by simp [step, hp]⟩
  | terminated => exact absurd hp hn
  | _ =>
    rw [hp] at hb
    exact absurd hb (by simp [Phase.HasBegun, Phase.rank])

/-- The time of a shutdown can be found to be up from its deadline on, whatever the driver does. -/
theorem isSome_shutdownExpired_iff {t : Teardown} {deadline : Instant}
    (hp : c.phase = .shuttingDown t deadline) :
    (c.step s .shutdownExpired).isSome = true ↔ deadline ≤ s.now := by
  simp only [step, hp]
  split
  · exact iff_of_true rfl ‹_›
  · exact iff_of_false Bool.false_ne_true ‹_›

theorem step_eq_none_of_terminated (hp : c.phase = .terminated) (ha : a.isAdvance = true) :
    c.step s a = none := by
  cases a <;> first | (cases ha; done) | simp [step, receive?, hp]

end Phases

end Controller

end MachineFleet
