import MachineFleet.Proofs.Lifecycle.Phases
import MachineFleet.Proofs.Readiness

/-!
How the outcomes of a machine's checks become news of its readiness: the judgement is the one that
the outcomes lead to, and the news that is under way brings whoever follows it up to that judgement.
-/
namespace MachineFleet

def settle (ready : Bool) (news : List Bool) : Bool := news.foldl (fun _ b => b) ready

@[simp] theorem settle_nil (ready : Bool) : settle ready [] = ready := rfl

@[simp] theorem settle_cons (ready b : Bool) (news : List Bool) :
    settle ready (b :: news) = settle b news := rfl

@[simp] theorem settle_append (ready : Bool) (news more : List Bool) :
    settle ready (news ++ more) = settle (settle ready news) more := by
  simp [settle]

def Message.news? : Message → Option Bool
  | ready _ => some true
  | unready _ => some false
  | _ => none

def FleetEvent.news? : FleetEvent → Option Bool
  | ready _ => some true
  | unready _ => some false
  | stopped _ => none

@[simp] theorem Probe.news?_report (machine : Metadata) (change : Transition) :
    (Probe.report machine change).news? = some change.isReady := by
  cases change <;> rfl

namespace Controller

def Effect.news? : Effect → Option Bool
  | .event e => e.news?
  | _ => none

def Action.outcome? : Action → Option Signal
  | checkEnded outcome => some outcome
  | _ => none

/-- What holds of a controller in all its states: its mailbox is open until its machine has exited,
and a probe is made once, for its own machine. -/
structure Sound (c : Controller) : Prop where
  isOpen : c.phase.rank ≤ 2 → c.isOpen = true
  probing : ∀ run, c.phase.running? = some run → run.probing = false → run.probe = none
  machine : ∀ run p, c.phase.running? = some run → run.probe = some p → p.machine = run.machine

/-- A machine that runs is probed, its outcomes are judged in order, and whoever takes the news from
the mailbox, with this readiness so far, comes to the judgement. -/
def Tracks (fresh : ReadinessTracker) (outcomes : List Signal) (ready : Bool) (c : Controller) :
    Prop :=
  ∃ run judged waiting, c.phase = .started run ∧ outcomes = judged ++ waiting ∧
    (match run.probe with
      | none => judged = [] ∧ waiting = []
      | some p => p.outcomes = waiting ∧ p.tracker = some (fresh.after judged)) ∧
    settle ready (c.mailbox.filterMap Message.news?) = (fresh.after judged).isReady

section Tracking

variable {s : Surroundings} {c c' : Controller} {a : Action} {effects : List Effect} {p p' : Probe}

theorem beginProbing_cases (now : Instant) (config : ProbeConfig) (run : Running) :
    (run.probing = true ∧ beginProbing now config run = run) ∨
      run.probing = false ∧ ∃ probe,
        beginProbing now config run = { run with probing := true, probe } ∧
        ∀ p, probe = some p → p.machine = run.machine ∧ p.outcomes = [] ∧ p.tracker =
          some (.new config.successThreshold.toNat config.failureThreshold.toNat) := by
  cases hb : run.probing with
  | true => exact .inl ⟨rfl, by simp [beginProbing, hb]⟩
  | false =>
    refine .inr ⟨rfl, (Probe.spawn (config.toSpec run.machine.address) run.machine now).toOption,
      by simp [beginProbing, hb], ?_⟩
    intro p hp
    cases hs : Probe.spawn (config.toSpec run.machine.address) run.machine now with
    | error e =>
      rw [hs] at hp
      cases hp
    | ok p' =>
      rw [hs] at hp
      cases hp
      obtain ⟨-, hmachine, -, houtcomes, htracker⟩ := Probe.spawn_eq_ok hs
      exact ⟨hmachine, houtcomes, htracker⟩

theorem probe?_eq (c : Controller) : c.probe? = c.phase.running?.bind (·.probe) := by
  unfold probe?
  cases c.phase <;> rfl

theorem Sound.setProbe (hs : Sound c) (hp : c.probe? = some p) (hm : p'.machine = p.machine) :
    Sound (c.setProbe p') := by
  rw [probe?_eq] at hp
  obtain ⟨run, hr, hp⟩ := Option.bind_eq_some_iff.1 hp
  refine ⟨?_, ?_, ?_⟩
  · rw [rank_setProbe, isOpen_setProbe]
    exact hs.isOpen
  · intro run' hr' hn
    rw [running?_setProbe, hr] at hr'
    cases hr'
    cases (hs.probing run hr hn).symm.trans hp
  · intro run' p'' hr' hp'
    rw [running?_setProbe, hr] at hr'
    cases hr'
    cases hp'
    rw [hm]
    exact hs.machine run p hr hp

theorem Sound.postIfHeld {held : Bool} {m : Message} (hs : Sound c) :
    Sound (c.postIfHeld held m) := by
  unfold Controller.postIfHeld post?
  split
  · split
    · exact ⟨hs.isOpen, hs.probing, hs.machine⟩
    · exact hs
  · exact hs

theorem Sound.of_not_running (hr : c.phase.running? = none)
    (ho : c.phase.rank ≤ 2 → c.isOpen = true) : Sound c :=
  ⟨ho, by simp [hr], by simp [hr]⟩

theorem Sound.beginProbing {run : Running} {rest : List Message} {now : Instant} (hs : Sound c)
    (hp : c.phase = .started run) :
    Sound { c with
      mailbox := rest, phase := .started (beginProbing now c.probeConfig run) } := by
  have hrun : c.phase.running? = some run := by
    rw [hp]
    rfl
  refine ⟨fun _ => hs.isOpen (by simp [hp, Phase.rank]), ?_, ?_⟩
  · intro run' hr hn
    cases hr
    rcases beginProbing_cases now c.probeConfig run with ⟨hb, he⟩ | ⟨-, probe, he, -⟩
    · rw [he, hb] at hn
      cases hn
    · rw [he] at hn
      cases hn
  · intro run' p hr hp'
    cases hr
    rw [machine_beginProbing]
    rcases beginProbing_cases now c.probeConfig run with ⟨-, he⟩ | ⟨-, probe, he, hm⟩
    · rw [he] at hp'
      exact hs.machine run p hrun hp'
    · rw [he] at hp'
      exact (hm p hp').1

theorem Sound.move (hs : Sound c) (h : Move s c a c' effects) : Sound c' := by
  cases h with
  | skip | passReady | passUnready | refuseStart => exact ⟨hs.isOpen, hs.probing, hs.machine⟩
  | takeRegistered run rest hp => exact hs.beginProbing hp
  | takeExit run failure rest hp =>
    have hr : c.phase.running? = some run := by
      rw [hp]
      rfl
    refine ⟨fun h => absurd h (by simp [Phase.rank]), ?_, ?_⟩
    · rintro run' hr'
      cases hr'
      exact hs.probing run hr
    · rintro run' p hr'
      cases hr'
      exact hs.machine run p hr
  | startTaken reply machine hp =>
    refine ⟨fun _ => hs.isOpen (by simp [hp, Phase.rank]), ?_, ?_⟩
    · rintro run' hr'
      cases hr'
      exact fun _ => rfl
    · rintro run' p hr' hp'
      cases hr'
      cases hp'
  | exited failure hw =>
    refine Sound.postIfHeld ?_
    exact ⟨hs.isOpen, hs.probing, hs.machine⟩
  | tick p p' hp ht => exact hs.setProbe hp (Probe.machine_tick? ht)
  | checkEnded p p' outcome hp hf => exact hs.setProbe hp (Probe.machine_finish? hf)
  | judged p p' report hp hj =>
    have hset := hs.setProbe hp (Probe.machine_judge? hj)
    cases report with
    | none => exact hset
    | some m => exact hset.postIfHeld
  | takeStart reply rest hp =>
    exact .of_not_running rfl fun _ => hs.isOpen (by simp [hp, Phase.rank])
  | _ => exact .of_not_running rfl fun h => absurd h (by simp [Phase.rank])

theorem setProbe_of_started {run : Running} (hp : c.phase = .started run) (p : Probe) :
    c.setProbe p = { c with phase := .started { run with probe := some p } } := by
  simp [setProbe, hp]

theorem postIfHeld_of_open {m : Message} (ho : c.isOpen = true) :
    c.postIfHeld true m = { c with mailbox := c.mailbox ++ [m] } := by
  simp [postIfHeld, post?, ho]

theorem probe?_move (h : Move s c a c' effects) (hp : c.probe? = none)
    (hm : .registered ∉ c.mailbox) : c'.probe? = none := by
  have hrun (run : Running) (hr : c.phase.running? = some run) : run.probe = none := by
    rw [probe?_eq, hr] at hp
    exact hp
  rw [probe?_eq]
  cases h with
  | skip | passReady | passUnready | refuseStart =>
    rw [← probe?_eq]
    exact hp
  | takeRegistered run rest hr hmail => exact absurd (by simp [hmail]) hm
  | takeExit run failure rest hr => exact hrun run (by rw [hr]; rfl)
  | exited failure =>
    rw [phase_postIfHeld, ← probe?_eq]
    exact hp
  | tick p p' ht => cases hp.symm.trans ht
  | checkEnded p p' outcome ht => cases hp.symm.trans ht
  | judged p p' report ht => cases hp.symm.trans ht
  | _ => rfl

variable {fresh : ReadinessTracker} {outcomes : List Signal} {ready : Bool}

/-- The judgement takes the next outcome in, and a change of it goes into the mailbox. -/
theorem Tracks.judge {report : Option Message} (ht : Tracks fresh outcomes ready c)
    (ho : c.isOpen = true) (hp : c.probe? = some p)
    (hj : p.judge? true = some (p', report)) :
    Tracks fresh outcomes ready
      ((report.map ((c.setProbe p').postIfHeld true)).getD (c.setProbe p')) := by
  obtain ⟨run, judged, waiting, hr, hout, hprobe, hset⟩ := ht
  have hrun : run.probe = some p := by
    rw [probe?_eq, hr] at hp
    exact hp
  rw [hrun] at hprobe
  obtain ⟨rfl, htracker⟩ := hprobe
  rw [setProbe_of_started hr]
  obtain ⟨tracker, outcome, rest, htr, how, hcase⟩ := Probe.judge?_cases hj
  rw [htracker] at htr
  cases htr
  have houtcomes : outcomes = (judged ++ [outcome]) ++ rest := by
    rw [hout, how, List.append_assoc]
    rfl
  have hready := ReadinessTracker.isReady_observe (fresh.after judged) outcome
  rw [← ReadinessTracker.after_concat] at hready
  rcases hcase with ⟨hn, rfl, rfl⟩ | ⟨change, hc, ⟨-, rfl, rfl⟩ | ⟨hf, -⟩⟩
  · -- The outcome confirms the judgement, and nobody hears of it.
    rw [hn] at hready
    refine ⟨_, judged ++ [outcome], rest, rfl, houtcomes, ⟨rfl, ?_⟩, hset.trans hready.symm⟩
    rw [ReadinessTracker.after_concat]
  -- The judgement turns over, and the news of it goes to the end of the mailbox.
  · rw [hc] at hready
    rw [Option.map_some, Option.getD_some, postIfHeld_of_open (by exact ho)]
    refine ⟨_, judged ++ [outcome], rest, rfl, houtcomes, ⟨rfl, ?_⟩, ?_⟩
    · rw [ReadinessTracker.after_concat]
    · simpa [List.filterMap_append] using hready.symm
  · cases hf

theorem Tracks.move (ht : Tracks fresh outcomes ready c) (hs : Sound c)
    (h : Move s c a c' effects) (hh : s.held = true) (hf : fresh =
      .new c.probeConfig.successThreshold.toNat c.probeConfig.failureThreshold.toNat)
    {after : Running} (ha : c'.phase = .started after) :
    Tracks fresh (outcomes ++ a.outcome?.toList) (settle ready (effects.filterMap Effect.news?))
      c' := by
  have hbefore := ht
  obtain ⟨run, judged, waiting, hr, hout, hprobe, hset⟩ := ht
  have ho : c.isOpen = true := hs.isOpen (by simp [hr, Phase.rank])
  have hrun {p : Probe} (hp : c.probe? = some p) : run.probe = some p := by
    rw [probe?_eq, hr] at hp
    exact hp
  cases h with
  | takeRegistered run' rest hp hm =>
    rw [hr] at hp
    cases hp
    have hmail : settle ready (rest.filterMap Message.news?) = (fresh.after judged).isReady := by
      rw [hm] at hset
      exact hset
    rcases beginProbing_cases s.now c.probeConfig run with ⟨-, he⟩ | ⟨hb, probe, he, hm⟩
    · refine ⟨_, judged, waiting, rfl, by simpa [Action.outcome?] using hout, ?_, hmail⟩
      rw [he]
      exact hprobe
    -- Probing begins only now, so no check can have ended yet.
    · have hnone := hs.probing run (by rw [hr]; rfl) hb
      rw [hnone] at hprobe
      obtain ⟨rfl, rfl⟩ := hprobe
      refine ⟨_, [], [], rfl, by simpa [Action.outcome?] using hout, ?_, hmail⟩
      rw [he]
      cases probe with
      | none => exact ⟨rfl, rfl⟩
      | some p =>
        obtain ⟨-, hw, htr⟩ := hm p rfl
        exact ⟨hw, by rw [htr, hf]; rfl⟩
  | passReady run' machine rest hp hm =>
    refine ⟨run, judged, waiting, hr, by simpa [Action.outcome?] using hout, hprobe, ?_⟩
    rw [hm] at hset
    exact hset
  | passUnready run' machine rest hp hm =>
    refine ⟨run, judged, waiting, hr, by simpa [Action.outcome?] using hout, hprobe, ?_⟩
    rw [hm] at hset
    exact hset
  | refuseStart run' reply rest hp hm =>
    refine ⟨run, judged, waiting, hr, by simpa [Action.outcome?] using hout, hprobe, ?_⟩
    rw [hm] at hset
    exact hset
  | exited failure hw =>
    rw [hh, postIfHeld_of_open (by exact ho)]
    refine ⟨run, judged, waiting, hr, by simpa [Action.outcome?] using hout, hprobe, ?_⟩
    rw [List.filterMap_append, settle_append]
    exact hset
  | tick p p' hp ht =>
    rw [setProbe_of_started hr]
    rw [hrun hp] at hprobe
    obtain ⟨ticker, rfl⟩ := Probe.tick?_eq ht
    exact ⟨_, judged, waiting, rfl, by simpa [Action.outcome?] using hout, hprobe, hset⟩
  -- The outcome waits behind those that were not judged yet.
  | checkEnded p p' outcome hp hfi =>
    rw [setProbe_of_started hr]
    rw [hrun hp] at hprobe
    obtain ⟨rfl, htr⟩ := hprobe
    obtain ⟨ticker, rfl⟩ := Probe.finish?_eq hfi
    refine ⟨_, judged, p.outcomes ++ [outcome], rfl, ?_, ⟨?_, htr⟩, hset⟩
    · simp [Action.outcome?, hout]
    · simp [htr]
  | judged p p' report hp hj =>
    rw [hh, ho] at hj
    rw [hh]
    have hjudged := hbefore.judge ho hp hj
    simpa [Action.outcome?] using hjudged
  | _ => simp_all

end Tracking

end Controller

end MachineFleet
