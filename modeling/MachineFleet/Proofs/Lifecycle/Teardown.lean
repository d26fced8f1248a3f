import MachineFleet.Proofs.Lifecycle.Phases
import MachineFleet.Proofs.Run

namespace MachineFleet.Controller

inductive Input where
  | post (m : Message)
  | act (s : Surroundings) (a : Action)

def feed (c : Controller) : Input → Option (Controller × List Effect)
  | .post m => (c.post? m).map (·, [])
  | .act s a => c.step s a

abbrev Episode := Happening Controller Input Effect

theorem feed_cases {c c' : Controller} {i : Input} {effects : List Effect}
    (h : feed c i = some (c', effects)) :
    (∃ m, i = .post m ∧ c' = c.postIfHeld true m ∧ effects = []) ∨
      ∃ s a, i = .act s a ∧ Move s c a c' effects := by
  cases i with
  | post m =>
    simp only [feed, Option.map_eq_some_iff, Prod.mk.injEq] at h
    obtain ⟨c', hc, rfl, rfl⟩ := h
    exact .inl ⟨m, rfl, by simp [postIfHeld, hc], rfl⟩
  | act s a => exact .inr ⟨s, a, rfl, move_of_step h⟩

def Episode.did (x : Episode) (a : Action) : Prop := ∃ s, x.input = .act s a

/-- Whether an effect changes the machine or what it leaves behind. -/
def Effect.isDeed : Effect → Bool
  | .call c => c != .isolatedRoot
  | .removeRoot _ => true
  | _ => false

@[simp] theorem isDeed_call (call : DriverCall) :
    (Effect.call call).isDeed = (call != .isolatedRoot) := rfl

@[simp] theorem isDeed_removeRoot (root : Path) : (Effect.removeRoot root).isDeed = true := rfl

@[simp] theorem isDeed_answer (reply : ReplyId) (answer : Answer) :
    (Effect.answer reply answer).isDeed = false := rfl

@[simp] theorem isDeed_event (event : FleetEvent) : (Effect.event event).isDeed = false := rfl

@[simp] theorem isDeed_check (url : Url) (timeout : Duration) :
    (Effect.check url timeout).isDeed = false := rfl

def deeds (history : List Episode) : List Effect :=
  history.flatMap fun x => x.effects.filter (·.isDeed)

def cleanup (id : String) (root : Option Path) : List Effect :=
  .call (.releaseNetwork id) :: (root.map .removeRoot).toList

def gracefulEnding (id : String) (root : Option Path) : List Effect :=
  .call .start :: .call .shutdown :: cleanup id root

def forcedEnding (id : String) (root : Option Path) : List Effect :=
  .call .start :: .call .shutdown :: .call .kill :: cleanup id root

def exitEnding (id : String) (root : Option Path) : List Effect :=
  .call .start :: cleanup id root

def endings (id : String) (root : Option Path) : List (List Effect) :=
  [gracefulEnding id root, forcedEnding id root, exitEnding id root]

def HasStarted (history : List Episode) : Prop :=
  ∃ x ∈ history, ∃ machine, x.did (.driverStarted (.ok machine))

def ShutdownFailed (history : List Episode) : Prop :=
  ∃ x ∈ history, ∃ e, x.did (.driverShutDown (some e))

/-- The shutdown, begun by one step, was under way when another one found its time to be up. -/
def ShutdownOverdue (timeout : Duration) (history : List Episode) : Prop :=
  ∃ x ∈ history, ∃ y ∈ history, ∃ s s' a,
    x.input = .act s a ∧ .call .shutdown ∈ x.effects ∧
    y.input = .act s' .shutdownExpired ∧ (∃ t deadline, y.before.phase = .shuttingDown t deadline) ∧
    s.now + timeout ≤ s'.now

/-- The news of the machine's exit was taken from the mailbox while the machine ran. -/
def ExitTaken (history : List Episode) : Prop :=
  ∃ x ∈ history, ∃ run failure rest, x.did .receive ∧ x.before.phase = .started run ∧
    x.before.mailbox = .runFinished failure :: rest

structure Names (history : List Episode) (id : String) (root : Option Path) : Prop where
  id : ∀ x ∈ history, ∀ machine, x.did (.driverStarted (.ok machine)) → machine.id = id
  root : ∀ x ∈ history, ∀ failure r, x.did (.networkReleased failure r) → r = root

@[simp] theorem deeds_nil : deeds [] = [] := rfl

@[simp] theorem deeds_append (h h' : List Episode) : deeds (h ++ h') = deeds h ++ deeds h' :=
  List.flatMap_append

@[simp] theorem deeds_singleton (x : Episode) : deeds [x] = x.effects.filter (·.isDeed) := by
  simp [deeds]

theorem filter_dropReply (m : Message) : (dropReply m).filter (·.isDeed) = [] := by
  cases m <;> rfl

@[simp] theorem filter_terminate (c : Controller) : c.terminate.2.filter (·.isDeed) = [] := by
  simp only [terminate, List.filter_flatMap, filter_dropReply]
  simp

@[simp] theorem filter_finish (c : Controller) (t : Teardown) :
    (c.finish t).2.filter (·.isDeed) = [] := by
  have h := filter_terminate c
  unfold finish
  cases t.reply with
  | none => exact h
  | some reply => exact (List.filter_cons_of_neg (by simp)).trans h

theorem not_mem_of_isDeed {e : Effect} {l : List Effect} (he : e.isDeed = true)
    (hl : l.filter (·.isDeed) = []) : e ∉ l := by
  intro hm
  simpa [hl] using List.mem_filter.2 ⟨hm, he⟩

theorem mem_deeds {history : List Episode} {e : Effect} (he : e.isDeed = true) :
    e ∈ deeds history ↔ ∃ x ∈ history, e ∈ x.effects := by
  simp [deeds, he]

/-- What was done to the machine by the time the controller has come to a phase. -/
def Done (started : Prop) (id : String) (root : Option Path) : Phase → List Effect → Prop
  | .stopped, d => ¬ started ∧ d = []
  | .starting _, d => ¬ started ∧ d = [.call .start]
  | .started run, d => run.machine.id = id ∧ d = [.call .start]
  | .exiting run, d => run.machine.id = id ∧ d = [.call .start]
  | .shuttingDown t _, d => t.id = id ∧ d = [.call .start, .call .shutdown]
  | .killing t, d => t.id = id ∧ d = [.call .start, .call .shutdown, .call .kill]
  | .releasing t, d => t.id = id ∧ d ∈ endings id none
  | .removing _, d => d ∈ endings id root
  | .terminated, d => d ∈ endings id root ∨ ¬ started ∧ (d = [] ∨ d = [.call .start])

section Step

variable {s : Surroundings} {c c' : Controller} {a : Action} {effects : List Effect}
  {id : String} {root : Option Path} {started : Prop} {d : List Effect}

theorem done_setProbe {p : Probe} (h : Done started id root c.phase d) :
    Done started id root (c.setProbe p).phase d := by
  rcases phase_setProbe c p with hp | ⟨run, hc, hp⟩ | ⟨run, hc, hp⟩
  · rwa [hp]
  · rw [hc] at h
    rwa [hp]
  · rw [hc] at h
    rwa [hp]

theorem done_move (h : Move s c a c' effects) (hid : ∀ m, a = .driverStarted (.ok m) → m.id = id)
    (hroot : ∀ failure r, a = .networkReleased failure r → r = root)
    (hd : Done started id root c.phase d) :
    Done (started ∨ ∃ m, a = .driverStarted (.ok m)) id root c'.phase
      (d ++ effects.filter (·.isDeed)) := by
  cases h with
  | takeStart reply rest hp hm =>
    rw [hp] at hd
    obtain ⟨hs, rfl⟩ := hd
    exact ⟨by simpa using hs, by simp⟩
  | skip m rest hp hm hs =>
    rw [hp] at hd
    simpa [Done, hp, filter_dropReply] using hd
  | giveUp hp hm hh =>
    rw [hp] at hd
    obtain ⟨hs, rfl⟩ := hd
    exact .inr ⟨by simpa using hs, .inl (by simp)⟩
  | takeRegistered run rest hp hm =>
    rw [hp] at hd
    simpa [Done, beginProbing, apply_ite] using hd
  | takeStop run reply rest hp hm =>
    rw [hp] at hd
    obtain ⟨hi, rfl⟩ := hd
    exact ⟨hi, by simp⟩
  | takeRetire run rest hp hm =>
    rw [hp] at hd
    obtain ⟨hi, rfl⟩ := hd
    exact ⟨hi, by simp⟩
  | takeExit run failure rest hp hm =>
    rw [hp] at hd
    simpa [Done] using hd
  | passReady run machine rest hp hm =>
    rw [hp] at hd
    simpa [Done, hp] using hd
  | passUnready run machine rest hp hm =>
    rw [hp] at hd
    simpa [Done, hp] using hd
  | refuseStart run reply rest hp hm =>
    rw [hp] at hd
    simpa [Done, hp] using hd
  | letGo run hp hm hh =>
    rw [hp] at hd
    obtain ⟨hi, rfl⟩ := hd
    exact ⟨hi, by simp⟩
  | reportExit run hp =>
    rw [hp] at hd
    obtain ⟨hi, rfl⟩ := hd
    exact ⟨hi, by simp [endings, exitEnding, cleanup, hi]⟩
  | startFailed reply e hp =>
    rw [hp] at hd
    obtain ⟨hs, rfl⟩ := hd
    exact .inr ⟨by simpa using hs, .inr (by simp )⟩
  | startTaken reply machine hp ha =>
    rw [hp] at hd
    obtain ⟨hs, rfl⟩ := hd
    exact ⟨hid machine rfl, by simp⟩
  | startUnwanted reply machine hp ha =>
    rw [hp] at hd
    obtain ⟨hs, rfl⟩ := hd
    exact ⟨hid machine rfl, by simp⟩
  | shutDown t deadline hp =>
    rw [hp] at hd
    obtain ⟨hi, rfl⟩ := hd
    exact ⟨hi, by simp [endings, gracefulEnding, cleanup, hi]⟩
  | shutdownFailed t deadline e hp =>
    rw [hp] at hd
    obtain ⟨hi, rfl⟩ := hd
    exact ⟨hi, by simp⟩
  | shutdownExpired t deadline hp ht =>
    rw [hp] at hd
    obtain ⟨hi, rfl⟩ := hd
    exact ⟨hi, by simp⟩
  | killed t failure hp =>
    rw [hp] at hd
    obtain ⟨hi, rfl⟩ := hd
    exact ⟨hi, by simp [endings, forcedEnding, cleanup, hi]⟩
  | released t failure hp =>
    rw [hp] at hd
    obtain rfl := hroot failure none rfl
    exact .inl (by simpa using hd.2)
  | releasedWithRoot t failure r hp =>
    rw [hp] at hd
    obtain rfl := hroot failure (some r) rfl
    have he := hd.2
    simp only [endings, List.mem_cons, List.not_mem_nil, or_false] at he
    rcases he with rfl | rfl | rfl <;>
      simp [Done, endings, gracefulEnding, forcedEnding, exitEnding, cleanup]
  | rootRemoved t failure hp =>
    rw [hp] at hd
    exact .inl (by simpa [Done] using hd)
  | exited failure hw =>
    simpa using hd
  | tick p p' hp ht =>
    simpa using done_setProbe hd
  | checkEnded p p' outcome hp hf =>
    simpa using done_setProbe hd
  | judged p p' report hp hj =>
    cases report <;> simpa using done_setProbe hd

theorem shuttingDown_move (h : Move s c a c' effects) {t : Teardown} {deadline : Instant}
    (hp : c'.phase = .shuttingDown t deadline) :
    c.phase = .shuttingDown t deadline ∨
      .call .shutdown ∈ effects ∧ deadline = s.now + c.shutdownTimeout := by
  cases h with
  | takeStop | takeRetire | letGo | startUnwanted =>
    cases hp
    exact .inr ⟨by simp, rfl⟩
  | skip | passReady | passUnready | refuseStart => exact .inl hp
  | exited => exact .inl (by simpa using hp)
  | tick => exact .inl (phase_of_setProbe hp (by simp) (by simp))
  | checkEnded => exact .inl (phase_of_setProbe hp (by simp) (by simp))
  | judged p p' report =>
    refine .inl (phase_of_setProbe (p := p') ?_ (by simp) (by simp))
    cases report <;> simpa using hp
  | _ => cases hp

theorem exiting_move (h : Move s c a c' effects) {run : Running} (hp : c'.phase = .exiting run) :
    (∃ run', c.phase = .exiting run') ∨
      a = .receive ∧ ∃ run failure rest,
        c.phase = .started run ∧ c.mailbox = .runFinished failure :: rest := by
  have hset {p : Probe} (hq : (c.setProbe p).phase = .exiting run) :
      ∃ run', c.phase = .exiting run' := by
    rcases phase_setProbe c p with he | ⟨run', _, he⟩ | ⟨run', he, _⟩
    · exact ⟨run, he.symm.trans hq⟩
    · cases he.symm.trans hq
    · exact ⟨run', he⟩
  cases h with
  | takeExit run failure rest hq hm => exact .inr ⟨rfl, run, failure, rest, hq, hm⟩
  | skip | passReady | passUnready | refuseStart => exact .inl ⟨run, hp⟩
  | exited => exact .inl ⟨run, by simpa using hp⟩
  | tick => exact .inl (hset hp)
  | checkEnded => exact .inl (hset hp)
  | judged p p' report =>
    refine .inl (hset (p := p') ?_)
    cases report <;> simpa using hp
  | _ => cases hp

/-- Killing is called for where the shutdown has failed or its time is up, and nowhere else. -/
theorem kill_mem_move (h : Move s c a c' effects) :
    .call .kill ∈ effects ↔ (∃ e, a = .driverShutDown (some e)) ∨ a = .shutdownExpired := by
  have hk : (Effect.call .kill).isDeed = true := rfl
  cases h with
  | skip m => simpa using not_mem_of_isDeed hk (filter_dropReply m)
  | giveUp => simpa using not_mem_of_isDeed hk (filter_terminate c)
  | startFailed => simpa using not_mem_of_isDeed hk (filter_terminate c)
  | released t => simpa using not_mem_of_isDeed hk (filter_finish c t)
  | rootRemoved t => simpa using not_mem_of_isDeed hk (filter_finish c t)
  | _ => simp

theorem release_mem_move (h : Move s c a c' effects)
    (hr : .call (.releaseNetwork id) ∈ effects) :
    (∃ run, c.phase = .exiting run) ∨ (∃ t deadline, c.phase = .shuttingDown t deadline) ∨
      ∃ t, c.phase = .killing t := by
  have hk : (Effect.call (.releaseNetwork id)).isDeed = true := rfl
  cases h with
  | reportExit run hp => exact .inl ⟨run, hp⟩
  | shutDown t deadline hp => exact .inr (.inl ⟨t, deadline, hp⟩)
  | killed t failure hp => exact .inr (.inr ⟨t, hp⟩)
  | skip m => exact absurd hr (not_mem_of_isDeed hk (filter_dropReply m))
  | giveUp => exact absurd hr (not_mem_of_isDeed hk (filter_terminate c))
  | startFailed => simp [not_mem_of_isDeed hk (filter_terminate c)] at hr
  | released t => simp [not_mem_of_isDeed hk (filter_finish c t)] at hr
  | rootRemoved t => exact absurd hr (not_mem_of_isDeed hk (filter_finish c t))
  | _ => simp at hr

end Step

section Course

variable {config : ProbeConfig} {timeout : Duration} {history : List Episode} {c : Controller}
  {id : String} {root : Option Path}

structure Course (timeout : Duration) (id : String) (root : Option Path) (history : List Episode)
    (c : Controller) : Prop where
  limit : c.shutdownTimeout = timeout
  done : Done (HasStarted history) id root c.phase (deeds history)
  due : ∀ t deadline, c.phase = .shuttingDown t deadline → ∃ x ∈ history, ∃ s a,
    x.input = .act s a ∧ .call .shutdown ∈ x.effects ∧ deadline = s.now + timeout
  exit : ∀ run, c.phase = .exiting run → ExitTaken history

theorem Names.of_earlier {earlier : List Episode} (h : Names history id root)
    (hp : earlier <+: history) : Names earlier id root :=
  ⟨fun x hx => h.id x (hp.subset hx), fun x hx => h.root x (hp.subset hx)⟩

theorem ExitTaken.mono {later : List Episode} (h : ExitTaken history) :
    ExitTaken (history ++ later) := by
  obtain ⟨x, hx, h⟩ := h
  exact ⟨x, List.mem_append_left _ hx, h⟩

theorem hasStarted_snoc {x : Episode} :
    HasStarted (history ++ [x]) ↔ HasStarted history ∨ ∃ m, x.did (.driverStarted (.ok m)) := by
  constructor
  · rintro ⟨y, hy, hm⟩
    rcases List.mem_append.1 hy with hy | hy
    · exact .inl ⟨y, hy, hm⟩
    · obtain rfl := List.mem_singleton.1 hy
      exact .inr hm
  · rintro (⟨y, hy, hm⟩ | hm)
    · exact ⟨y, List.mem_append_left _ hy, hm⟩
    · exact ⟨x, by simp, hm⟩

@[simp] theorem did_act {b : Controller} {s : Surroundings} {a a' : Action} {e : List Effect} :
    Episode.did ⟨b, .act s a, e⟩ a' ↔ a = a' := by
  simp [Episode.did]

@[simp] theorem did_post {b : Controller} {m : Message} {a : Action} {e : List Effect} :
    ¬ Episode.did ⟨b, .post m, e⟩ a := by
  simp [Episode.did]

theorem Course.act {s : Surroundings} {a : Action} {c' : Controller} {effects : List Effect}
    (h : Course timeout id root history c) (hm : Move s c a c' effects)
    (hn : Names (history ++ [⟨c, .act s a, effects⟩]) id root) :
    Course timeout id root (history ++ [⟨c, .act s a, effects⟩]) c' := by
  refine ⟨(settings_move hm).2.trans h.limit, ?_, ?_, ?_⟩
  · have hd := done_move hm
      (fun m ha => hn.id ⟨c, .act s a, effects⟩ (by simp) m (by simpa using ha))
      (fun f r ha => hn.root ⟨c, .act s a, effects⟩ (by simp) f r (by simpa using ha)) h.done
    simpa [hasStarted_snoc] using hd
  · intro t deadline hp
    rcases shuttingDown_move hm hp with hp | ⟨he, hd⟩
    · obtain ⟨x, hx, hx'⟩ := h.due t deadline hp
      exact ⟨x, List.mem_append_left _ hx, hx'⟩
    · exact ⟨⟨c, .act s a, effects⟩, by simp, s, a, rfl, he, by rw [hd, h.limit]⟩
  · intro run hp
    rcases exiting_move hm hp with ⟨run', hp⟩ | ⟨rfl, run', failure, rest, hq, hr⟩
    · exact (h.exit run' hp).mono
    · exact ⟨⟨c, .act s .receive, effects⟩, by simp, run', failure, rest, by simp, hq, hr⟩

/-- A message that is put into the mailbox does nothing to the machine. -/
theorem Course.post (h : Course timeout id root history c) (m : Message) :
    Course timeout id root (history ++ [⟨c, .post m, []⟩]) (c.postIfHeld true m) := by
  refine ⟨(settings_postIfHeld ..).2.trans h.limit, ?_, ?_, ?_⟩
  · simpa [hasStarted_snoc] using h.done
  · intro t deadline hp
    rw [phase_postIfHeld] at hp
    obtain ⟨x, hx, hx'⟩ := h.due t deadline hp
    exact ⟨x, List.mem_append_left _ hx, hx'⟩
  · intro run hp
    rw [phase_postIfHeld] at hp
    exact (h.exit run hp).mono

theorem course_of_run (run : Run feed (Controller.new config timeout) history c)
    (hn : Names history id root) : Course timeout id root history c := by
  induction run with
  | nil =>
    refine ⟨rfl, ⟨by simp [HasStarted], rfl⟩, ?_, ?_⟩ <;> simp [Controller.new]
  | @snoc history c c' i effects _ h ih =>
    have ih := ih (hn.of_earlier (List.prefix_append ..))
    rcases feed_cases h with ⟨m, rfl, rfl, rfl⟩ | ⟨s, a, rfl, hm⟩
    · exact ih.post m
    · exact ih.act hm hn

/-- What brings a controller past a point of its way is done once. -/
theorem once_of_run {n : Nat} {p : Action → Prop}
    (hp : ∀ {s c a c' effects}, Move s c a c' effects → p a →
      c.phase.rank < n ∧ n ≤ c'.phase.rank)
    (run : Run feed (Controller.new config timeout) history c) :
    (c.phase.rank < n → ∀ x ∈ history, ∀ a, x.did a → ¬ p a) ∧
      ∀ x ∈ history, ∀ y ∈ history, ∀ a b, x.did a → y.did b → p a → p b → a = b := by
  induction run with
  | nil => simp
  | @snoc history c c' i effects _ h ih =>
    obtain ⟨hnone, honce⟩ := ih
    rcases feed_cases h with ⟨m, rfl, rfl, rfl⟩ | ⟨s, a, rfl, hm⟩
    -- A message changes no phase and is no step.
    · rw [phase_postIfHeld]
      grind [did_post]
    · have hrank := rank_move hm
      have hpass := hp hm
      grind [did_act]

theorem exists_machine_of_run (run : Run feed (Controller.new config timeout) history c) :
    ∃ machine, ∀ x ∈ history, ∀ m, x.did (.driverStarted (.ok m)) → m = machine := by
  obtain ⟨-, honce⟩ := once_of_run (n := 2) (p := fun a => ∃ m, a = .driverStarted (.ok m))
    (by
      rintro s c a c' effects hm ⟨m, rfl⟩
      cases hm <;> simp [*, Phase.rank]) run
  by_cases h : ∃ x ∈ history, ∃ m, x.did (.driverStarted (.ok m))
  · obtain ⟨x, hx, m, hm⟩ := h
    refine ⟨m, fun y hy m' hm' => ?_⟩
    cases honce x hx y hy _ _ hm hm' ⟨m, rfl⟩ ⟨m', rfl⟩
    rfl
  · exact ⟨⟨"", .v4 (.ofBytes 0 0 0 0)⟩, fun x hx m hm => absurd ⟨x, hx, m, hm⟩ h⟩

theorem names_of_run (run : Run feed (Controller.new config timeout) history c) :
    ∃ id root, Names history id root := by
  obtain ⟨machine, hmachine⟩ := exists_machine_of_run run
  obtain ⟨-, hrelease⟩ := once_of_run (n := 6) (p := fun a => ∃ f r, a = .networkReleased f r)
    (by
      rintro s c a c' effects hm ⟨f, r, rfl⟩
      cases hm <;> simp [*, Phase.rank]) run
  have hroot : ∃ root, ∀ x ∈ history, ∀ f r, x.did (.networkReleased f r) → r = root := by
    by_cases h : ∃ x ∈ history, ∃ f r, x.did (.networkReleased f r)
    · obtain ⟨x, hx, f, r, hm⟩ := h
      refine ⟨r, fun y hy f' r' hm' => ?_⟩
      cases hrelease x hx y hy _ _ hm hm' ⟨f, r, rfl⟩ ⟨f', r', rfl⟩
      rfl
    · exact ⟨none, fun x hx f r hm => absurd ⟨x, hx, f, r, hm⟩ h⟩
  obtain ⟨root, hroot⟩ := hroot
  exact ⟨machine.id, root, fun x hx m hm => congrArg (·.id) (hmachine x hx m hm), hroot⟩

theorem exists_form_of_done {started : Prop} {phase : Phase} {d : List Effect}
    (h : Done started id root phase d) :
    ∃ form ∈ [.call .start] :: endings id root, d <+: form := by
  have hbegun : [.call .start] ∈ [.call .start] :: endings id root := List.mem_cons_self ..
  have hforced : forcedEnding id root ∈ [.call .start] :: endings id root := by simp [endings]
  cases phase with
  | stopped => exact ⟨_, hbegun, by simp [h.2]⟩
  | starting => exact ⟨_, hbegun, by simp [h.2]⟩
  | started => exact ⟨_, hbegun, by simp [h.2]⟩
  | exiting => exact ⟨_, hbegun, by simp [h.2]⟩
  | shuttingDown => exact ⟨_, hforced, by simp [h.2, forcedEnding]⟩
  | killing => exact ⟨_, hforced, by simp [h.2, forcedEnding]⟩
  | releasing t =>
    have he := h.2
    simp only [endings, List.mem_cons, List.not_mem_nil, or_false] at he
    rcases he with rfl | rfl | rfl
    · exact ⟨gracefulEnding id root, by simp [endings], by simp [gracefulEnding, cleanup]⟩
    · exact ⟨forcedEnding id root, by simp [endings], by simp [forcedEnding, cleanup]⟩
    · exact ⟨exitEnding id root, by simp [endings], by simp [exitEnding, cleanup]⟩
  | removing => exact ⟨d, List.mem_cons_of_mem _ h, List.prefix_refl d⟩
  | terminated =>
    rcases h with h | ⟨-, rfl | rfl⟩
    · exact ⟨d, List.mem_cons_of_mem _ h, List.prefix_refl d⟩
    · exact ⟨_, hbegun, List.nil_prefix⟩
    · exact ⟨_, hbegun, List.prefix_refl _⟩

/-- A shutdown whose time was found to be up was begun that long ago. -/
theorem overdue_of_did {y : Episode} (run : Run feed (Controller.new config timeout) history c)
    (hy : y ∈ history) (hd : y.did .shutdownExpired) : ShutdownOverdue timeout history := by
  obtain ⟨earlier, hp, before, t, ht⟩ := run.of_mem hy
  obtain ⟨id, root, hn⟩ := names_of_run before
  obtain ⟨b, i, effects⟩ := y
  obtain ⟨s, rfl⟩ := hd
  have hm : Move s b .shutdownExpired t effects := move_of_step ht
  cases hm with
  | shutdownExpired t deadline hq hnow =>
    obtain ⟨x, hx, s', a', hi, he, rfl⟩ := (course_of_run before hn).due t deadline hq
    exact ⟨x, hp.subset hx, _, hy, s', s, a', hi, he, rfl, ⟨t, _, hq⟩, hnow⟩

/-- A kill goes back to a step at which the shutdown had failed or its time was up. -/
theorem kill_cause (run : Run feed (Controller.new config timeout) history c)
    (hk : .call .kill ∈ deeds history) :
    ShutdownFailed history ∨ ShutdownOverdue timeout history := by
  obtain ⟨y, hy, hk⟩ := (mem_deeds rfl).1 hk
  obtain ⟨-, -, -, t, ht⟩ := run.of_mem hy
  rcases feed_cases ht with ⟨m, -, -, he⟩ | ⟨s, a, hi, hm⟩
  · rw [he] at hk
    cases hk
  · rcases (kill_mem_move hm).1 hk with ⟨e, rfl⟩ | rfl
    · exact .inl ⟨y, hy, e, s, hi⟩
    · exact .inr (overdue_of_did run hy ⟨s, hi⟩)

theorem kill_of_cause (run : Run feed (Controller.new config timeout) history c)
    (h : ShutdownFailed history ∨ ShutdownOverdue timeout history) :
    .call .kill ∈ deeds history := by
  have hcall {x : Episode} {s : Surroundings} {a : Action} (hx : x ∈ history)
      (hi : x.input = .act s a) (ha : (∃ e, a = .driverShutDown (some e)) ∨ a = .shutdownExpired) :
      .call .kill ∈ deeds history := by
    obtain ⟨-, -, -, t, ht⟩ := run.of_mem hx
    rw [hi] at ht
    exact (mem_deeds rfl).2 ⟨x, hx, (kill_mem_move (move_of_step ht)).2 ha⟩
  rcases h with ⟨x, hx, e, s, hi⟩ | ⟨x, -, y, hy, s, s', a, -, -, hi, -⟩
  · exact hcall hx hi (.inl ⟨e, rfl⟩)
  · exact hcall hy hi (.inr rfl)

/-- A machine that is being shut down can be found to take too long once the time that it was given
has passed, and not before; then it is killed. -/
theorem exists_overdue {t : Teardown} {deadline : Instant}
    (run : Run feed (Controller.new config timeout) history c)
    (hp : c.phase = .shuttingDown t deadline) :
    ∃ x ∈ history, ∃ s a, x.input = .act s a ∧ .call .shutdown ∈ x.effects ∧
      (∀ s' : Surroundings,
        (c.step s' .shutdownExpired).isSome = true ↔ s.now + timeout ≤ s'.now) ∧
      ∀ s' : Surroundings, s.now + timeout ≤ s'.now → ∃ later c',
        Run feed (Controller.new config timeout) (history ++ later) c' ∧ c'.phase = .killing t ∧
          ShutdownOverdue timeout (history ++ later) ∧ .call .kill ∈ deeds (history ++ later) := by
  obtain ⟨id, root, hn⟩ := names_of_run run
  obtain ⟨x, hx, s, a, hi, he, rfl⟩ := (course_of_run run hn).due t deadline hp
  refine ⟨x, hx, s, a, hi, he, fun s' => isSome_shutdownExpired_iff hp, ?_⟩
  intro s' hnow
  have hstep : feed c (.act s' .shutdownExpired) =
      some ({ c with phase := .killing t }, [.call .kill]) := by
    simp [feed, step, hp, hnow]
  have hrun := run.snoc hstep
  have hover := overdue_of_did hrun List.mem_concat_self ⟨s', rfl⟩
  exact ⟨_, _, hrun, rfl, hover, kill_of_cause hrun (.inr hover)⟩

/-- The network of a machine that was never asked to shut down is released only after the machine
has exited on its own. -/
theorem exitTaken_of_release (run : Run feed (Controller.new config timeout) history c)
    (hn : Names history id root) {id' : String}
    (hr : .call (.releaseNetwork id') ∈ deeds history) (hs : .call .shutdown ∉ deeds history) :
    ExitTaken history := by
  obtain ⟨y, hy, hr⟩ := (mem_deeds rfl).1 hr
  obtain ⟨earlier, hp, before, t, ht⟩ := run.of_mem hy
  have hc := course_of_run before (hn.of_earlier hp)
  -- What was never done later was not done before either.
  have hs : .call .shutdown ∉ deeds earlier := by
    intro h
    obtain ⟨x, hx, he⟩ := (mem_deeds rfl).1 h
    exact hs ((mem_deeds rfl).2 ⟨x, hp.subset hx, he⟩)
  rcases feed_cases ht with ⟨m, -, -, he⟩ | ⟨s, a, -, hm⟩
  · rw [he] at hr
    cases hr
  · rcases release_mem_move hm hr with ⟨run', he⟩ | ⟨t, deadline, he⟩ | ⟨t, he⟩
    · obtain ⟨later, rfl⟩ := hp
      exact (hc.exit run' he).mono
    -- In both other phases the machine was already asked to shut down.
    · have hd := hc.done
      rw [he] at hd
      exact absurd (by simp [hd.2]) hs
    · have hd := hc.done
      rw [he] at hd
      exact absurd (by simp [hd.2]) hs

/-- Whoever writes to a controller and whenever it is let go: its machine is started and torn down
in one of three ways, step by step and never twice. It is killed exactly where the shutdown has
failed or its time was up, is spared the shutdown only once it has exited on its own, and is cleaned
up before the controller ends. -/
theorem deeds_follow_one_ending (run : Run feed (Controller.new config timeout) history c) :
    ∃ id root, Names history id root ∧
      (∃ form ∈ [.call .start] :: endings id root, deeds history <+: form) ∧
      (.call .kill ∈ deeds history ↔ ShutdownFailed history ∨ ShutdownOverdue timeout history) ∧
      (.call (.releaseNetwork id) ∈ deeds history → .call .shutdown ∉ deeds history →
        ExitTaken history) ∧
      (c.phase = .terminated → HasStarted history → deeds history ∈ endings id root) := by
  obtain ⟨id, root, hn⟩ := names_of_run run
  have hc := course_of_run run hn
  refine ⟨id, root, hn, exists_form_of_done hc.done, ⟨kill_cause run, kill_of_cause run⟩,
    exitTaken_of_release run hn, ?_⟩
  intro hp hs
  have hd := hc.done
  rw [hp] at hd
  exact hd.resolve_right fun h => h.1 hs

theorem exists_did_iff_of_replay {start : Controller} {inputs : List Input} {a : Action}
    (hr : replay feed start inputs = some (history, c)) :
    (∃ x ∈ history, Episode.did x a) ↔ ∃ s, .act s a ∈ inputs := by
  simp only [mem_inputs_of_replay hr]
  constructor
  · rintro ⟨x, hx, s, hi⟩
    exact ⟨s, x, hx, hi⟩
  · rintro ⟨s, x, hx, hi⟩
    exact ⟨x, hx, s, hi⟩

/-- A machine that is told to retire: it refuses to shut down, cannot be killed, and keeps its
network. -/
def stubbornMachine : List Input :=
  let s : Surroundings := ⟨0, true, fun _ => true⟩
  let fault : Option Error := some (.custom "refused" [])
  [.post .registered, .post (.start 0), .act s .receive, .act s .receive,
    .act s (.driverStarted (.ok ⟨"m1", .v4 (.ofBytes 10 0 0 2)⟩)), .post .retire, .post (.start 1),
    .act s .receive, .act s (.driverShutDown fault), .act s (.driverKilled fault),
    .act s (.networkReleased fault (some "/srv/m1")), .act s (.rootRemoved fault)]

/-- A machine that says nothing when it is to shut down. -/
def hangingMachine : List Input :=
  let s (now : Instant) : Surroundings := ⟨now, true, fun _ => true⟩
  [.post (.start 0), .act (s 0) .receive,
    .act (s 1) (.driverStarted (.ok ⟨"m1", .v4 (.ofBytes 10 0 0 2)⟩)), .post (.stop 1),
    .act (s 2) .receive, .act (s 7) .shutdownExpired, .act (s 7) (.driverKilled none),
    .act (s 8) (.networkReleased none (some "/srv/m1")), .act (s 8) (.rootRemoved none)]

theorem stubborn_machine_is_killed_and_cleaned_up :
    (∃ history c, Run feed (Controller.new .defaults 5) history c ∧ c.phase = .terminated ∧
      HasStarted history ∧ .call .kill ∈ deeds history ∧
      deeds history ∈ endings "m1" (some "/srv/m1")) ∧
    ∃ history c, Run feed (Controller.new .defaults 5) history c ∧ c.phase = .terminated ∧
      HasStarted history ∧ ¬ ShutdownFailed history ∧ ShutdownOverdue 5 history ∧
      .call .kill ∈ deeds history ∧ deeds history ∈ endings "m1" (some "/srv/m1") := by
  have hends {inputs : List Input} {history : List Episode} {c : Controller}
      (hr : replay feed (Controller.new .defaults 5) inputs = some (history, c))
      (hp : c.phase = .terminated)
      (hstarted : ∃ s, .act s (.driverStarted (.ok ⟨"m1", .v4 (.ofBytes 10 0 0 2)⟩)) ∈ inputs)
      (hreleased : ∃ s failure, .act s (.networkReleased failure (some "/srv/m1")) ∈ inputs) :
      HasStarted history ∧ deeds history ∈ endings "m1" (some "/srv/m1") ∧
        (.call .kill ∈ deeds history ↔ ShutdownFailed history ∨ ShutdownOverdue 5 history) := by
    obtain ⟨x, hx, hxs⟩ := (exists_did_iff_of_replay hr).2 hstarted
    obtain ⟨s, failure, hin⟩ := hreleased
    obtain ⟨y, hy, hyr⟩ := (exists_did_iff_of_replay hr).2 ⟨s, hin⟩
    have hs : HasStarted history := ⟨x, hx, _, hxs⟩
    obtain ⟨id, root, hn, -, hkill, -, hend⟩ := deeds_follow_one_ending (Run.of_replay hr)
    obtain rfl : "m1" = id := hn.id x hx _ hxs
    obtain rfl : some "/srv/m1" = root := hn.root y hy _ _ hyr
    exact ⟨hs, hend hp hs, hkill⟩
  constructor
  · obtain ⟨⟨history, c⟩, hr⟩ :
        ∃ r, replay feed (Controller.new .defaults 5) stubbornMachine = some r := ⟨_, rfl⟩
    have hp : c.phase = .terminated := last_of_replay hr (·.phase) rfl
    have hfailed : ∃ x ∈ history, Episode.did x (.driverShutDown (some (.custom "refused" []))) :=
      (exists_did_iff_of_replay hr).2 ⟨⟨0, true, fun _ => true⟩, by simp [stubbornMachine]⟩
    obtain ⟨x, hx, hrefused⟩ := hfailed
    obtain ⟨hs, hend, hkill⟩ := hends hr hp ⟨⟨0, true, fun _ => true⟩, by simp [stubbornMachine]⟩
      ⟨⟨0, true, fun _ => true⟩, some (.custom "refused" []), by simp [stubbornMachine]⟩
    exact ⟨history, c, Run.of_replay hr, hp, hs, hkill.2 (.inl ⟨x, hx, _, hrefused⟩), hend⟩
  · obtain ⟨⟨history, c⟩, hr⟩ :
        ∃ r, replay feed (Controller.new .defaults 5) hangingMachine = some r := ⟨_, rfl⟩
    have hp : c.phase = .terminated := last_of_replay hr (·.phase) rfl
    have hwilling : ¬ ShutdownFailed history := by
      rintro ⟨x, hx, e, hd⟩
      obtain ⟨s, hin⟩ := (exists_did_iff_of_replay hr).1 ⟨x, hx, hd⟩
      simp [hangingMachine] at hin
    have hexpired : ∃ x ∈ history, Episode.did x .shutdownExpired :=
      (exists_did_iff_of_replay hr).2 ⟨⟨7, true, fun _ => true⟩, by simp [hangingMachine]⟩
    obtain ⟨x, hx, hd⟩ := hexpired
    have hover : ShutdownOverdue 5 history := overdue_of_did (Run.of_replay hr) hx hd
    obtain ⟨hs, hend, hkill⟩ := hends hr hp ⟨⟨1, true, fun _ => true⟩, by simp [hangingMachine]⟩
      ⟨⟨8, true, fun _ => true⟩, none, by simp [hangingMachine]⟩
    exact ⟨history, c, Run.of_replay hr, hp, hs, hwilling, hover, hkill.2 (.inr hover), hend⟩

end Course

end MachineFleet.Controller
