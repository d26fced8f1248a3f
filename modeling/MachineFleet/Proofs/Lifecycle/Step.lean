import MachineFleet.Lifecycle.Controller

/-!
What one step of a controller can do: one rule for each way a step goes. All that is said of
controllers follows from these rules.
-/
namespace MachineFleet.Controller

inductive Move (s : Surroundings) (c : Controller) :
    Action → Controller → List Effect → Prop where
  | takeStart (reply : ReplyId) (rest : List Message) (hp : c.phase = .stopped)
      (hm : c.mailbox = .start reply :: rest) :
      Move s c .receive { c with mailbox := rest, phase := .starting reply } [.call .start]
  | skip (m : Message) (rest : List Message) (hp : c.phase = .stopped)
      (hm : c.mailbox = m :: rest) (hs : ∀ reply, m ≠ .start reply) :
      Move s c .receive { c with mailbox := rest } (dropReply m)
  | giveUp (hp : c.phase = .stopped) (hm : c.mailbox = []) (hh : s.held = false) :
      Move s c .receive c.terminate.1 c.terminate.2
  | takeRegistered (run : Running) (rest : List Message) (hp : c.phase = .started run)
      (hm : c.mailbox = .registered :: rest) :
      Move s c .receive
        { c with mailbox := rest, phase := .started (beginProbing s.now c.probeConfig run) } []
  | takeStop (run : Running) (reply : ReplyId) (rest : List Message) (hp : c.phase = .started run)
      (hm : c.mailbox = .stop reply :: rest) :
      Move s c .receive
        { c with
          mailbox := rest
          phase := .shuttingDown ⟨run.machine.id, some reply⟩ (s.now + c.shutdownTimeout) }
        [.call .shutdown]
  | takeRetire (run : Running) (rest : List Message) (hp : c.phase = .started run)
      (hm : c.mailbox = .retire :: rest) :
      Move s c .receive
        { c with
          mailbox := rest
          phase := .shuttingDown ⟨run.machine.id, none⟩ (s.now + c.shutdownTimeout) }
        [.call .shutdown]
  | takeExit (run : Running) (failure : Option Error) (rest : List Message)
      (hp : c.phase = .started run) (hm : c.mailbox = .runFinished failure :: rest) :
      Move s c .receive { c with mailbox := rest, isOpen := false, phase := .exiting run } []
  | passReady (run : Running) (machine : Metadata) (rest : List Message)
      (hp : c.phase = .started run) (hm : c.mailbox = .ready machine :: rest) :
      Move s c .receive { c with mailbox := rest } [.event (.ready machine)]
  | passUnready (run : Running) (machine : Metadata) (rest : List Message)
      (hp : c.phase = .started run) (hm : c.mailbox = .unready machine :: rest) :
      Move s c .receive { c with mailbox := rest } [.event (.unready machine)]
  | refuseStart (run : Running) (reply : ReplyId) (rest : List Message)
      (hp : c.phase = .started run) (hm : c.mailbox = .start reply :: rest) :
      Move s c .receive { c with mailbox := rest } [.answer reply .dropped]
  | letGo (run : Running) (hp : c.phase = .started run) (hm : c.mailbox = [])
      (hh : s.held = false) :
      Move s c .receive
        { c with phase := .shuttingDown ⟨run.machine.id, none⟩ (s.now + c.shutdownTimeout) }
        [.call .shutdown]
  | reportExit (run : Running) (hp : c.phase = .exiting run) :
      Move s c .reportExit { c with watching := false, phase := .releasing ⟨run.machine.id, none⟩ }
        [.event (.stopped run.machine.id), .call (.releaseNetwork run.machine.id)]
  | startFailed (reply : ReplyId) (e : Error) (hp : c.phase = .starting reply) :
      Move s c (.driverStarted (.error e)) c.terminate.1
        (.answer reply (.failed e) :: c.terminate.2)
  | startTaken (reply : ReplyId) (machine : Metadata) (hp : c.phase = .starting reply)
      (ha : s.awaits reply = true) :
      Move s c (.driverStarted (.ok machine))
        { c with watching := true, phase := .started ⟨machine, none, false⟩ }
        [.answer reply (.started machine)]
  | startUnwanted (reply : ReplyId) (machine : Metadata) (hp : c.phase = .starting reply)
      (ha : s.awaits reply = false) :
      Move s c (.driverStarted (.ok machine))
        { c with
          watching := true
          phase := .shuttingDown ⟨machine.id, none⟩ (s.now + c.shutdownTimeout) }
        [.call .shutdown]
  | shutDown (t : Teardown) (deadline : Instant) (hp : c.phase = .shuttingDown t deadline) :
      Move s c (.driverShutDown none) { c with watching := false, phase := .releasing t }
        [.call (.releaseNetwork t.id)]
  | shutdownFailed (t : Teardown) (deadline : Instant) (e : Error)
      (hp : c.phase = .shuttingDown t deadline) :
      Move s c (.driverShutDown (some e)) { c with phase := .killing t } [.call .kill]
  | shutdownExpired (t : Teardown) (deadline : Instant) (hp : c.phase = .shuttingDown t deadline)
      (hd : deadline ≤ s.now) :
      Move s c .shutdownExpired { c with phase := .killing t } [.call .kill]
  | killed (t : Teardown) (failure : Option Error) (hp : c.phase = .killing t) :
      Move s c (.driverKilled failure) { c with watching := false, phase := .releasing t }
        [.call (.releaseNetwork t.id)]
  | released (t : Teardown) (failure : Option Error) (hp : c.phase = .releasing t) :
      Move s c (.networkReleased failure none) (c.finish t).1
        (.call .isolatedRoot :: (c.finish t).2)
  | releasedWithRoot (t : Teardown) (failure : Option Error) (root : Path)
      (hp : c.phase = .releasing t) :
      Move s c (.networkReleased failure (some root)) { c with phase := .removing t }
        [.call .isolatedRoot, .removeRoot root]
  | rootRemoved (t : Teardown) (failure : Option Error) (hp : c.phase = .removing t) :
      Move s c (.rootRemoved failure) (c.finish t).1 (c.finish t).2
  | exited (failure : Option Error) (hw : c.watching = true) :
      Move s c (.machineExited failure)
        ({ c with watching := false }.postIfHeld s.held (.runFinished failure)) []
  | tick (p p' : Probe) (hp : c.probe? = some p) (ht : p.tick? s.now = some p') :
      Move s c .tick (c.setProbe p') [.check p.url p.timeout]
  | checkEnded (p p' : Probe) (outcome : Signal) (hp : c.probe? = some p)
      (hf : p.finish? outcome = some p') :
      Move s c (.checkEnded outcome) (c.setProbe p') []
  | judged (p p' : Probe) (report : Option Message) (hp : c.probe? = some p)
      (hj : p.judge? (s.held && c.isOpen) = some (p', report)) :
      Move s c .judge ((report.map ((c.setProbe p').postIfHeld s.held)).getD (c.setProbe p')) []

theorem move_of_receive? {s : Surroundings} {c c' : Controller} {effects : List Effect}
    (h : c.receive? s = some (c', effects)) : Move s c .receive c' effects := by
  unfold receive? at h
  split at h
  · rename_i m rest hp hm
    cases m with
    | start reply =>
      cases h
      exact .takeStart reply rest hp hm
    | _ =>
      cases h
      exact .skip _ rest hp hm (by simp)
  · rename_i hp hm
    split at h
    · cases h
    · rename_i hh
      cases h
      exact .giveUp hp hm (by simpa using hh)
  · rename_i run m rest hp hm
    cases m with
    | registered => cases h; exact .takeRegistered run rest hp hm
    | stop reply => cases h; exact .takeStop run reply rest hp hm
    | retire => cases h; exact .takeRetire run rest hp hm
    | runFinished failure => cases h; exact .takeExit run failure rest hp hm
    | ready machine => cases h; exact .passReady run machine rest hp hm
    | unready machine => cases h; exact .passUnready run machine rest hp hm
    | start reply => cases h; exact .refuseStart run reply rest hp hm
  · rename_i run hp hm
    split at h
    · cases h
    · rename_i hh
      cases h
      exact .letGo run hp hm (by simpa using hh)
  · cases h

theorem move_of_step {s : Surroundings} {c c' : Controller} {a : Action} {effects : List Effect}
    (h : c.step s a = some (c', effects)) : Move s c a c' effects := by
  cases a with
  | receive => exact move_of_receive? h
  | reportExit =>
    simp only [step] at h
    split at h
    · rename_i run hp
      cases h
      exact .reportExit run hp
    · cases h
  | driverStarted result =>
    simp only [step] at h
    split at h
    · rename_i reply hp
      cases result with
      | error e => cases h; exact .startFailed reply e hp
      | ok machine =>
        simp only [afterStart] at h
        split at h
        · rename_i ha
          cases h
          exact .startTaken reply machine hp ha
        · rename_i ha
          cases h
          exact .startUnwanted reply machine hp (by simpa using ha)
    · cases h
  | driverShutDown failure =>
    simp only [step] at h
    split at h
    · rename_i t deadline hp
      cases failure with
      | none => cases h; exact .shutDown t deadline hp
      | some e => cases h; exact .shutdownFailed t deadline e hp
    · cases h
  | shutdownExpired =>
    simp only [step] at h
    split at h
    · rename_i t deadline hp
      split at h
      · rename_i hd
        cases h
        exact .shutdownExpired t deadline hp hd
      · cases h
    · cases h
  | driverKilled failure =>
    simp only [step] at h
    split at h
    · rename_i t hp
      cases h
      exact .killed t failure hp
    · cases h
  | networkReleased failure root =>
    simp only [step] at h
    split at h
    · rename_i t hp
      cases root with
      | none => cases h; exact .released t failure hp
      | some root => cases h; exact .releasedWithRoot t failure root hp
    · cases h
  | rootRemoved failure =>
    simp only [step] at h
    split at h
    · rename_i t hp
      cases h
      exact .rootRemoved t failure hp
    · cases h
  | machineExited failure =>
    simp only [step] at h
    split at h
    · rename_i hw
      cases h
      exact .exited failure hw
    · cases h
  | tick =>
    simp only [step, Option.bind_eq_bind, Option.bind_eq_some_iff] at h
    obtain ⟨p, hp, p', ht, he⟩ := h
    cases he
    exact .tick p p' hp ht
  | checkEnded outcome =>
    simp only [step, Option.bind_eq_bind, Option.bind_eq_some_iff] at h
    obtain ⟨p, hp, p', hf, he⟩ := h
    cases he
    exact .checkEnded p p' outcome hp hf
  | judge =>
    simp only [step, Option.bind_eq_bind, Option.bind_eq_some_iff, Prod.exists] at h
    obtain ⟨p, hp, p', report, hj, he⟩ := h
    cases he
    exact .judged p p' report hp hj

/-- The rules allow nothing that is not a step. -/
theorem step_of_move {s : Surroundings} {c c' : Controller} {a : Action} {effects : List Effect}
    (h : Move s c a c' effects) : c.step s a = some (c', effects) := by
  cases h with
  | skip m rest hp hm hs =>
    cases m with
    | start reply => exact absurd rfl (hs reply)
    | _ => simp [step, receive?, receiveStopped, hp, hm]
  | exited failure hw => simp [step, hw]
  | tick p p' hp ht => simp [step, hp, ht]
  | checkEnded p p' outcome hp hf => simp [step, hp, hf]
  | judged p p' report hp hj => simp [step, hp, hj]
  | _ =>
    simp_all [step, receive?, receiveStopped, receiveStarted, afterStart, beginShutdown,
      beginRelease]

section Move

variable {s : Surroundings} {c c' : Controller} {a : Action} {effects : List Effect}

theorem phase_setProbe (c : Controller) (p : Probe) :
    (c.setProbe p).phase = c.phase ∨
      (∃ run, c.phase = .started run ∧
        (c.setProbe p).phase = .started { run with probe := some p }) ∨
      ∃ run, c.phase = .exiting run ∧
        (c.setProbe p).phase = .exiting { run with probe := some p } := by
  unfold setProbe
  split
  · rename_i run hp
    exact .inr (.inl ⟨run, hp, rfl⟩)
  · rename_i run hp
    exact .inr (.inr ⟨run, hp, rfl⟩)
  · exact .inl rfl

theorem phase_of_setProbe {p : Probe} {phase : Phase} (h : (c.setProbe p).phase = phase)
    (hs : ∀ run, phase ≠ .started run) (he : ∀ run, phase ≠ .exiting run) : c.phase = phase := by
  rcases phase_setProbe c p with hp | ⟨run, _, hp⟩ | ⟨run, _, hp⟩
  · exact hp.symm.trans h
  · exact absurd (h.symm.trans hp) (hs _)
  · exact absurd (h.symm.trans hp) (he _)

@[simp] theorem phase_postIfHeld (c : Controller) (held : Bool) (m : Message) :
    (c.postIfHeld held m).phase = c.phase := by
  unfold postIfHeld post?
  split
  · split <;> rfl
  · rfl

@[simp] theorem phase_terminate (c : Controller) : c.terminate.1.phase = .terminated := rfl

@[simp] theorem phase_finish (c : Controller) (t : Teardown) :
    (c.finish t).1.phase = .terminated := rfl

theorem terminated_move (h : Move s c a c' effects) (hp : c.phase = .terminated) :
    c'.phase = .terminated := by
  have hq : c.probe? = none := by
    unfold probe?
    rw [hp]
  cases h with
  | exited => simpa using hp
  | tick p p' ht => cases hq.symm.trans ht
  | checkEnded p p' outcome ht => cases hq.symm.trans ht
  | judged p p' report ht => cases hq.symm.trans ht
  | _ => simp_all

theorem settings_postIfHeld (c : Controller) (held : Bool) (m : Message) :
    (c.postIfHeld held m).probeConfig = c.probeConfig ∧
      (c.postIfHeld held m).shutdownTimeout = c.shutdownTimeout := by
  unfold postIfHeld post?
  split
  · split <;> exact ⟨rfl, rfl⟩
  · exact ⟨rfl, rfl⟩

theorem settings_move (h : Move s c a c' effects) :
    c'.probeConfig = c.probeConfig ∧ c'.shutdownTimeout = c.shutdownTimeout := by
  have hset (p : Probe) : (c.setProbe p).probeConfig = c.probeConfig ∧
      (c.setProbe p).shutdownTimeout = c.shutdownTimeout := by
    unfold setProbe
    split <;> exact ⟨rfl, rfl⟩
  cases h with
  | exited => exact settings_postIfHeld _ _ _
  | tick => exact hset _
  | checkEnded => exact hset _
  | judged p p' report =>
    cases report with
    | none => exact hset _
    | some m =>
      obtain ⟨hprobe, htime⟩ := settings_postIfHeld (c.setProbe p') s.held m
      exact ⟨hprobe.trans (hset p').1, htime.trans (hset p').2⟩
  | _ => exact ⟨rfl, rfl⟩

end Move

end MachineFleet.Controller
