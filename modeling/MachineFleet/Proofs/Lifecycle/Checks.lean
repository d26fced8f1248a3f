import MachineFleet.Proofs.Lifecycle.Teardown
import MachineFleet.Proofs.Lifecycle.Tracking

namespace MachineFleet.Controller

def Effect.isCheck : Effect → Bool
  | .check .. => true
  | _ => false

/-- Whether an effect is done to a machine that is given up or gone, or tells that it is gone. -/
def Effect.isTeardown : Effect → Bool
  | .event (.stopped _) => true
  | e => e.isDeed && e != .call .start

def trace (history : List Episode) : List Effect := history.flatMap (·.effects)

def checksBegun (history : List Episode) : Nat := (trace history).countP Effect.isCheck

def Input.endsCheck : Input → Bool
  | .act _ (.checkEnded _) => true
  | _ => false

def checksEnded (history : List Episode) : Nat := history.countP (·.input.endsCheck)

@[simp] theorem trace_append (h h' : List Episode) : trace (h ++ h') = trace h ++ trace h' :=
  List.flatMap_append

@[simp] theorem trace_singleton (x : Episode) : trace [x] = x.effects := by
  simp [trace]

theorem mem_trace {history : List Episode} {e : Effect} :
    e ∈ trace history ↔ ∃ x ∈ history, e ∈ x.effects := List.mem_flatMap

def Phase.IsTornDown (p : Phase) : Prop := 3 ≤ p.rank ∧ p.running? = none

/-- How many checks are under way. A check that was cut off counts neither way, so once the machine
is torn down nothing but the difference is known. -/
structure Checked (begun ended : Nat) (c : Controller) : Prop where
  ended_le : ended ≤ begun
  begun_le : begun ≤ ended + 1
  probed : ∀ p, c.probe? = some p → begun = ended + p.ticker.isFiring.toNat
  unprobed : c.phase.rank ≤ 2 → c.probe? = none → begun = ended

section Checks

variable {s : Surroundings} {c c' : Controller} {a : Action} {effects : List Effect} {e : Effect}
  {p p' : Probe} {begun ended : Nat}

theorem probe?_setProbe (hp : c.probe? = some p) : (c.setProbe p').probe? = some p' := by
  rw [probe?_eq] at hp ⊢
  obtain ⟨run, hr, -⟩ := Option.bind_eq_some_iff.1 hp
  rw [running?_setProbe, hr]
  rfl

@[simp] theorem probe?_postIfHeld (c : Controller) (held : Bool) (m : Message) :
    (c.postIfHeld held m).probe? = c.probe? := by
  rw [probe?_eq, probe?_eq, phase_postIfHeld]

theorem check_move (h : Move s c a c' effects) (he : e ∈ effects) (hc : e.isCheck = true) :
    effects = [e] ∧ a = .tick ∧ ∃ p p', c.probe? = some p ∧ p.tick? s.now = some p' := by
  have hanswer (h : ∃ reply answer, e = .answer reply answer) : False := by
    obtain ⟨reply, answer, rfl⟩ := h
    cases hc
  have hnone {effects : List Effect} (he : e ∈ effects)
      (hn : ∀ x ∈ effects, x.isCheck = false) : False := by
    cases (hn e he).symm.trans hc
  cases h with
  | tick p p' hp ht =>
    obtain rfl := List.mem_singleton.1 he
    exact ⟨rfl, rfl, p, p', hp, ht⟩
  | skip => exact (hanswer (exists_answer_of_mem_dropReply he)).elim
  | giveUp => exact (hanswer (exists_answer_of_mem_terminate he)).elim
  | startFailed =>
    rcases List.mem_cons.1 he with he | he
    · exact (hanswer ⟨_, _, he⟩).elim
    · exact (hanswer (exists_answer_of_mem_terminate he)).elim
  | released =>
    rcases List.mem_cons.1 he with rfl | he
    · cases hc
    · exact (hanswer (exists_answer_of_mem_finish he)).elim
  | rootRemoved => exact (hanswer (exists_answer_of_mem_finish he)).elim
  | _ => exact (hnone he (by simp [Effect.isCheck])).elim

theorem isTornDown_move (h : Move s c a c' effects) (ht : c.phase.IsTornDown) :
    c'.phase.IsTornDown := by
  refine ⟨Nat.le_trans ht.1 (rank_move h), ?_⟩
  cases hr : c'.phase.running? with
  | none => rfl
  | some run =>
    rcases running?_move h hr with ⟨before, hb, -⟩ | ⟨reply, hp, -⟩
    · cases ht.2.symm.trans hb
    · have hrank := ht.1
      rw [hp] at hrank
      exact absurd hrank (by simp [Phase.rank])

theorem isTornDown_of_teardown (h : Move s c a c' effects) (he : e ∈ effects)
    (ht : e.isTeardown = true) : c'.phase.IsTornDown := by
  have hanswer (h : ∃ reply answer, e = .answer reply answer) : False := by
    obtain ⟨reply, answer, rfl⟩ := h
    cases ht
  have hnone {effects : List Effect} (he : e ∈ effects)
      (hn : ∀ x ∈ effects, x.isTeardown = false) : False := by
    cases (hn e he).symm.trans ht
  cases h with
  | skip => exact (hanswer (exists_answer_of_mem_dropReply he)).elim
  | takeStop | takeRetire | letGo | reportExit | startUnwanted | shutDown | shutdownFailed
    | shutdownExpired | killed | released | releasedWithRoot | rootRemoved | giveUp | startFailed =>
    exact ⟨by simp [Phase.rank], rfl⟩
  | _ => exact (hnone he (by simp [Effect.isTeardown])).elim

theorem probe?_of_isTornDown (ht : c.phase.IsTornDown) : c.probe? = none := by
  rw [probe?_eq, ht.2]
  rfl

theorem checked_setProbe (hp : c.probe? = some p)
    (h : begun = ended + p'.ticker.isFiring.toNat) : Checked begun ended (c.setProbe p') := by
  have hset : (c.setProbe p').probe? = some p' := probe?_setProbe hp
  have hle : p'.ticker.isFiring.toNat ≤ 1 := Bool.toNat_le _
  refine ⟨by omega, by omega, fun q hq => ?_, fun _ hq => ?_⟩
  · cases hset.symm.trans hq
    exact h
  · cases hset.symm.trans hq

theorem isFiring_beginProbing {now : Instant} {config : ProbeConfig} {run : Running}
    (hb : run.probing = false) (hp : (beginProbing now config run).probe = some p) :
    p.ticker.isFiring = false := by
  simp only [beginProbing, hb, Bool.false_eq_true, ↓reduceIte] at hp
  cases hs : Probe.spawn (config.toSpec run.machine.address) run.machine now with
  | error e =>
    rw [hs] at hp
    cases hp
  | ok p' =>
    rw [hs] at hp
    cases hp
    exact (Probe.spawn_eq_ok hs).2.2.1

/-- A step begins a check only if none is under way, and ends only one that is. -/
theorem Checked.move (hk : Checked begun ended c) (hs : Sound c) (h : Move s c a c' effects) :
    Checked (begun + effects.countP Effect.isCheck)
      (ended + (Input.endsCheck (.act s a)).toNat) c' := by
  -- A step that begins no check and ends none keeps the probe or does away with it.
  have hsame (ht : a ≠ .tick) (he : Input.endsCheck (.act s a) = false)
      (hp : c'.probe? = c.probe? ∨ c'.probe? = none ∧ 2 < c'.phase.rank) :
      Checked (begun + effects.countP Effect.isCheck)
        (ended + (Input.endsCheck (.act s a)).toNat) c' := by
    have hnone : effects.countP Effect.isCheck = 0 := by
      rw [List.countP_eq_zero]
      exact fun e hmem hc => ht (check_move h hmem hc).2.1
    rw [hnone, he]
    rcases hp with hp | ⟨hp, hrank⟩
    · exact ⟨hk.ended_le, hk.begun_le, hp ▸ hk.probed,
        fun hr => hp ▸ hk.unprobed (Nat.le_trans (rank_move h) hr)⟩
    · exact ⟨hk.ended_le, hk.begun_le, by simp [hp], fun hr => absurd hrank (Nat.not_lt.2 hr)⟩
  cases h with
  | takeStart reply rest hp | startTaken reply machine hp =>
    have hq : c.probe? = none := by
      rw [probe?_eq, hp]
      rfl
    exact hsame (by rintro ⟨⟩) rfl (.inl hq.symm)
  | takeRegistered run rest hp =>
    cases hb : run.probing with
    | true =>
      refine hsame (by rintro ⟨⟩) rfl (.inl ?_)
      rw [probe?_eq, probe?_eq, hp]
      simp [beginProbing, hb, Phase.running?]
    | false =>
      -- Before the first probe no check was ever begun.
      have hq : c.probe? = none := by
        rw [probe?_eq, hp]
        exact hs.probing run (by rw [hp]; rfl) hb
      have heq : begun = ended := hk.unprobed (by simp [hp, Phase.rank]) hq
      refine ⟨hk.ended_le, hk.begun_le, fun p hprobe => ?_, fun _ _ => heq⟩
      rw [isFiring_beginProbing hb hprobe]
      exact heq
  | takeExit run failure rest hp =>
    refine hsame (by rintro ⟨⟩) rfl (.inl ?_)
    rw [probe?_eq, probe?_eq, hp]
    rfl
  | skip | passReady | passUnready | refuseStart => exact hsame (by rintro ⟨⟩) rfl (.inl rfl)
  | exited => exact hsame (by rintro ⟨⟩) rfl (.inl (probe?_postIfHeld ..))
  | tick p p' hp ht =>
    obtain ⟨hidle, hfiring⟩ := Probe.isFiring_tick? ht
    have hbegun := hk.probed p hp
    rw [hidle] at hbegun
    refine checked_setProbe hp ?_
    rw [hfiring, hbegun]
    rfl
  | checkEnded p p' outcome hp hf =>
    obtain ⟨hfiring, hidle⟩ := Probe.isFiring_finish? hf
    have hbegun := hk.probed p hp
    rw [hfiring] at hbegun
    refine checked_setProbe hp ?_
    rw [hidle, hbegun]
    rfl
  | judged p p' report hp hj =>
    have hset : Checked begun ended (c.setProbe p') := by
      refine checked_setProbe hp ?_
      rw [Probe.ticker_judge? hj]
      exact hk.probed p hp
    cases report with
    | none => exact hset
    | some m =>
      refine ⟨hset.ended_le, hset.begun_le, fun q hq => ?_, fun hr hq => ?_⟩
      · exact hset.probed q ((probe?_postIfHeld ..).symm.trans hq)
      · exact hset.unprobed (by simpa using hr) ((probe?_postIfHeld ..).symm.trans hq)
  | _ => exact hsame (by rintro ⟨⟩) rfl (.inr ⟨rfl, by simp [Phase.rank]⟩)

end Checks

section Runs

variable {config : ProbeConfig} {timeout : Duration} {history : List Episode} {c : Controller}
  {e : Effect}

theorem sound_of_run (run : Run feed (Controller.new config timeout) history c) : Sound c := by
  refine run.invariant (P := fun _ c => Sound c) (.of_not_running rfl fun _ => rfl) ?_
  intro history c i c' effects hs h
  rcases feed_cases h with ⟨m, -, rfl, -⟩ | ⟨s, a, -, hm⟩
  · exact hs.postIfHeld
  · exact hs.move hm

theorem checked_of_run (run : Run feed (Controller.new config timeout) history c) :
    Checked (checksBegun history) (checksEnded history) c := by
  induction run with
  | nil =>
    refine ⟨Nat.le_refl _, Nat.le_succ _, fun p hp => ?_, fun _ _ => rfl⟩
    cases hp
  | @snoc history c c' i effects run h ih =>
    have hbegun : checksBegun (history ++ [⟨c, i, effects⟩]) =
        checksBegun history + effects.countP Effect.isCheck := by
      simp [checksBegun, List.countP_append]
    have hended : checksEnded (history ++ [⟨c, i, effects⟩]) =
        checksEnded history + i.endsCheck.toNat := by
      cases hi : i.endsCheck <;> simp [checksEnded, List.countP_append, hi]
    rw [hbegun, hended]
    rcases feed_cases h with ⟨m, rfl, rfl, rfl⟩ | ⟨s, a, rfl, hmove⟩
    · refine ⟨ih.ended_le, ih.begun_le, fun p hp => ?_, fun hr hp => ?_⟩
      · exact ih.probed p ((probe?_postIfHeld ..).symm.trans hp)
      · exact ih.unprobed (by simpa using hr) ((probe?_postIfHeld ..).symm.trans hp)
    · exact ih.move (sound_of_run run) hmove

theorem exists_move_of_mem_trace (run : Run feed (Controller.new config timeout) history c)
    (he : e ∈ trace history) :
    ∃ earlier before s a after effects, earlier <+: history ∧
      Run feed (Controller.new config timeout) earlier before ∧
      Move s before a after effects ∧ e ∈ effects := by
  obtain ⟨x, hx, he⟩ := mem_trace.1 he
  obtain ⟨earlier, hp, before, t, ht⟩ := run.of_mem hx
  rcases feed_cases ht with ⟨m, -, -, hnil⟩ | ⟨s, a, -, hmove⟩
  · rw [hnil] at he
    cases he
  · exact ⟨earlier, x.before, s, a, t, x.effects, hp, before, hmove, he⟩

theorem isTornDown_of_run (run : Run feed (Controller.new config timeout) history c)
    (he : e ∈ trace history) (ht : e.isTeardown = true) : c.phase.IsTornDown := by
  induction run with
  | nil => cases he
  | @snoc history c c' i effects run h ih =>
    rw [trace_append, trace_singleton] at he
    rcases feed_cases h with ⟨m, rfl, rfl, rfl⟩ | ⟨s, a, rfl, hmove⟩
    · rw [phase_postIfHeld]
      exact ih (by simpa using he)
    · rcases List.mem_append.1 he with he | he
      · exact isTornDown_move hmove (ih he)
      · exact isTornDown_of_teardown hmove he ht

/-- No check begins once the teardown has begun. -/
theorem checks_before_teardown (run : Run feed (Controller.new config timeout) history c) :
    (trace history).Pairwise fun e e' => e.isTeardown = true → e'.isCheck = false := by
  induction run with
  | nil => exact .nil
  | @snoc history c c' i effects run h ih =>
    rw [trace_append, trace_singleton]
    rcases feed_cases h with ⟨m, rfl, rfl, rfl⟩ | ⟨s, a, rfl, hmove⟩
    · simpa using ih
    have hfirst (e : Effect) (he : e ∈ trace history) (e' : Effect) (he' : e' ∈ effects)
        (ht : e.isTeardown = true) : e'.isCheck = false := by
      rw [← Bool.not_eq_true]
      intro hcheck
      obtain ⟨-, -, p, -, hp, -⟩ := check_move hmove he' hcheck
      cases hp.symm.trans (probe?_of_isTornDown (isTornDown_of_run run he ht))
    refine List.pairwise_append.2 ⟨ih, ?_, hfirst⟩
    -- A step that begins a check does nothing else.
    by_cases hcheck : ∃ e ∈ effects, e.isCheck = true
    · obtain ⟨e, he, hc⟩ := hcheck
      rw [(check_move hmove he hc).1]
      exact List.pairwise_singleton ..
    · refine List.pairwise_of_forall_mem_list fun e _ e' he' _ => ?_
      rw [← Bool.not_eq_true]
      exact fun hc => hcheck ⟨e', he', hc⟩

end Runs

end MachineFleet.Controller
