import MachineFleet.Proofs.Machine.Supervision
import Mathlib.Data.List.Nodup
import Mathlib.Data.List.Perm.Basic

namespace MachineFleet.SupervisedDriver

variable {config : MachineConfig} {jail : String} {on : Premises} {s s' : SupervisedDriver}
  {a : Action} {effects : List Effect} {d : ProcessDriver} {p : Process} {history : History}

theorem waiting_of_process (hp : s.driver.process = some p) :
    s.waiting = p.waiting.map (·.1) := by
  rw [waiting, hp, Option.map_some, Option.getD_some]

theorem waiting_of_unstarted (hp : s.driver.process = none) : s.waiting = [] := by
  rw [waiting, hp, Option.map_none, Option.getD_none]

theorem isRecorded_of_unstarted (hp : s.driver.process = none) : s.isRecorded = false := by
  rw [isRecorded, hp, Option.bind_none, Option.isSome_none]

theorem IsInOrder.isStarted (o : IsInOrder d s) (hp : s.driver.process = some p) :
    s.IsStarted p := by
  rcases o with u | ⟨q, r⟩
  · simp [u.process] at hp
  · exact r.eq_of_process hp ▸ r

theorem IsInOrder.unstarted_of_starting (o : IsInOrder d s) (hs : s.starting.isSome = true) :
    s.driver.process = none := by
  rcases o with u | ⟨q, r⟩
  · exact u.process
  · simp [r.starting] at hs

theorem IsInOrder.waiting_of_recorded (o : IsInOrder d s) (hr : s.isRecorded = true) :
    s.waiting = [] := by
  rcases o with u | ⟨p, r⟩
  · exact waiting_of_unstarted u.process
  · rw [isRecorded_of_process r.process] at hr
    obtain ⟨exit, he⟩ := Option.isSome_iff_exists.1 hr
    rw [waiting_of_process r.process, (r.exit exit he).1, List.map_nil]

/-- What a step leaves as it is: the calls that were made, how the process has ended, and that it is
recorded. -/
structure Keeps (s s' : SupervisedDriver) : Prop where
  calls : ∀ (n : Nat) (c : ExitCall), s.calls[n]? = some c → s'.calls[n]? = some c
  ended : ∀ how, s.ended = some how → s'.ended = some how
  recorded : s.isRecorded = true → s'.isRecorded = true

theorem Keeps.refl (s : SupervisedDriver) : s.Keeps s := ⟨fun _ _ => id, fun _ => id, id⟩

theorem Keeps.of_call {c : ExitCall} (hcalls : s'.calls = s.calls ++ [c])
    (hended : s'.ended = s.ended) (hrecorded : s'.isRecorded = s.isRecorded) : s.Keeps s' where
  calls n c' hn := by
    rw [hcalls]
    exact getElem?_concat_eq_some.2 (.inl hn)
  ended how hhow := hended.trans hhow
  recorded hr := hrecorded.trans hr

theorem Move.keeps (h : Move s a s' effects) (o : IsInOrder d s) : s.Keeps s' := by
  cases h with
  | startRefused | notRefused => exact .refl s
  | startBegun | startFailed | killHeard | shared => exact ⟨fun _ _ => id, fun _ => id, id⟩
  | started id refuses address machine premises hs =>
    refine ⟨fun _ _ h => h, fun _ h => h, fun hr => ?_⟩
    rw [isRecorded_of_unstarted (o.unstarted_of_starting hs)] at hr
    cases hr
  | calledUnstarted => exact .of_call rfl rfl rfl
  | calledLate c p exit hp he =>
    refine .of_call rfl rfl ?_
    rw [isRecorded_of_process hp, isRecorded_of_process rfl]
  | calledToKill p hp he =>
    refine .of_call rfl rfl ?_
    rw [isRecorded_of_process hp, isRecorded_of_process rfl]
  | called c p effects hp he =>
    refine .of_call rfl rfl ?_
    rw [isRecorded_of_process hp, isRecorded_of_process rfl]
  | refused n failure p hp | hungUp p hp =>
    refine ⟨fun _ _ => id, fun _ => id, fun hr => ?_⟩
    rw [isRecorded_of_process hp] at hr
    exact hr
  | childEnded how p hp he =>
    refine ⟨fun _ _ => id, fun how' hended => ?_, id⟩
    rw [he] at hended
    cases hended
  | recorded => exact ⟨fun _ _ => id, fun _ => id, fun _ => rfl⟩

/-- How a call can be answered, by a step from a state `before`. -/
inductive Told (s before : SupervisedDriver) (n : Nat) : Except Error Unit → Prop where
  | unstarted (hp : before.driver.process = none) :
      Told s before n (.error (.invalidArgument .machineNeverStarted))
  | refused (failure : Error) (hp : before.driver.process ≠ none)
      (hn : s.calls[n]? = some .shutdown) : Told s before n (.error failure)
  | ended (c : ExitCall) (how : Except String ExitStatus) (hp : before.driver.process ≠ none)
      (hn : s.calls[n]? = some c) (hended : s.ended = some how) (hr : s.isRecorded = true) :
      Told s before n (c.result (.ofReaped how))

theorem Told.keeps {before : SupervisedDriver} {n : Nat} {result : Except Error Unit}
    (h : Told s before n result) (k : s.Keeps s') : Told s' before n result := by
  cases h with
  | unstarted hp => exact .unstarted hp
  | refused failure hp hn => exact .refused failure hp (k.calls n _ hn)
  | ended c how hp hn hended hr =>
    exact .ended c how hp (k.calls n c hn) (k.ended how hended) (k.recorded hr)

theorem Move.told (h : Move s a s' effects) (o : IsInOrder d s) {n : Nat}
    {result : Except Error Unit} (hm : .driver (.answer n result) ∈ effects) :
    Told s' s n result := by
  cases h with
  | startRefused | startBegun | startFailed | started | calledToKill | notRefused | hungUp |
    childEnded | killHeard | shared => simp at hm
  | calledUnstarted c hp =>
    cases List.mem_singleton.1 hm
    exact .unstarted hp
  | calledLate c p exit hp he =>
    cases List.mem_singleton.1 hm
    obtain ⟨-, how, hended, rfl⟩ := (o.isStarted hp).exit exit he
    refine .ended c how (by simp [hp]) (by simp) hended ?_
    rw [isRecorded_of_process rfl, he, Option.isSome_some]
  | called c p effects hp he heffects => rcases heffects with rfl | rfl <;> simp at hm
  | refused m failure p hp hn hw =>
    cases List.mem_singleton.1 hm
    exact .refused failure (by simp [hp]) hn
  | recorded p how hp he hended =>
    obtain ⟨⟨m, c⟩, hmem, heq⟩ := List.mem_map.1 hm
    cases heq
    exact .ended c how (by simp [hp]) ((o.isStarted hp).waiting n c hmem) hended rfl

def answered (effects : List Effect) : List Nat := (effects.filterMap Effect.answer?).map (·.1)

theorem answered_append (effects later : List Effect) :
    answered (effects ++ later) = answered effects ++ answered later := by
  rw [answered, List.filterMap_append, List.map_append, answered, answered]

theorem answered_answers (exit : MachineExit) (waiting : List (Nat × ExitCall)) :
    answered (waiting.map fun (n, c) => .driver (.answer n (c.result exit))) =
      waiting.map (·.1) := by
  simp [answered, Effect.answer?, Function.comp_def]

/-- All calls that were made are those that `told` lists and those that wait. -/
def AccountsFor (told : List Nat) (s : SupervisedDriver) : Prop :=
  (told ++ s.waiting).Perm (List.range s.calls.length)

theorem AccountsFor.of_quiet {told : List Nat} (all : AccountsFor told s)
    (hnone : answered effects = []) (hwaiting : s'.waiting = s.waiting)
    (hcalls : s'.calls = s.calls) : AccountsFor (told ++ answered effects) s' := by
  rw [AccountsFor, hnone, List.append_nil, hwaiting, hcalls]
  exact all

theorem AccountsFor.of_call {told : List Nat} {c : ExitCall} (all : AccountsFor told s)
    (hnew : (answered effects ++ s'.waiting).Perm (s.waiting ++ [s.calls.length]))
    (hcalls : s'.calls = s.calls ++ [c]) : AccountsFor (told ++ answered effects) s' := by
  rw [AccountsFor, hcalls, List.length_append, List.length_singleton, List.range_succ,
    List.append_assoc]
  refine (hnew.append_left told).trans ?_
  rw [← List.append_assoc]
  exact all.append_right [s.calls.length]

theorem Move.accountsFor (h : Move s a s' effects) (o : IsInOrder d s) {told : List Nat}
    (all : AccountsFor told s) : AccountsFor (told ++ answered effects) s' := by
  cases h with
  | startRefused | startBegun | startFailed | notRefused | childEnded | killHeard | shared =>
    exact all.of_quiet rfl rfl rfl
  | started id refuses address machine premises hs =>
    exact all.of_quiet rfl (waiting_of_unstarted (o.unstarted_of_starting hs)).symm rfl
  | hungUp p hp => exact all.of_quiet rfl (waiting_of_process hp).symm rfl
  | calledUnstarted c hp => exact all.of_call List.perm_append_comm rfl
  | calledLate c p exit hp he =>
    refine all.of_call ?_ rfl
    rw [waiting_of_process hp, waiting_of_process rfl]
    exact List.perm_append_comm
  | calledToKill p hp he =>
    refine all.of_call ?_ rfl
    rw [waiting_of_process hp, waiting_of_process rfl, List.map_append]
    exact .refl _
  | called c p effects hp he heffects =>
    have hnone : answered effects = [] := by rcases heffects with rfl | rfl <;> rfl
    refine all.of_call ?_ rfl
    rw [waiting_of_process hp, waiting_of_process rfl, hnone, List.map_append]
    exact .refl _
  | refused n failure p hp hn hw =>
    rw [AccountsFor, waiting_of_process hp] at all
    have hd : (p.waiting.map (·.1)).Nodup :=
      (all.nodup_iff.2 List.nodup_range).sublist (List.sublist_append_right ..)
    have hrest : (p.waiting.filter (·.1 != n)).map (·.1) = (p.waiting.map (·.1)).erase n := by
      rw [hd.erase_eq_filter, List.filter_map]
      rfl
    rw [AccountsFor, waiting_of_process rfl, hrest, List.append_assoc]
    exact ((List.perm_cons_erase hw).symm.append_left told).trans all
  | recorded p how hp he hended =>
    rw [AccountsFor, waiting_of_process hp] at all
    rw [AccountsFor, waiting_of_process rfl, answered_answers, List.map_nil, List.append_nil]
    exact all

theorem countP_answers (f : Effect → Bool) (hf : ∀ n result, f (.driver (.answer n result)) = false)
    (exit : MachineExit) (waiting : List (Nat × ExitCall)) :
    (waiting.map fun (n, c) => Effect.driver (.answer n (c.result exit))).countP f = 0 := by
  rw [List.countP_eq_zero]
  intro e he
  obtain ⟨⟨n, c⟩, -, rfl⟩ := List.mem_map.1 he
  simp [hf]

/-- The line is used once, and the process killed once because of it. -/
theorem Move.line (h : Move s a s' effects) (o : IsInOrder d s) :
    effects.countP Effect.isRequest + s.line.requests = s'.line.requests ∧
      effects.countP Effect.isKilling + s.line.killings = s'.line.killings := by
  cases h with
  | startRefused | startBegun | startFailed | started | calledUnstarted | calledLate | refused |
    notRefused | childEnded | shared => simp [Effect.isRequest, Effect.isKilling]
  | calledToKill p hp he hw =>
    -- Who has used the line or given it up does not ask for the signal any more.
    have hline : s.line = .silent := by
      by_contra hne
      rw [(o.isStarted hp).line hne] at hw
      cases hw
    rw [hline]
    exact ⟨rfl, rfl⟩
  | called c p effects hp he heffects =>
    rcases heffects with rfl | rfl <;> simp [Effect.isRequest, Effect.isKilling]
  | hungUp p hp hline =>
    rw [hline]
    exact ⟨rfl, rfl⟩
  | killHeard hline =>
    rw [hline]
    exact ⟨rfl, rfl⟩
  | recorded p how =>
    rw [countP_answers _ fun _ _ => rfl, countP_answers _ fun _ _ => rfl]
    exact ⟨Nat.zero_add _, Nat.zero_add _⟩

theorem Move.starts (h : Move s a s' effects) (o : IsInOrder d s) :
    effects.countP Effect.isStart + s.driver.process.toList.length =
      s'.driver.process.toList.length := by
  cases h with
  | startRefused | startBegun | startFailed | calledUnstarted | notRefused | childEnded | killHeard |
    shared => simp [Effect.isStart]
  | started id refuses address machine premises hs =>
    simp [o.unstarted_of_starting hs, Effect.isStart]
  | calledLate c p exit hp | calledToKill p hp | refused n failure p hp | hungUp p hp =>
    simp [hp, Effect.isStart]
  | called c p effects hp he heffects =>
    rcases heffects with rfl | rfl <;> simp [hp, Effect.isStart]
  | recorded p how hp =>
    rw [countP_answers _ fun _ _ => rfl]
    simp [hp]

def answeredCalls (history : History) : List Nat := answered (history.flatMap (·.effects))

def times (f : Effect → Bool) (history : History) : Nat := (history.flatMap (·.effects)).countP f

theorem answeredCalls_concat (x : Happening SupervisedDriver Action Effect) :
    answeredCalls (history ++ [x]) = answeredCalls history ++ answered x.effects := by
  simp [answeredCalls, answered_append]

theorem times_concat (f : Effect → Bool) (x : Happening SupervisedDriver Action Effect) :
    times f (history ++ [x]) = x.effects.countP f + times f history := by
  simp [times, Nat.add_comm]

structure IsCourse (d : ProcessDriver) (history : History) (s : SupervisedDriver) : Prop where
  inOrder : IsInOrder d s
  all : AccountsFor (answeredCalls history) s
  told : ∀ x ∈ history, ∀ n result, .driver (.answer n result) ∈ x.effects →
    Told s x.before n result
  recorded : s.isRecorded = true → ∃ y ∈ history, y.input = .recordExit
  requests : times Effect.isRequest history = s.line.requests
  killings : times Effect.isKilling history = s.line.killings
  starts : times Effect.isStart history = s.driver.process.toList.length

theorem Move.isRecorded (h : Move s a s' effects) (hr : s'.isRecorded = true) :
    s.isRecorded = true ∨ a = .recordExit := by
  cases h with
  | startRefused | startBegun | startFailed | calledUnstarted | notRefused | childEnded |
    killHeard | shared => exact .inl hr
  | started => cases hr
  | calledLate c p exit hp | calledToKill p hp | called c p effects hp
  | refused n failure p hp | hungUp p hp =>
    rw [isRecorded_of_process hp]
    exact .inl hr
  | recorded => exact .inr rfl

theorem isCourse_new (config : MachineConfig) (jail : String) (on : Premises) :
    IsCourse (.new config jail) [] (new config jail on) where
  inOrder := isInOrder_new config jail on
  all := show ([] : List Nat).Perm [] from .refl _
  told _ hx := absurd hx List.not_mem_nil
  recorded := nofun
  requests := rfl
  killings := rfl
  starts := rfl

theorem IsCourse.move (i : IsCourse d history s) (h : Move s a s' effects) :
    IsCourse d (history ++ [⟨s, a, effects⟩]) s' where
  inOrder := i.inOrder.move h
  all := by
    rw [answeredCalls_concat]
    exact h.accountsFor i.inOrder i.all
  told x hx n result hm := by
    rcases List.mem_append.1 hx with hx | hx
    · exact (i.told x hx n result hm).keeps (h.keeps i.inOrder)
    · cases List.mem_singleton.1 hx
      exact h.told i.inOrder hm
  recorded hr := by
    rcases h.isRecorded hr with hr | rfl
    · obtain ⟨y, hy, hinput⟩ := i.recorded hr
      exact ⟨y, List.mem_append_left _ hy, hinput⟩
    · exact ⟨_, List.mem_concat_self, rfl⟩
  requests := by rw [times_concat, i.requests, (h.line i.inOrder).1]
  killings := by rw [times_concat, i.killings, (h.line i.inOrder).2]
  starts := by rw [times_concat, i.starts, h.starts i.inOrder]

theorem isCourse_of_run (run : Run (step config) (new config jail on) history s) :
    IsCourse (.new config jail) history s :=
  run.invariant (isCourse_new config jail on) fun _ _ _ _ _ i h => i.move (move_of_step h)

theorem result_wait (how : Except String ExitStatus) :
    ExitCall.result .wait (.ofReaped how) = match how with
      | .ok (.code 0) => .ok ()
      | .ok status => .error (.machineExit status.text)
      | .error reason => .error (.machineExit reason) := by
  rcases how with reason | (_ | n) | _ <;> rfl

/-- Who waits for a process that was started is told how it has ended. -/
theorem IsCourse.result_of_wait (i : IsCourse d history s)
    {x : Happening SupervisedDriver Action Effect} (hx : x ∈ history)
    (hp : x.before.driver.process ≠ none) {n : Nat} {result : Except Error Unit}
    (hm : .driver (.answer n result) ∈ x.effects) (hn : s.calls[n]? = some .wait) :
    ∃ how, s.ended = some how ∧ result = ExitCall.result .wait (.ofReaped how) := by
  cases i.told x hx n result hm with
  | unstarted hnone => exact absurd hnone hp
  | refused failure _ hshutdown =>
    rw [hn] at hshutdown
    cases hshutdown
  | ended c how _ hc hended =>
    rw [hn] at hc
    cases hc
    exact ⟨how, hended, rfl⟩

theorem recorded_of_success {earlier later : History}
    {x : Happening SupervisedDriver Action Effect} {n : Nat}
    (run : Run (step config) (new config jail on) (earlier ++ x :: later) s)
    (hm : .driver (.answer n (.ok ())) ∈ x.effects) :
    ∃ y ∈ earlier ++ [x], y.input = .recordExit := by
  obtain ⟨t, hbefore, hstep, -⟩ := run.of_append_cons
  -- The run up to that step is a course in which the call was answered.
  have hcourse := isCourse_of_run (hbefore.snoc hstep)
  have htold := hcourse.told x List.mem_concat_self n _ hm
  generalize hresult : Except.ok () = result at htold
  cases htold with
  | unstarted | refused => cases hresult
  | ended c how _ _ _ hr => exact hcourse.recorded hr

theorem IsCourse.kills (i : IsCourse d history s) : times Effect.isRequest history ≤ 1 ∧
    times Effect.isKilling history ≤ times Effect.isRequest history := by
  rw [i.requests, i.killings]
  cases s.line <;> decide

theorem IsInOrder.driver_eq (o : IsInOrder d s) (hp : s.driver.process = none) :
    s.driver = d := by
  rcases o with u | ⟨p, r⟩
  · exact u.driver
  · simp [r.process] at hp

/-- What the callers of a driver get to know, and what becomes of its process. -/
structure AgreesOnExit (config : MachineConfig) (jail : String) (history : History)
    (s : SupervisedDriver) : Prop where
  once : (answeredCalls history ++ s.waiting).Perm (List.range s.calls.length) ∧
    (s.isRecorded = true → s.waiting = [])
  outcome : ∀ x ∈ history, x.before.driver.process ≠ none → ∀ n result,
    .driver (.answer n result) ∈ x.effects → s.calls[n]? = some .wait →
    ∃ how, s.ended = some how ∧ result = match how with
      | .ok (.code 0) => .ok ()
      | .ok status => .error (.machineExit status.text)
      | .error reason => .error (.machineExit reason)
  success : ∀ earlier x later, history = earlier ++ x :: later → ∀ n,
    .driver (.answer n (.ok ())) ∈ x.effects → ∃ y ∈ earlier ++ [x], y.input = .recordExit
  kills : times Effect.isRequest history ≤ 1 ∧
    times Effect.isKilling history ≤ times Effect.isRequest history
  unstarted : s.driver.process = none → ∀ c, step config s (.call c) =
    some ({ s with calls := s.calls ++ [c] },
      [.driver (.answer s.calls.length (.error (.invalidArgument .machineNeverStarted)))])
  /-- Until a start succeeds the driver is as it was made, and nothing but what a start needs is in
  the way of one. -/
  startable : s.driver.process = none → s.driver = .new config jail ∧
    ∀ refuses id on, (∃ r, on.pool.allocate = .ok r) →
      (s.driver.makeJail on.files).2 = .ok () →
      (∀ address, refuses (s.driver.makeJail on.files).1
        (config.launch id address s.driver.jailRoot) = none) →
      ∃ driver on' started, s.driver.start config refuses id on = (driver, on', .ok started)
  starts : times Effect.isStart history ≤ 1
  restart : s.driver.process ≠ none →
    step config s .beginStart =
      some (s, [.started (.error (.invalidArgument .machineAlreadyStarted))]) ∧
    ∀ refuses id on, s.driver.start config refuses id on =
      (s.driver, on, .error (.invalidArgument .machineAlreadyStarted))

theorem agreesOnExit_of_run (run : Run (step config) (new config jail on) history s) :
    AgreesOnExit config jail history s := by
  have i := isCourse_of_run run
  exact {
    once := ⟨i.all, i.inOrder.waiting_of_recorded⟩
    outcome := by
      intro x hx hp n result hm hn
      obtain ⟨how, hended, hresult⟩ := i.result_of_wait hx hp hm hn
      exact ⟨how, hended, hresult.trans (result_wait how)⟩
    success := by
      rintro earlier x later rfl n hm
      exact recorded_of_success run hm
    kills := i.kills
    unstarted := by
      intro hp c
      simp [step, ProcessDriver.call, hp, Effect.isRequest]
    startable := by
      intro hp
      refine ⟨i.inOrder.driver_eq hp, ?_⟩
      intro refuses id on hfree hjail hlaunch
      exact ProcessDriver.exists_start hp hfree hjail hlaunch
    starts := by
      rw [i.starts]
      cases s.driver.process <;> simp
    restart := by
      intro hp
      obtain ⟨p, hp⟩ := Option.ne_none_iff_exists'.1 hp
      constructor
      · simp [step, (i.inOrder.isStarted hp).starting, ProcessDriver.beginStart, hp]
      · intro refuses id on
        simp [ProcessDriver.start, hp] }

theorem IsInOrder.exists_recordExit (o : IsInOrder d s) (hended : s.ended ≠ none)
    (hr : s.isRecorded = false) : (step config s .recordExit).isSome = true := by
  obtain ⟨how, hended⟩ := Option.ne_none_iff_exists'.1 hended
  rcases o with u | ⟨p, r⟩
  · simp [u.ended] at hended
  · have he : p.exit = none := by simpa [isRecorded_of_process r.process] using hr
    have hsupervised : s.isSupervised = true := isSupervised_iff.2 ⟨p, r.process, he⟩
    simp [step, hended, hsupervised]

theorem isRecorded_of_recordExit (h : step config s .recordExit = some (s', effects)) :
    s'.isRecorded = true := by
  cases move_of_step h with
  | recorded => rfl

theorem exists_recorded (run : Run (step config) (new config jail on) history s)
    (x : Execution (step config) s) (hfair : x.WeaklyFair (· = .recordExit)) {n : Nat}
    (hended : (x.state n).ended ≠ none) : ∃ m ≥ n, (x.state m).isRecorded = true := by
  have hcourse (m : Nat) := isCourse_of_run (run.trans (x.run m))
  have hstays (m : Nat) (hm : m ≥ n) : (x.state m).ended ≠ none := by
    apply Execution.stays (P := fun i => (x.state i).ended ≠ none) hended hm
    intro i _ hi
    obtain ⟨how, hhow⟩ := Option.ne_none_iff_exists'.1 hi
    have hkeeps := (move_of_step (x.steps i)).keeps (hcourse i).inOrder
    simp [hkeeps.ended how hhow]
  -- One step is enough: it can be made as long as it has not been made.
  apply hfair.reaches x (fun t => t.isRecorded = true) fun t => if t.isRecorded then 0 else 1
  · intro m hm hr
    have hunrecorded : (x.state m).isRecorded = false := by simpa using hr
    exact ⟨_, rfl, (hcourse m).inOrder.exists_recordExit (hstays m hm) hunrecorded⟩
  · intro m _ hr
    rw [if_neg hr]
    split <;> omega
  · intro m _ hr hinput
    have hstep := x.steps m
    rw [hinput] at hstep
    rw [if_neg hr, if_pos (isRecorded_of_recordExit hstep)]
    exact Nat.zero_lt_one

/-- In whatever order the calls of a driver come, and however its process ends, all that wait for it
are told the same, no call succeeds before the exit is recorded, each is answered once, and the kill
signal is asked for at most once. Before a start all calls fail and leave the driver as it was made;
after one no other start succeeds or changes anything. When the process has ended, with or without a
signal and even if the driver has given up the line on which it could ask for one, the exit is
recorded at some time, provided that the supervising task is not kept from it for ever, and then no
call is left unanswered. -/
theorem calls_agree_on_exit (run : Run (step config) (new config jail on) history s) :
    AgreesOnExit config jail history s ∧
      ∀ x : Execution (step config) s, x.WeaklyFair (· = .recordExit) →
        ∀ n, (x.state n).ended ≠ none → ∃ m ≥ n, (x.state m).isRecorded = true ∧
          (answeredCalls (history ++ x.history m)).Perm
            (List.range (x.state m).calls.length) := by
  refine ⟨agreesOnExit_of_run run, ?_⟩
  intro x hfair n hended
  obtain ⟨m, hm, hr⟩ := exists_recorded run x hfair hended
  refine ⟨m, hm, hr, ?_⟩
  have hcourse := isCourse_of_run (run.trans (x.run m))
  have hall := hcourse.all
  rw [AccountsFor, hcourse.inOrder.waiting_of_recorded hr, List.append_nil] at hall
  exact hall

/-- A machine is started, and two ask for its end by force while a third one waits for it. -/
def forcedActions : List Action :=
  [.call .wait, .beginStart, .endStart "machine" fun _ _ => none, .call .wait, .call .kill,
    .call .kill, .hearKill, .childEnds (.ok (.signal 9 false))]

def freshPremises : Premises := ⟨.new (MachineConfig.defaults "").network.subnet, .empty⟩

theorem forced_exit_is_told_to_all :
    ∃ history s, Run (step (.defaults "")) (new (.defaults "") "jail" freshPremises) history s ∧
      history.map (·.input) = forcedActions ∧
      times Effect.isRequest history = 1 ∧
      AgreesOnExit (.defaults "") "jail" history s ∧
      ∃ x : Execution (step (.defaults "")) s, x.WeaklyFair (· = .recordExit) ∧
        (x.history 1).flatMap (·.effects) = [
          .driver (.answer 1 (.error (.machineExit (ExitStatus.text (.signal 9 false))))),
          .driver (.answer 2 (.ok ())), .driver (.answer 3 (.ok ()))] ∧
        ∃ m, (x.state m).isRecorded = true ∧
          (answeredCalls (history ++ x.history m)).Perm
            (List.range (x.state m).calls.length) := by
  obtain ⟨⟨history, s⟩, hr⟩ : ∃ r, replay (step (.defaults ""))
      (new (.defaults "") "jail" freshPremises) forcedActions = some r := ⟨_, rfl⟩
  have run := Run.of_replay hr
  obtain ⟨hagrees, hrecorded⟩ := calls_agree_on_exit run
  have hrequests : times Effect.isRequest history = 1 :=
    history_of_replay hr (times Effect.isRequest) rfl
  have hended : s.ended = some (.ok (.signal 9 false)) := last_of_replay hr (·.ended) rfl
  -- The exit is recorded next, and after that nothing happens any more.
  let next (s : SupervisedDriver) := replay (step (.defaults "")) s [.recordExit]
  obtain ⟨⟨later, t⟩, hlater⟩ : ∃ r, next s = some r :=
    Option.isSome_iff_exists.1 (last_of_replay hr (fun s => (next s).isSome) rfl)
  have heffects : (next s).map (·.1.map (·.effects)) = some [[
      .driver (.answer 1 (.error (.machineExit (ExitStatus.text (.signal 9 false))))),
      .driver (.answer 2 (.ok ())), .driver (.answer 3 (.ok ()))]] :=
    last_of_replay hr (fun s => (next s).map (·.1.map (·.effects))) rfl
  have hblocked : (next s).map (fun r => (step (.defaults "") r.2 .recordExit).isNone) =
      some true :=
    last_of_replay hr
      (fun s => (next s).map fun r => (step (.defaults "") r.2 .recordExit).isNone) rfl
  rw [hlater, Option.map_some, Option.some_inj] at heffects hblocked
  have hidle : step (.defaults "") t (.share t.premises) = some (t, []) := rfl
  obtain ⟨x, hx, hfair⟩ : ∃ x : Execution (step (.defaults "")) s,
      x.history later.length = later ∧ x.WeaklyFair (· = .recordExit) := by
    apply Execution.exists_fair_of_run (Run.of_replay hlater) hidle
    intro j hj
    rw [hj]
    exact Option.isNone_iff_eq_none.1 hblocked
  have hstart : (x.state 0).ended ≠ none := by
    rw [x.starts, hended]
    simp
  obtain ⟨m, -, hm⟩ := hrecorded x hfair 0 hstart
  refine ⟨history, s, run, map_input_of_replay hr, hrequests, hagrees, x, hfair, ?_, m, hm⟩
  have hlength : later.length = 1 := by simpa using congrArg List.length heffects
  rw [hlength] at hx
  rw [hx, List.flatMap_def, heffects]
  rfl

end MachineFleet.SupervisedDriver
