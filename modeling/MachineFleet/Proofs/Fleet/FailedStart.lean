import MachineFleet.Proofs.Fleet.Causes
import MachineFleet.Proofs.Fleet.Course

namespace MachineFleet.Fleet

/-- Whether a call has ended without a machine: with an error, or because its caller went away. -/
def Call.isLost : Call → Bool
  | finished (.started (.error _)) => true
  | abandoned => true
  | _ => false

section Lost

variable {f f' f₁ : Fleet} {a : Action} {effects : List Effect} {made : List Making} {k c : Nat}
  {old new call : Call} {mk : Making} {controller : Controller}

theorem isUnfinished_of_isLost (hl : call.isLost = true) : call.isUnfinished = false := by
  cases call <;> first | rfl | cases hl

theorem ended_stays (h : Move f a f' effects) (hk : f.calls[k]? = some call)
    (hu : call.isUnfinished = false) : f'.calls[k]? = some call := by
  obtain ⟨call', hk', rfl⟩ := call_move (P := (· = call)) h hk rfl
    (by rintro rfl; cases hu)
    (by
      rintro a old new f₁ effects ht rfl
      cases (isUnfinished_turn ht).symm.trans hu)
    (by
      rintro call effects rfl
      cases call <;> first | exact Call.deliverAll_of_deliver fun _ _ => rfl | cases hu)
  exact hk'

theorem Books.not_listed (b : Books made f) (hmk : made[c]? = some mk)
    (hcall : f.calls[mk.call]? = some call) (hr : call.hasRegistered = false) : ¬ Listed f c := by
  intro hl
  obtain ⟨mk', call', hmk', hcall', hr'⟩ := b.listing c hl
  rw [hmk] at hmk'
  cases hmk'
  rw [hcall] at hcall'
  cases hcall'
  cases hr.symm.trans hr'

/-- Nobody holds a controller that the registry does not know, once its call has ended. -/
theorem Books.not_held_of_ended (b : Books made f) (hmk : made[c]? = some mk)
    (hcall : f.calls[mk.call]? = some call) (hu : call.isUnfinished = false)
    (hn : ¬ Listed f c) : f.holds c = false := by
  rw [Bool.eq_false_iff]
  intro hh
  -- Only the call that has made it could hold it, and that one has ended.
  rcases holds_iff.1 hh with hl | ⟨other, hm, ho⟩
  · exact hn hl
  · obtain ⟨k, hk⟩ := List.mem_iff_getElem?.1 hm
    obtain ⟨mk', hmk', rfl⟩ := b.makers.own k other c hk ho
    rw [hmk] at hmk'
    cases hmk'
    rw [hcall] at hk
    cases hk
    cases call <;> first | (cases ho; done) | cases hu

theorem Books.not_held (b : Books made f) (hmk : made[c]? = some mk)
    (hcall : f.calls[mk.call]? = some call) (hl : call.isLost = true) : f.holds c = false := by
  refine b.not_held_of_ended hmk hcall (isUnfinished_of_isLost hl) (b.not_listed hmk hcall ?_)
  cases call with
  | finished outcome =>
    cases outcome with
    | started result => cases result <;> first | rfl | cases hl
    | _ => cases hl
  | _ => first | rfl | cases hl

theorem holds_of_posting {m : Message} (hk : f.calls[k]? = some old) (hp : Posting f c old new m) :
    f.holds c = true := by
  have hmem := List.mem_of_getElem? hk
  cases hp with
  | registered => exact holds_iff.2 (.inr ⟨_, hmem, rfl⟩)
  | retire => exact holds_iff.2 (.inr ⟨_, hmem, rfl⟩)
  | stop all new entry he hc =>
    refine holds_iff.2 (.inl (.inr ⟨_, hmem, ?_⟩))
    simpa [Call.lists] using ⟨entry, he, hc⟩

theorem controller_cases (hm : Move f a f' effects) (hc : f.controllers[c]? = some controller) :
    ∃ controller', f'.controllers[c]? = some controller' ∧
      ((∃ did made, a = .controller c did ∧
          Controller.Move (f.surroundings c) controller did controller' made) ∨
        (∀ did, a ≠ .controller c did) ∧ (controller' = controller ∨
          f.holds c = true ∧ ∃ m, controller' = controller.postIfHeld true m)) := by
  by_cases hown : ∃ did, a = .controller c did
  · obtain ⟨did, rfl⟩ := hown
    obtain ⟨before, after, made, hb, rfl, -, hstep⟩ := move_of_controller hm
    rw [hc] at hb
    cases hb
    refine ⟨after, ?_, .inl ⟨did, made, rfl, hstep⟩⟩
    rw [controllers_worked hc, if_pos rfl]
  · obtain ⟨controller', hc', -⟩ := controller_stays hm hc
    refine ⟨controller', hc', .inr ⟨fun did he => hown ⟨did, he⟩, ?_⟩⟩
    rcases controller_move hm hc' with ⟨before, hb, hch⟩ | ⟨hl, -⟩
    · rw [hc] at hb
      cases hb
      rcases hch with he | ⟨k, old, new, m, hk, -, hp, he⟩ | ⟨did, made, ha, -⟩
      · exact .inl he
      · exact .inr ⟨holds_of_posting hk hp, m, he⟩
      · exact absurd ⟨did, ha⟩ hown
    · exact absurd hl (Nat.ne_of_lt (List.getElem?_eq_some_iff.1 hc).1)

end Lost

/-- A controller takes its mail and reports an exit, a shutdown returns or its deadline passes, and
killing, releasing the network and removing the root return: each at some time, if it can be done at
all times. -/
def KeepsGoing {config : FleetConfig} (x : Execution step (start config)) (c : Nat) : Prop :=
  x.WeaklyFair fun a => ∃ did : Controller.Action, did.isAdvance = true ∧ a = .controller c did

/-- In the course of a controller its machine was started and torn down, step by step and once. It
was spared the shutdown only if it had exited before. -/
def TornDown (id : String) (course : List Controller.Episode) : Prop :=
  ∃ root, Controller.deeds course = Controller.gracefulEnding id root ∨
    Controller.deeds course = Controller.forcedEnding id root ∨
    Controller.deeds course = Controller.exitEnding id root ∧ Controller.ExitTaken course

section Executions

variable {config : FleetConfig} (x : Execution step (start config)) {n m k c : Nat} {mk : Making}
  {call : Call} {controller : Controller} {machine : Metadata}

theorem makings_stays (hmk : (makings (x.history n))[c]? = some mk) (hm : n ≤ m) :
    (makings (x.history m))[c]? = some mk := by
  refine Execution.stays (P := fun i => (makings (x.history i))[c]? = some mk) hmk hm ?_
  intro i _ hi
  rw [Execution.history, makings_snoc,
    List.getElem?_append_left (List.getElem?_eq_some_iff.1 hi).1, hi]

theorem call_stays (hk : (x.state n).calls[k]? = some call) (hu : call.isUnfinished = false)
    (hm : n ≤ m) : (x.state m).calls[k]? = some call :=
  Execution.stays (P := fun i => (x.state i).calls[k]? = some call) hk hm
    fun i _ hi => ended_stays (move_of_step (x.steps i)) hi hu

theorem controller_goes_on (hc : (x.state n).controllers[c]? = some controller) (hm : n ≤ m) :
    ∃ controller', (x.state m).controllers[c]? = some controller' ∧
      controller.phase.rank ≤ controller'.phase.rank := by
  refine Execution.stays (P := fun i => ∃ controller', (x.state i).controllers[c]? =
    some controller' ∧ controller.phase.rank ≤ controller'.phase.rank)
    ⟨controller, hc, Nat.le_refl _⟩ hm ?_
  rintro i _ ⟨before, hb, hr⟩
  obtain ⟨after, ha, hr'⟩ := controller_stays (move_of_step (x.steps i)) hb
  exact ⟨after, ha, Nat.le_trans hr hr'⟩

theorem keepsGoing_of_terminated (hc : (x.state n).controllers[c]? = some controller)
    (hp : controller.phase = .terminated) : KeepsGoing x c := by
  intro i can
  -- If it could always advance it could do so after its end.
  obtain ⟨-, ⟨did, hd, rfl⟩, hs⟩ := can (max i n) (Nat.le_max_left ..)
  obtain ⟨after, ha, hrank⟩ := controller_goes_on x hc (Nat.le_max_right i n)
  rw [hp] at hrank
  have hend := Controller.step_eq_none_of_terminated
    (s := (x.state (max i n)).surroundings c) (Controller.terminated_of_rank hrank) hd
  simp [step, stepController, ha, hend] at hs

theorem reaches_end (hk : KeepsGoing x c)
    (hd : ∀ m ≥ n, ((x.state m).controllerAt c).IsDoomed ((x.state m).holds c))
    (hc : (x.state n).controllers[c]? = some controller) (hb : controller.phase.HasBegun) :
    ∃ m ≥ n, ((x.state m).controllerAt c).phase = .terminated := by
  have hbegun (m : Nat) (hm : m ≥ n) : ∃ controller,
      (x.state m).controllers[c]? = some controller ∧ controller.phase.HasBegun := by
    obtain ⟨controller', hc', hr⟩ := controller_goes_on x hc hm
    exact ⟨controller', hc', Nat.le_trans hb hr⟩
  have hstep (m : Nat) (hm : m ≥ n) :
      ((x.state (m + 1)).controllerAt c).toGo ≤ ((x.state m).controllerAt c).toGo ∧
        ((∃ did : Controller.Action, did.isAdvance = true ∧ x.input m = .controller c did) →
          ((x.state (m + 1)).controllerAt c).toGo < ((x.state m).controllerAt c).toGo) := by
    obtain ⟨before, hbefore, hb⟩ := hbegun m hm
    have hdoomed := hd m hm
    rw [controllerAt_eq hbefore] at hdoomed
    obtain ⟨after, hafter, ⟨did, made, ha, hmove⟩ | ⟨hn, hcase⟩⟩ :=
      controller_cases (move_of_step (x.steps m)) hbefore
    · rw [controllerAt_eq hbefore, controllerAt_eq hafter]
      obtain ⟨hle, hlt⟩ := Controller.toGo_move hmove hb hdoomed
      refine ⟨hle, fun ⟨did', hd, ha'⟩ => hlt ?_⟩
      cases ha.symm.trans ha'
      exact hd
    · rw [controllerAt_eq hbefore, controllerAt_eq hafter]
      refine ⟨Nat.le_of_eq ?_, fun ⟨did, _, ha⟩ => absurd ha (hn did)⟩
      rcases hcase with rfl | ⟨hh, m', rfl⟩
      · rfl
      · rw [hh] at hdoomed
        exact Controller.toGo_postIfHeld hdoomed m'
  refine Execution.WeaklyFair.reaches x hk (fun f => (f.controllerAt c).phase = .terminated)
    (fun f => (f.controllerAt c).toGo) ?_ ?_ ?_
  · intro m hm hn
    obtain ⟨before, hbefore, hb⟩ := hbegun m hm
    have hdoomed := hd m hm
    rw [controllerAt_eq hbefore] at hn hdoomed
    obtain ⟨did, hd, hs⟩ :=
      Controller.exists_advance (s := (x.state m).surroundings c) hb hdoomed hn
    refine ⟨_, ⟨did, hd, rfl⟩, ?_⟩
    simpa [step, stepController, hbefore] using hs
  · exact fun m hm _ => (hstep m hm).1
  · exact fun m hm _ => (hstep m hm).2

/-- A machine is torn down whose driver has started it, once its controller stays doomed. -/
theorem doomed_machine_is_torn_down {j : Nat} (hj : j < n)
    (hs : x.input j = .controller c (.driverStarted (.ok machine))) (hk : KeepsGoing x c)
    (hd : ∀ m ≥ n, ((x.state m).controllerAt c).IsDoomed ((x.state m).holds c)) :
    ∃ m, ∀ i ≥ m, ∃ controller, (x.state i).controllers[c]? = some controller ∧
      controller.phase = .terminated ∧ TornDown machine.id (course (x.history i) c) := by
  have hin {i : Nat} (hi : j < i) : (⟨x.state j, x.input j, x.effects j⟩ : Episode) ∈ x.history i :=
    x.mem_history.2 ⟨j, hi, rfl⟩
  -- The driver has answered, so the controller has begun.
  obtain ⟨controller, hc, hb⟩ : ∃ controller,
      (x.state n).controllers[c]? = some controller ∧ controller.phase.HasBegun := by
    rcases (causes_of_run (x.run n)).once c with hnone | ⟨t, result, controller, -, hc⟩
    · have hend : ((x.state j).now, .ok machine) ∈ startEnds (x.history n) c :=
        List.mem_filterMap.2 ⟨_, hin hj, by simp [hs, startEnd?]⟩
      rw [hnone] at hend
      cases hend
    · exact ⟨controller, hc⟩
  obtain ⟨m, hm, hend⟩ := reaches_end x hk hd hc hb
  refine ⟨m, fun i hi => ?_⟩
  obtain ⟨before, hbefore, -⟩ := controller_goes_on x hc hm
  obtain ⟨after, hafter, hrank⟩ := controller_goes_on x hbefore hi
  rw [controllerAt_eq hbefore] at hend
  rw [hend] at hrank
  have hterminated := Controller.terminated_of_rank hrank
  refine ⟨after, hafter, hterminated, ?_⟩
  -- What was done to the machine by then is read off the controller's own course.
  have run := run_course (x.run i) c
  rw [controllerAt_eq hafter] at run
  obtain ⟨y, hy, hdid⟩ := exists_did (hin (Nat.lt_of_lt_of_le hj (Nat.le_trans hm hi))) hs
  obtain ⟨id, root, hnames⟩ := Controller.names_of_run run
  obtain rfl : machine.id = id := hnames.id y hy machine hdid
  have hdone := (Controller.course_of_run run hnames).done
  rw [hterminated] at hdone
  have hforms := hdone.resolve_right fun h => h.1 ⟨y, hy, machine, hdid⟩
  simp only [Controller.endings, List.mem_cons, List.not_mem_nil, or_false] at hforms
  refine ⟨root, hforms.imp_right (Or.imp_right fun hexit => ⟨hexit, ?_⟩)⟩
  have hrelease :
      .call (.releaseNetwork machine.id) ∈ Controller.deeds (course (x.history i) c) := by
    simp [hexit, Controller.exitEnding, Controller.cleanup]
  refine Controller.exitTaken_of_release run hnames hrelease ?_
  simp [hexit, Controller.exitEnding, Controller.cleanup]

theorem lost_machine_is_torn_down {j : Nat} (hmk : (makings (x.history n))[c]? = some mk)
    (hcall : (x.state n).calls[mk.call]? = some call) (hl : call.isLost = true)
    (hs : x.input j = .controller c (.driverStarted (.ok machine))) (hk : KeepsGoing x c) :
    ∃ m, ∀ i ≥ m, ∃ controller, (x.state i).controllers[c]? = some controller ∧
      controller.phase = .terminated ∧ TornDown machine.id (course (x.history i) c) := by
  have hn : n ≤ max n (j + 1) := Nat.le_max_left ..
  have hj : j < max n (j + 1) := Nat.lt_of_lt_of_le (Nat.lt_succ_self j) (Nat.le_max_right ..)
  refine doomed_machine_is_torn_down x hj hs hk fun i hi => .inl ?_
  -- Once the call has ended and the driver has answered, nobody holds the controller any more.
  exact (books_of_run (x.run i)).not_held (makings_stays x hmk (Nat.le_trans hn hi))
    (call_stays x hcall (isUnfinished_of_isLost hl) (Nat.le_trans hn hi)) hl

/-- The error of a start whose controller was made: the driver's own, in particular if the driver
has failed before the deadline, or the fleet's when it has given the machine up. -/
def Explained (config : FleetConfig) (history : List Episode) (now : Instant) (mk : Making)
    (c : Nat) (e : Error) : Prop :=
  ((∃ t, startEnds history c = [(t, .error e)]) ∨ GivenUp config history now mk c e) ∧
    ∀ t e', (t, .error e') ∈ startEnds history c → t < mk.deadline → e = e'

theorem explained_of_cause {history : List Episode} {now : Instant} {e : Error}
    (h : Cause config history now mk c (.finished (.started (.error e)))) :
    Explained config history now mk c e := by
  refine ⟨h, fun t e' hmem ht => ?_⟩
  rcases h with ⟨t', hs⟩ | ⟨-, -, hdue⟩ | ⟨t', machine, hs, -⟩
  · rw [hs] at hmem
    cases List.mem_singleton.1 hmem
    rfl
  · exact absurd (hdue _ hmem) (Nat.not_le.2 ht)
  · rw [hs] at hmem
    cases List.mem_singleton.1 hmem

/-- A start that fails does so for a reason and leaves nothing behind. If no controller was made,
the driver could not be made. Else the error is explained, and no entry of the registry holds the
controller, then or later. And once the call has failed, or its caller went away, a machine that the
driver has started or starts later is torn down, as long as its controller is kept going. -/
theorem failed_start_leaves_nothing (x : Execution step (start config)) :
    (∀ n k e, (x.state n).calls[k]? = some (.finished (.started (.error e))) →
      ((∃ y ∈ x.history n, y.input = .create k (.error e)) ∧
        ∀ mk ∈ makings (x.history n), mk.call ≠ k) ∨
      ∃ c mk, (makings (x.history n))[c]? = some mk ∧ mk.call = k ∧
        Explained config (x.history n) (x.state n).now mk c e ∧
        ∀ m ≥ n, ∀ id entry, (x.state m).registry.get? id = some entry → entry.controller ≠ c) ∧
    ∀ n c mk call j machine, (makings (x.history n))[c]? = some mk →
      (x.state n).calls[mk.call]? = some call → call.isLost = true →
      x.input j = .controller c (.driverStarted (.ok machine)) → KeepsGoing x c →
      ∃ m, ∀ i ≥ m, ∃ controller, (x.state i).controllers[c]? = some controller ∧
        controller.phase = .terminated ∧ TornDown machine.id (course (x.history i) c) := by
  constructor
  · intro n k e hk
    have causes := causes_of_run (x.run n)
    -- The call has made a controller, or it has failed before that.
    by_cases hmade : ∃ mk ∈ makings (x.history n), mk.call = k
    · obtain ⟨mk, hmem, rfl⟩ := hmade
      obtain ⟨c, hmk⟩ := List.mem_iff_getElem?.1 hmem
      refine .inr ⟨c, mk, hmk, rfl, explained_of_cause (causes.cause c mk _ hmk hk), ?_⟩
      rintro m hm id entry he rfl
      refine (books_of_run (x.run m)).not_listed (makings_stays x hmk hm) (call_stays x hk rfl hm)
        rfl (.inl ⟨id, entry, he, rfl⟩)
    · have hn : ∀ mk ∈ makings (x.history n), mk.call ≠ k := fun mk hm h => hmade ⟨mk, hm, h⟩
      exact .inl ⟨causes.unmade k e hk hn, hn⟩
  · intro n c mk call j machine hmk hcall hl hs hk
    exact lost_machine_is_torn_down x hmk hcall hl hs hk

/-- A start that times out. The machine comes up when its call has already failed. -/
def lateStart : List Action :=
  [.request .start, .create 0 (.ok ()), .controller 0 .receive, .elapse 30000000000, .expire 0,
    .proceed 0, .proceed 0, .proceed 0,
    .controller 0 (.driverStarted (.ok ⟨"m1", .v4 (.ofBytes 10 0 0 2)⟩)),
    .controller 0 (.machineExited none), .controller 0 (.driverShutDown none),
    .controller 0 (.networkReleased none (some "/srv/m1")), .controller 0 (.rootRemoved none)]

theorem late_machine_is_torn_down :
    ∃ (x : Execution step (start (.defaults "/"))) (n : Nat) (mk : Making),
      (makings (x.history n))[0]? = some mk ∧
      (x.state n).calls[mk.call]? =
        some (.finished (.started (.error (.startTimeout 30000000000)))) ∧
      (∃ j, x.input j = .controller 0 (.driverStarted (.ok ⟨"m1", .v4 (.ofBytes 10 0 0 2)⟩))) ∧
      KeepsGoing x 0 ∧
      (∀ m ≥ n, ∀ id entry, (x.state m).registry.get? id = some entry → entry.controller ≠ 0) ∧
      ∃ m, ∀ i ≥ m, TornDown "m1" (course (x.history i) 0) := by
  obtain ⟨⟨past, f⟩, hr⟩ :
      ∃ r, replay step (start (.defaults "/")) lateStart = some r := ⟨_, rfl⟩
  have hlast {β : Type} (g : Fleet → β) {b : β} := last_of_replay hr g (b := b)
  have hidle : f.step (.elapse 0) = some (f, []) := rfl
  obtain ⟨x, hx, hrest⟩ := Execution.exists_of_run (Run.of_replay hr) (.forever hidle)
  have hstate (m : Nat) (hm : m ≥ past.length) : x.state m = f := by
    obtain ⟨d, rfl⟩ := Nat.exists_eq_add_of_le hm
    exact (hrest d).1
  have hmade : makings (x.history past.length) = [⟨0, 0, 30000000000⟩] := by
    rw [hx]
    exact history_of_replay hr makings rfl
  have hmk : (makings (x.history past.length))[0]? = some ⟨0, 0, 30000000000⟩ := by
    rw [hmade]
    rfl
  have hcall : (x.state past.length).calls[0]? =
      some (.finished (.started (.error (.startTimeout 30000000000)))) := by
    rw [hstate _ (Nat.le_refl _)]
    exact hlast (·.calls[0]?) rfl
  have hstarted : ∃ j, x.input j =
      .controller 0 (.driverStarted (.ok ⟨"m1", .v4 (.ofBytes 10 0 0 2)⟩)) := by
    obtain ⟨y, hy, hi⟩ := (mem_inputs_of_replay hr).1 (by simp [lateStart] :
      .controller 0 (.driverStarted (.ok ⟨"m1", .v4 (.ofBytes 10 0 0 2)⟩)) ∈ lateStart)
    rw [← hx] at hy
    obtain ⟨j, -, rfl⟩ := x.mem_history.1 hy
    exact ⟨j, hi⟩
  have hgoing : KeepsGoing x 0 := by
    have hphase : (f.controllers[0]?).map (·.phase) = some .terminated :=
      hlast (fun f => (f.controllers[0]?).map (·.phase)) rfl
    obtain ⟨controller, hc, hp⟩ := Option.map_eq_some_iff.1 hphase
    rw [← hstate past.length (Nat.le_refl _)] at hc
    exact keepsGoing_of_terminated x hc hp
  obtain ⟨hfailed, hlost⟩ := failed_start_leaves_nothing x
  have hleft : ∀ m ≥ past.length, ∀ id entry, (x.state m).registry.get? id = some entry →
      entry.controller ≠ 0 := by
    rcases hfailed past.length 0 _ hcall with ⟨-, hn⟩ | ⟨c, mk, hc, -, -, hnever⟩
    · exact absurd rfl (hn _ (List.mem_of_getElem? hmk))
    · rw [hmade] at hc
      obtain rfl : c = 0 := by
        have hlt := (List.getElem?_eq_some_iff.1 hc).1
        simpa using hlt
      exact hnever
  obtain ⟨j, hj⟩ := hstarted
  obtain ⟨m, hm⟩ := hlost past.length 0 _ _ j _ hmk hcall rfl hj hgoing
  refine ⟨x, past.length, _, hmk, hcall, ⟨j, hj⟩, hgoing, hleft, m, fun i hi => ?_⟩
  obtain ⟨-, -, -, htorn⟩ := hm i hi
  exact htorn

end Executions

end MachineFleet.Fleet
