import MachineFleet.Proofs.Fleet.Stops

namespace MachineFleet.Fleet

namespace Call

/-- When a close that drains returns at the latest, if no machine takes longer to stop than this. -/
def latest (timeout : Duration) (now : Instant) : Call → Instant
  | draining rest => now + rest.length * timeout
  | stopping _ _ deadline _ rest => max now deadline + rest.length * timeout
  | _ => 0

theorem latest_deliverAll (timeout : Duration) (now : Instant)
    (effects : List Controller.Effect) (call : Call) :
    (call.deliverAll effects).latest timeout now = call.latest timeout now := by
  refine deliverAll_congr (latest timeout now) (fun call r answer => ?_) call
  unfold deliver
  split <;> rfl

def waitsUntil (t : Instant) : Call → Bool
  | stopping _ _ deadline none _ => t ≤ deadline
  | _ => false

end Call

section Steps

variable {f f' f₁ : Fleet} {a : Action} {effects : List Effect} {made : List Making} {k c : Nat}
  {call old new : Call} {controller : Controller} {t : Instant}

/-- Nothing disturbs a close in one step: its caller does not give it up, no time passes but what it
waits for, and no start is under way. -/
structure Calm (k : Nat) (f : Fleet) (a : Action) (call : Call) : Prop where
  kept : a ≠ .abandon k
  prompt : ∀ d, a = .elapse d → call.isUnfinished = true → call.waitsUntil (f.now + d) = true
  alone : call.isUnfinished = true → ∀ other ∈ f.calls, other.isStarting = false

/-- What a close does itself, as long as its caller does not give it up. -/
inductive OwnStep (k : Nat) : Action → Prop where
  | proceed : OwnStep k (.proceed k)
  | drain (id : String) : OwnStep k (.drain k id)
  | expire : OwnStep k (.expire k)

theorem OwnStep.calm (h : OwnStep k a)
    (halone : call.isUnfinished = true → ∀ other ∈ f.calls, other.isStarting = false) :
    Calm k f a call := by
  refine ⟨?_, ?_, halone⟩
  · intro ha
    subst ha
    cases h
  · intro d ha
    subst ha
    cases h

theorem now_cases (h : Move f a f' effects) :
    f'.now = f.now ∨ ∃ d, a = .elapse d ∧ f'.now = f.now + d := by
  cases h with
  | turned k a old new f₁ effects hk ht => cases ht <;> exact .inl rfl
  | elapsed d => exact .inr ⟨d, rfl, rfl⟩
  | _ => exact .inl rfl

theorem health_move (h : Move f a f' effects) (hd : f.health = ⟨false, false⟩) :
    f'.health = ⟨false, false⟩ := by
  cases h with
  | turned k a old new f₁ effects hk ht =>
    cases ht with
    | closing => rfl
    | _ => exact hd
  | _ => exact hd

/-- How far a close has come that was called at some time: until it has found its machines no time
passes, and by then the fleet accepts no work. -/
def Opened (t : Instant) (f : Fleet) (call : Call) : Prop :=
  call = .closing ∧ f.now = t ∨ call = .snapshotting ∧ f.now = t ∧ f.health = ⟨false, false⟩ ∨
    call.isDraining = true ∧ f.health = ⟨false, false⟩

theorem Opened.move (h : Opened t f call) (hm : Move f a f' effects)
    (hk : f.calls[k]? = some call) (hcalm : Calm k f a call) :
    ∃ call', f'.calls[k]? = some call' ∧ Opened t f' call' := by
  have hnow (hu : call.isUnfinished = true) (hw : ∀ u, call.waitsUntil u = false) :
      f'.now = f.now := by
    rcases now_cases hm with hnow | ⟨d, hd, -⟩
    · exact hnow
    · cases (hcalm.prompt d hd hu).symm.trans (hw _)
  rcases h with ⟨rfl, ht⟩ | ⟨rfl, ht, hh⟩ | ⟨hd, hh⟩
  · have htime : f'.now = t := (hnow rfl fun _ => rfl).trans ht
    rcases call_cases hm hk with ⟨new, f₁, turn, rfl, hnew⟩ | hcreating | ⟨made, hsame, -⟩
    · refine ⟨new, hnew, ?_⟩
      cases turn with
      | closing => exact .inr (.inl ⟨rfl, htime, rfl⟩)
      | abandon => exact absurd rfl hcalm.kept
    · cases hcreating
    · exact ⟨_, hsame, .inl ⟨Call.deliverAll_of_deliver fun _ _ => rfl, htime⟩⟩
  · have htime : f'.now = t := (hnow rfl fun _ => rfl).trans ht
    rcases call_cases hm hk with ⟨new, f₁, turn, rfl, hnew⟩ | hcreating | ⟨made, hsame, -⟩
    · refine ⟨new, hnew, ?_⟩
      cases turn with
      | snapshot => exact .inr (.inr ⟨rfl, hh⟩)
      | abandon => exact absurd rfl hcalm.kept
    · cases hcreating
    · refine ⟨_, hsame, .inr (.inl ⟨?_, htime, health_move hm hh⟩)⟩
      exact Call.deliverAll_of_deliver fun _ _ => rfl
  · obtain ⟨call', hk', hd' | ⟨-, hgone⟩⟩ := isDraining_move hm hk hd
    · exact ⟨call', hk', .inr (.inr ⟨hd', health_move hm hh⟩)⟩
    · exact absurd hgone hcalm.kept

/-- A close that is under way and may not let time pass has a step of its own: it waits for nothing
but the answer of a machine, and for that until the deadline only. -/
theorem Opened.exists_ownStep (h : Opened t f call) (hk : f.calls[k]? = some call)
    (hu : call.isUnfinished = true) (hw : call.waitsUntil (f.now + 1) = false) :
    ∃ a, OwnStep k a ∧ (f.step a).isSome = true := by
  cases call with
  | closing => exact ⟨.proceed k, .proceed, by simp [step, Fleet.proceed, hk]⟩
  | snapshotting => exact ⟨.proceed k, .proceed, by simp [step, Fleet.proceed, hk]⟩
  | draining rest =>
    cases rest with
    | nil => exact ⟨.proceed k, .proceed, by simp [step, Fleet.proceed, hk]⟩
    | cons entry rest => exact ⟨.drain k entry.id, .drain entry.id, by simp [step, Fleet.drain, hk]⟩
  | stopping entry reply deadline answer rest =>
    cases answer with
    | some answer => exact ⟨.proceed k, .proceed, by simp [step, Fleet.proceed, hk]⟩
    | none =>
      have hdue : deadline ≤ f.now := by
        apply Nat.le_of_lt_succ
        exact Nat.lt_of_not_le (of_decide_eq_false hw)
      exact ⟨.expire k, .expire, by simp [step, Fleet.expire, hk, hdue]⟩
  | finished | abandoned => cases hu
  | _ =>
    rcases h with ⟨hc, -⟩ | ⟨hc, -⟩ | ⟨hd, -⟩
    · cases hc
    · cases hc
    · cases hd

theorem latest_turn (h : Turn f k a old new f₁ effects) (hd : old.isDraining = true) :
    new.latest f.config.stopTimeout f₁.now ≤ old.latest f.config.stopTimeout f.now := by
  have hshorter {all : List (Entry Nat)} {entry : Entry Nat} {id : String}
      (he : all.find? (·.id == id) = some entry) :
      ((all.filter (·.id != id)).length + 1) * f.config.stopTimeout ≤
        all.length * f.config.stopTimeout := by
    apply Nat.mul_le_mul_right
    have hid : entry.id = id := by simpa using List.find?_some he
    have hlt : (all.filter (·.id != id)).length < all.length :=
      List.length_filter_lt_length_iff_exists.2
        ⟨entry, List.mem_of_find?_eq_some he, by simp [hid]⟩
    exact hlt
  cases h with
  | stopSent id all entry he ho =>
    have hmax : max f.now (f.now + f.config.stopTimeout) = f.now + f.config.stopTimeout :=
      Nat.max_eq_right (Nat.le_add_right ..)
    calc max f.now (f.now + f.config.stopTimeout) +
          (all.filter (·.id != id)).length * f.config.stopTimeout
        = f.now + ((all.filter (·.id != id)).length + 1) * f.config.stopTimeout := by
          rw [hmax, Nat.succ_mul, Nat.add_assoc, Nat.add_comm f.config.stopTimeout]
      _ ≤ f.now + all.length * f.config.stopTimeout := Nat.add_le_add_left (hshorter he) _
  | skipped id all entry he ho =>
    refine Nat.add_le_add_left (Nat.le_trans ?_ (hshorter he)) f.now
    exact Nat.mul_le_mul_right _ (Nat.le_succ _)
  | stopped entry reply deadline answer rest =>
    exact Nat.add_le_add_right (Nat.le_max_left f.now deadline) _
  | overdue entry reply deadline rest hdue =>
    exact Nat.add_le_add_right (Nat.le_max_left f.now deadline) _
  | closed => exact Nat.zero_le _
  | abandon => exact Nat.zero_le _
  | _ => cases hd

theorem latest_of_waitsUntil {timeout : Duration} {d : Duration}
    (hw : call.waitsUntil (f.now + d) = true) :
    call.latest timeout (f.now + d) ≤ call.latest timeout f.now := by
  cases call with
  | stopping entry reply deadline answer rest =>
    cases answer with
    | none =>
      refine Nat.add_le_add_right ?_ (rest.length * timeout)
      rw [Nat.max_eq_right (of_decide_eq_true hw)]
      exact Nat.le_max_right f.now deadline
    | some answer => cases hw
  | _ => cases hw

theorem latest_move {call' : Call} (hm : Move f a f' effects) (hk : f.calls[k]? = some call)
    (hk' : f'.calls[k]? = some call') (hd : call.isDraining = true) (hcalm : Calm k f a call) :
    call'.latest f.config.stopTimeout f'.now ≤ call.latest f.config.stopTimeout f.now := by
  rcases call_cases hm hk with ⟨new, f₁, turn, rfl, hnew⟩ | rfl | ⟨made, hsame, -⟩
  · rw [hk'] at hnew
    cases hnew
    have hturn : call'.latest f.config.stopTimeout f₁.now ≤ _ := latest_turn turn hd
    exact hturn
  · cases hd
  · rw [hk'] at hsame
    cases hsame
    rw [Call.latest_deliverAll]
    rcases now_cases hm with hnow | ⟨d, rfl, hnow⟩
    · exact Nat.le_of_eq (by rw [hnow])
    · rw [hnow]
      cases hu : call.isUnfinished with
      | true => exact latest_of_waitsUntil (hcalm.prompt d rfl hu)
      | false =>
        -- What has returned takes no more time.
        cases call with
        | finished => exact Nat.le_refl _
        | abandoned => exact Nat.le_refl _
        | _ => cases hu

/-- A controller has begun, and nothing keeps it from its end whoever holds it. -/
def Doomed (f : Fleet) (c : Nat) : Prop :=
  ∃ controller, f.controllers[c]? = some controller ∧ controller.phase.HasBegun ∧
    controller.IsDoomed true

theorem Doomed.move (h : Doomed f c) (hm : Move f a f' effects) : Doomed f' c := by
  obtain ⟨controller, hc, hb, hd⟩ := h
  obtain ⟨after, hafter, ⟨did, made, -, hstep⟩ | ⟨-, rfl | ⟨-, m, rfl⟩⟩⟩ := controller_cases hm hc
  · refine ⟨after, hafter, ?_, Controller.isDoomed_move hstep hb hd⟩
    exact Nat.le_trans hb (Controller.rank_move hstep)
  · exact ⟨_, hafter, hb, hd⟩
  · exact ⟨_, hafter, by simpa using hb, Controller.isDoomed_postIfHeld hd m⟩

theorem doomed_of_stop {g : Fleet} {reply : ReplyId} (hc : f.controllers[c]? = some controller)
    (hb : controller.phase.HasBegun) (ho : f.isOpen c = true)
    (hg : g.controllers = (f.post c (.stop reply)).controllers) : Doomed g c := by
  have hopen : controller.isOpen = true := by simpa [isOpen, hc] using ho
  refine ⟨posted controller (.stop reply), ?_, by simpa using hb, ?_⟩
  · rw [hg, getElem?_post, hc]
    simp
  · refine .inr (.inr ⟨.stop reply, ?_, rfl⟩)
    simp [posted_eq, hopen]

theorem doomed_of_closed (hc : f.controllers[c]? = some controller)
    (hb : controller.phase.HasBegun) (hs : controller.Sound) (ho : f.isOpen c = false) :
    Doomed f c := by
  have hshut : controller.isOpen = false := by simpa [isOpen, hc] using ho
  refine ⟨controller, hc, hb, .inr (.inl ?_)⟩
  apply Nat.lt_of_not_le
  intro hrank
  cases hshut.symm.trans (hs.isOpen hrank)

theorem doomed_of_turn {e : Entry Nat} (ht : Turn f k a old new f₁ effects)
    (hd : old.isDraining = true) (he : e ∈ old.pending)
    (hunique : ∀ e' ∈ old.pending, e'.id = e.id → e' = e)
    (hc : f.controllers[e.controller]? = some controller) (hb : controller.phase.HasBegun)
    (hs : controller.Sound) (ha : a ≠ .abandon k) :
    e ∈ new.pending ∨ Doomed f₁ e.controller := by
  cases ht with
  | stopSent id all entry hfound ho =>
    rcases mem_left_of_filter hfound he with heq | hleft
    · obtain rfl := hunique entry (List.mem_of_find?_eq_some hfound) heq.symm
      exact .inr (doomed_of_stop hc hb ho rfl)
    · exact .inl hleft
  | skipped id all entry hfound ho =>
    rcases mem_left_of_filter hfound he with heq | hleft
    · obtain rfl := hunique entry (List.mem_of_find?_eq_some hfound) heq.symm
      exact .inr (doomed_of_closed hc hb hs ho)
    · exact .inl hleft
  | stopped => exact .inl he
  | overdue => exact .inl he
  | closed => cases he
  | abandon => exact absurd rfl ha
  | _ => cases hd

/-- How far a close has come that has found the machines of some registry and has to return by some
time: the registry holds none but those that it has not passed over, and all that it has gone on
with are doomed. -/
structure Underway (found : Registry Nat) (bound : Instant) (f : Fleet) (call : Call) : Prop where
  draining : call.isDraining = true
  pending : ∀ e ∈ call.pending, e ∈ found.snapshot
  latest : call.latest f.config.stopTimeout f.now ≤ bound
  left : call.isUnfinished = true → Leaves (fun _ => True) f call
  doomed : ∀ e ∈ found.snapshot, e ∈ call.pending ∨ Doomed f e.controller

variable {found : Registry Nat} {bound : Instant} {call' : Call}

theorem Underway.left_move (h : Underway found bound f call) (hm : Move f a f' effects)
    (hk : f.calls[k]? = some call) (hk' : f'.calls[k]? = some call')
    (hd' : call'.isDraining = true) (hcalm : Calm k f a call)
    (hu' : call'.isUnfinished = true) : Leaves (fun _ => True) f' call' := by
  have hu : call.isUnfinished = true := by
    by_cases hu : call.isUnfinished = true
    · exact hu
    · have hstays := ended_stays hm hk (by simpa using hu)
      rw [hk'] at hstays
      cases hstays
      exact hu'
  refine (h.left hu).move hm hk hk' h.draining hd' ?_
  intro j c machine hj
  have hstart := hcalm.alone hu _ (List.mem_of_getElem? hj)
  cases hstart

theorem Underway.doomed_move (h : Underway found bound f call) (b : Books made f)
    (hm : Move f a f' effects) (hk : f.calls[k]? = some call) (hk' : f'.calls[k]? = some call')
    (hcalm : Calm k f a call)
    (hsound : ∀ (c : Nat) (controller : Controller), f.controllers[c]? = some controller →
      controller.Sound) {e : Entry Nat} (he : e ∈ found.snapshot)
    (hreg : Registered made f e.controller) : e ∈ call'.pending ∨ Doomed f' e.controller := by
  rcases h.doomed e he with hpending | hdoomed
  · rcases call_cases hm hk with ⟨new, f₁, turn, rfl, hnew⟩ | rfl | ⟨made, hsame, -⟩
    · rw [hk'] at hnew
      cases hnew
      obtain ⟨controller, hc, hb⟩ := b.exists_of_registered hreg
      have hturn : e ∈ call'.pending ∨ Doomed f₁ e.controller := by
        refine doomed_of_turn turn h.draining hpending ?_ hc hb (hsound _ _ hc) hcalm.kept
        -- No identity was found twice.
        intro e' he' hid
        have hget := Registry.mem_snapshot.1 (h.pending e' he')
        rw [hid, Registry.mem_snapshot.1 he] at hget
        exact (Option.some.inj hget).symm
      exact hturn
    · cases h.draining
    · rw [hk'] at hsame
      cases hsame
      rw [Call.pending_deliverAll]
      exact .inl hpending
  · exact .inr (hdoomed.move hm)

theorem Underway.move (h : Underway found bound f call) (b : Books made f)
    (hm : Move f a f' effects) (hk : f.calls[k]? = some call) (hcalm : Calm k f a call)
    (hsound : ∀ (c : Nat) (controller : Controller), f.controllers[c]? = some controller →
      controller.Sound)
    (hreg : ∀ e ∈ found.snapshot, Registered made f e.controller) :
    ∃ call', f'.calls[k]? = some call' ∧ Underway found bound f' call' := by
  obtain ⟨call', hk', hd' | ⟨-, hgone⟩⟩ := isDraining_move hm hk h.draining
  · refine ⟨call', hk', hd', ?_, ?_, ?_, ?_⟩
    · intro e he
      exact h.pending e (pending_move hm hk hk' h.draining e he)
    · rw [config_move hm]
      exact Nat.le_trans (latest_move hm hk hk' h.draining hcalm) h.latest
    · exact h.left_move hm hk hk' hd' hcalm
    · intro e he
      exact h.doomed_move b hm hk hk' hcalm hsound he (hreg e he)
  · exact absurd hgone hcalm.kept

theorem now_le_latest {timeout : Duration} (hd : call.isDraining = true)
    (hu : call.isUnfinished = true) : f.now ≤ call.latest timeout f.now := by
  cases call with
  | draining rest => exact Nat.le_add_right ..
  | stopping entry reply deadline answer rest =>
    exact Nat.le_trans (Nat.le_max_left f.now deadline) (Nat.le_add_right ..)
  | finished outcome => cases hu
  | _ => cases hd

theorem closed_of_turn (h : Turn f k a old new f₁ effects) (hd : old.isDraining = true)
    (hu : new.isUnfinished = false) (ha : a ≠ .abandon k) :
    old = .draining [] ∧ a = .proceed k ∧ new = .finished .closed ∧ f₁ = f.endEvents := by
  cases h with
  | closed => exact ⟨rfl, rfl, rfl, rfl⟩
  | abandon => exact absurd rfl ha
  | stopSent | skipped | stopped | overdue => cases hu
  | _ => cases hd

end Steps

/-- A close that is called at some time and that nothing disturbs, while time does not stand still.
-/
structure Undisturbed {config : FleetConfig} (x : Execution step (start config)) (n k : Nat) :
    Prop where
  called : x.input n = .request .close
  number : (x.state n).calls.length = k
  calm : ∀ i call, (x.state i).calls[k]? = some call → Calm k (x.state i) (x.input i) call
  passes : ∀ t, ∃ i, t ≤ (x.state i).now

/-- What was done to a machine so far is a part of one way to tear it down, step by step and with
nothing done twice. -/
def FollowsEnding (id : String) (course : List Controller.Episode) : Prop :=
  ∃ root, ∃ form ∈ [.call .start] :: Controller.endings id root,
    Controller.deeds course <+: form

section Executions

variable {config : FleetConfig} {x : Execution step (start config)} {n k s c : Nat}

def Episode.isCalm (k : Nat) (y : Episode) : Bool :=
  match y.before.calls[k]? with
  | some call =>
    (match y.input with
      | .abandon i => i != k
      | .elapse d => !call.isUnfinished || call.waitsUntil (y.before.now + d)
      | _ => true) &&
    (!call.isUnfinished || y.before.calls.all (fun other => !other.isStarting))
  | none => true

theorem calm_of_isCalm {y : Episode} {call : Call} (h : Episode.isCalm k y = true)
    (hk : y.before.calls[k]? = some call) : Calm k y.before y.input call := by
  simp only [Episode.isCalm, hk, Bool.and_eq_true] at h
  obtain ⟨hinput, halone⟩ := h
  refine ⟨?_, ?_, ?_⟩
  · intro ha
    simp [ha] at hinput
  · intro d hd hu
    simpa [hd, hu] using hinput
  · intro hu other ho
    rw [hu, Bool.not_true, Bool.false_or, List.all_eq_true] at halone
    simpa using halone other ho

theorem undisturbed_of_ticking {past : List Episode} {f : Fleet} {outcome : Outcome}
    (hpast : ∀ i < past.length, past[i]? = some ⟨x.state i, x.input i, x.effects i⟩)
    (hrest : ∀ i ≥ past.length, x.state i = { f with now := f.now + (i - past.length) } ∧
      x.input i = .elapse 1)
    (hcalled : x.input n = .request .close) (hnumber : (x.state n).calls.length = k)
    (hcalm : past.all (Episode.isCalm k) = true)
    (hend : f.calls[k]? = some (.finished outcome)) : Undisturbed x n k := by
  refine ⟨hcalled, hnumber, ?_, ?_⟩
  · intro i call hk
    rcases Nat.lt_or_ge i past.length with hi | hi
    · have hmem := List.mem_of_getElem? (hpast i hi)
      have hstep := List.all_eq_true.1 hcalm _ hmem
      exact calm_of_isCalm hstep hk
    · -- The close has ended by then.
      obtain ⟨hstate, hinput⟩ := hrest i hi
      rw [hstate, hend] at hk
      cases hk
      refine ⟨?_, ?_, ?_⟩
      · intro ha
        cases ha.symm.trans hinput
      · intro d _ hu
        cases hu
      · intro hu
        cases hu
  · intro t
    obtain ⟨hstate, -⟩ := hrest (past.length + t) (Nat.le_add_right ..)
    refine ⟨past.length + t, ?_⟩
    rw [hstate, Nat.add_sub_cancel_left]
    exact Nat.le_add_left t f.now

theorem exists_later (hp : ∀ t, ∃ i, t ≤ (x.state i).now) (t : Instant) (n : Nat) :
    ∃ i ≥ n, t ≤ (x.state i).now := by
  obtain ⟨i, hi⟩ := hp t
  have hlater : (x.state i).now ≤ (x.state (max i n)).now := now_le x (Nat.le_max_left i n)
  exact ⟨max i n, Nat.le_max_right i n, Nat.le_trans hi hlater⟩

theorem Undisturbed.opened (h : Undisturbed x n k) {i : Nat} (hi : n < i) :
    ∃ call, (x.state i).calls[k]? = some call ∧ Opened (x.state n).now (x.state i) call := by
  refine Execution.stays (n := n + 1) (P := fun i => ∃ call, (x.state i).calls[k]? = some call ∧
    Opened (x.state n).now (x.state i) call) ?_ hi ?_
  · have hm := move_of_step (x.steps n)
    rw [h.called] at hm
    generalize x.state (n + 1) = f', x.effects n = effects at hm
    cases hm with
    | turned i a old new f₁ effects hi ht => cases ht
    | request r he =>
      refine ⟨.closing, ?_, .inl ⟨rfl, rfl⟩⟩
      rw [← h.number]
      exact List.getElem?_concat_length
  · rintro i - ⟨call, hk, hopened⟩
    exact hopened.move (move_of_step (x.steps i)) hk (h.calm i call hk)

/-- Where time may not pass, the close can go on itself, and is not disturbed by that. -/
theorem Undisturbed.exists_ownStep (h : Undisturbed x n k) {i : Nat} (hi : n < i) {call : Call}
    (hk : (x.state i).calls[k]? = some call) (hu : call.isUnfinished = true)
    (hw : call.waitsUntil ((x.state i).now + 1) = false) :
    ∃ a, OwnStep k a ∧ ((x.state i).step a).isSome = true ∧ Calm k (x.state i) a call := by
  obtain ⟨call', hk', hopened⟩ := h.opened hi
  rw [hk] at hk'
  cases hk'
  obtain ⟨a, hown, hstep⟩ := hopened.exists_ownStep hk hu hw
  exact ⟨a, hown, hstep, hown.calm (h.calm i call hk).alone⟩

/-- It takes stock at the very time at which it is called, and the fleet accepts no work by then. -/
theorem Undisturbed.exists_takesStock (h : Undisturbed x n k) :
    ∃ s > n, TakesStock x k s ∧ (x.state s).now = (x.state n).now ∧
      (x.state s).health = ⟨false, false⟩ := by
  -- Time passes, which it does not before the close has taken stock.
  obtain ⟨i, hi, hnow⟩ := exists_later h.passes ((x.state n).now + 1) (n + 1)
  obtain ⟨call, hk, hopened⟩ := h.opened hi
  have hd : call.isDraining = true := by
    rcases hopened with ⟨-, ht⟩ | ⟨-, ht, -⟩ | ⟨hd, -⟩
    · rw [ht] at hnow
      exact absurd hnow (Nat.lt_irrefl _)
    · rw [ht] at hnow
      exact absurd hnow (Nat.lt_irrefl _)
    · exact hd
  obtain ⟨s, -, hs⟩ := Fleet.exists_takesStock x hk hd
  have hns : n < s := by
    have hnone : (x.state n).calls[k]? = none := by
      apply List.getElem?_eq_none
      exact Nat.le_of_eq h.number
    apply Nat.lt_of_not_le
    intro hsn
    rcases Nat.eq_or_lt_of_le hsn with rfl | hlt
    · cases hnone.symm.trans hs.call
    · obtain ⟨call', hk', -⟩ := pending_shrinks x hs.next rfl hlt
      cases hnone.symm.trans hk'
  obtain ⟨call', hk', hopened'⟩ := h.opened hns
  rw [hs.call] at hk'
  cases hk'
  rcases hopened' with ⟨hc, -⟩ | ⟨-, ht, hh⟩ | ⟨hc, -⟩
  · cases hc
  · exact ⟨s, hns, hs, ht, hh⟩
  · cases hc

theorem registered_of_mem_snapshot {e : Entry Nat} {m : Nat}
    (he : e ∈ (x.state n).registry.snapshot) (hm : n ≤ m) :
    Registered (makings (x.history m)) (x.state m) e.controller := by
  have hlisted : Listed (x.state n) e.controller :=
    .inl ⟨e.id, e, Registry.mem_snapshot.1 he, rfl⟩
  exact registered_stays x ((books_of_run (x.run n)).listing e.controller hlisted) hm

theorem Undisturbed.underway (h : Undisturbed x n k) (hs : TakesStock x k s) {i : Nat}
    (hi : s < i) :
    ∃ call, (x.state i).calls[k]? = some call ∧ Underway (x.state s).registry
      ((x.state s).now + (x.state s).registry.snapshot.length * config.stopTimeout)
      (x.state i) call := by
  refine Execution.stays (n := s + 1) (P := fun i => ∃ call, (x.state i).calls[k]? = some call ∧
    Underway (x.state s).registry
      ((x.state s).now + (x.state s).registry.snapshot.length * config.stopTimeout)
      (x.state i) call) ?_ hi ?_
  · refine ⟨.draining (x.state s).registry.snapshot, hs.next, rfl, fun e he => he, ?_, ?_, ?_⟩
    · have hnow : (x.state (s + 1)).now = (x.state s).now := by
        rw [hs.state]
        rfl
      rw [config_of_run (x.run (s + 1)), hnow]
      exact Nat.le_refl _
    · intro _ id e he _
      rw [hs.registry] at he
      exact ⟨e, Registry.mem_snapshot_of_get? he, Registry.id_of_get? he⟩
    · intro e he
      exact .inl he
  · rintro i hi ⟨call, hk, hunder⟩
    refine hunder.move (books_of_run (x.run i)) (move_of_step (x.steps i)) hk (h.calm i call hk)
      ?_ ?_
    · intro c controller hc
      have hcourse := run_course (x.run i) c
      rw [controllerAt_eq hc] at hcourse
      exact Controller.sound_of_run hcourse
    · intro e he
      exact registered_of_mem_snapshot he (Nat.le_of_lt hi)

/-- It returns, since time passes on and it has to be back by then. -/
theorem Undisturbed.returns (h : Undisturbed x n k) (hs : TakesStock x k s) :
    ∃ r > s, x.input r = .proceed k ∧ (x.state r).calls[k]? = some (.draining []) ∧
      x.state (r + 1) = (x.state r).endEvents.setCall k (.finished .closed) := by
  obtain ⟨m, hm, hlate⟩ := exists_later h.passes
    ((x.state s).now + (x.state s).registry.snapshot.length * config.stopTimeout + 1) (s + 1)
  have hended : ¬ ∃ call, (x.state m).calls[k]? = some call ∧ call.isUnfinished = true := by
    rintro ⟨call, hk, hu⟩
    obtain ⟨call', hk', hunder⟩ := h.underway hs hm
    rw [hk] at hk'
    cases hk'
    have hnow := Nat.le_trans (now_le_latest (f := x.state m) hunder.draining hu) hunder.latest
    exact absurd (Nat.le_trans hlate hnow) (Nat.lt_irrefl _)
  obtain ⟨r, hsr, -, hbefore, hafter⟩ := Execution.exists_last
    (P := fun i => ∃ call, (x.state i).calls[k]? = some call ∧ call.isUnfinished = true)
    ⟨_, hs.next, rfl⟩ hended hm
  obtain ⟨call, hk, hu⟩ := hbefore r hsr (Nat.le_refl r)
  obtain ⟨call', hk', hunder⟩ := h.underway hs hsr
  rw [hk] at hk'
  cases hk'
  refine ⟨r, hsr, ?_⟩
  rcases call_cases (move_of_step (x.steps r)) hk with ⟨new, f₁, turn, hstate, hnew⟩ | rfl |
    ⟨made, hsame, -⟩
  · have hfin : new.isUnfinished = false := by
      by_cases hn : new.isUnfinished = true
      · exact absurd ⟨new, hnew, hn⟩ hafter
      · simpa using hn
    have hkept := (h.calm r call hk).kept
    obtain ⟨rfl, hinput, rfl, rfl⟩ := closed_of_turn turn hunder.draining hfin hkept
    exact ⟨hinput, hk, hstate⟩
  · cases hunder.draining
  · refine absurd ⟨_, hsame, ?_⟩ hafter
    rw [Call.isUnfinished_deliverAll]
    exact hu

theorem followsEnding_of_started {j : Nat} {machine : Metadata}
    (hj : x.input j = .controller c (.driverStarted (.ok machine))) (hjn : j < n) :
    FollowsEnding machine.id (course (x.history n) c) := by
  have hcourse := run_course (x.run n) c
  have hmem : (⟨x.state j, x.input j, x.effects j⟩ : Episode) ∈ x.history n :=
    x.mem_history.2 ⟨j, hjn, rfl⟩
  obtain ⟨y, hy, hdid⟩ := exists_did hmem hj
  obtain ⟨id, root, hnames⟩ := Controller.names_of_run hcourse
  obtain rfl : machine.id = id := hnames.id y hy machine hdid
  exact ⟨root, Controller.exists_form_of_done (Controller.course_of_run hcourse hnames).done⟩

/-- A close with which no start overlaps finds the machines that are registered when it is called.
It returns when it has waited for each of them as long as it may, or earlier, and then the registry
is empty. It asks each of them at most once to stop, when the fleet accepts no work any more, and
only after the one before has answered or its time was up. And each of them is torn down once, also
if that takes longer than the close, as long as its controller is kept going. -/
theorem undisturbed_close_stops_all (h : Undisturbed x n k) :
    ∃ s r, n < s ∧ s < r ∧ TakesStock x k s ∧ (x.state s).now = (x.state n).now ∧
      (x.state (r + 1)).calls[k]? = some (.finished .closed) ∧
      (x.state (r + 1)).now ≤
        (x.state n).now + (x.state s).registry.snapshot.length * config.stopTimeout ∧
      (x.state (r + 1)).registry.snapshot = [] ∧
      (∀ i c reply, StopSent x k i c reply → s < i ∧ i < r ∧
        (x.state i).health = ⟨false, false⟩ ∧
        ∃ e ∈ (x.state s).registry.snapshot, e.controller = c) ∧
      (∀ i j c c' reply reply', i < j → StopSent x k i c reply → StopSent x k j c' reply' →
        c ≠ c' ∧
          ((∃ m answer, i < m ∧ m < j ∧ .controller c (.answer reply answer) ∈ x.effects m) ∨
            (x.state i).now + config.stopTimeout ≤ (x.state j).now)) ∧
      ∀ e ∈ (x.state s).registry.snapshot,
        (∀ i > s, FollowsEnding e.id (course (x.history i) e.controller)) ∧
        (KeepsGoing x e.controller → ∃ m, ∀ i ≥ m, ∃ controller,
          (x.state i).controllers[e.controller]? = some controller ∧
          controller.phase = .terminated ∧
          TornDown e.id (course (x.history i) e.controller)) := by
  obtain ⟨s, hns, hs, hnow, hhealth⟩ := h.exists_takesStock
  obtain ⟨r, hsr, hinput, hlast, hr⟩ := h.returns hs
  have hclosed : (x.state (r + 1)).calls[k]? = some (.finished .closed) := by
    rw [hr, getElem?_setCall (f := (x.state r).endEvents) hlast, if_pos rfl]
  obtain ⟨call, hk, hunder⟩ := h.underway hs hsr
  rw [hlast] at hk
  cases hk
  refine ⟨s, r, hns, hsr, hs, hnow, hclosed, ?_, ?_, ?_, ?_, ?_⟩
  · have hsame : (x.state (r + 1)).now = (x.state r).now := by
      rw [hr]
      rfl
    have hbound := hunder.latest
    rw [hnow] at hbound
    rw [hsame]
    exact Nat.le_trans (now_le_latest (f := x.state r) rfl rfl) hbound
  · have hregistry : (x.state (r + 1)).registry = (x.state r).registry := by
      rw [hr]
      rfl
    rw [hregistry, List.eq_nil_iff_forall_not_mem]
    intro e he
    obtain ⟨e', hleft, -⟩ := hunder.left rfl e.id e (Registry.mem_snapshot.1 he) trivial
    cases hleft
  · intro i c reply hstop
    obtain ⟨all, entry, id, hall, hentry, rfl, -⟩ := hstop.cases
    have hsi : s < i := hstop.lt hs
    have hfound := mem_pending_of_draining x hs.next rfl hall hsi entry
      (List.mem_of_find?_eq_some hentry)
    refine ⟨hsi, ?_, ?_, entry, hfound, rfl⟩
    · -- It asks nobody when it returns or after that.
      apply Nat.lt_of_not_le
      intro hri
      rcases Nat.eq_or_lt_of_le hri with rfl | hlt
      · obtain ⟨⟨id, hid⟩, -⟩ := hstop
        cases hinput.symm.trans hid
      · have hover := call_stays x hclosed rfl hlt
        cases hall.symm.trans hover
    · refine Execution.stays (P := fun i => (x.state i).health = ⟨false, false⟩) hhealth
        (Nat.le_of_lt hsi) ?_
      intro j _ hj
      exact health_move (move_of_step (x.steps j)) hj
  · intro i j c c' reply reply' hij hi hj
    exact stops_in_turn hij hi hj
  · intro e he
    have hreport := mem_reports_of_get? (x.run s) (Registry.mem_snapshot.1 he)
    obtain ⟨y, hy, hstarted⟩ := mem_reports.1 hreport
    obtain ⟨j, hjs, rfl⟩ := x.mem_history.1 hy
    refine ⟨?_, ?_⟩
    · intro i hi
      exact followsEnding_of_started hstarted (Nat.lt_trans hjs hi)
    · intro hgoing
      have hjr : j < r + 1 := Nat.lt_trans hjs (Nat.lt_succ_of_lt hsr)
      refine doomed_machine_is_torn_down x hjr hstarted hgoing ?_
      intro m hm
      -- By then the close has gone on with all that it has found.
      have hover := call_stays x hclosed rfl hm
      have hsm : s < m := Nat.lt_of_lt_of_le (Nat.lt_succ_of_lt hsr) hm
      obtain ⟨call, hk, hunder⟩ := h.underway hs hsm
      rw [hover] at hk
      cases hk
      rcases hunder.doomed e he with hpending | ⟨controller, hc, -, hd⟩
      · cases hpending
      · rw [controllerAt_eq hc]
        exact hd.of_true

/-- A close of two machines, of which the first does not shut down in time. -/
def closeOfTwo : List Action :=
  [.request .start, .create 0 (.ok ()), .controller 0 .receive,
    .controller 0 (.driverStarted (.ok ⟨"m1", .v4 (.ofBytes 10 0 0 2)⟩)),
    .proceed 0, .proceed 0, .proceed 0, .proceed 0,
    .request .start, .create 1 (.ok ()), .controller 1 .receive,
    .controller 1 (.driverStarted (.ok ⟨"m2", .v4 (.ofBytes 10 0 0 3)⟩)),
    .proceed 1, .proceed 1, .proceed 1, .proceed 1,
    .request .close, .proceed 2, .proceed 2, .drain 2 "m1", .controller 0 .receive,
    .controller 0 .receive, .elapse 1000000000, .expire 2, .drain 2 "m2", .controller 1 .receive,
    .controller 1 .receive, .controller 1 (.driverShutDown none),
    .controller 1 (.networkReleased none none), .proceed 2, .proceed 2, .elapse 29000000000,
    .controller 0 .shutdownExpired, .controller 0 (.driverKilled none),
    .controller 0 (.networkReleased none none)]

def Episode.finds (k : Nat) (found : List (Entry Nat)) (y : Episode) : Bool :=
  match y.before.calls[k]? with
  | some .snapshotting => y.before.registry.snapshot = found
  | _ => true

theorem hanging_machine_outlasts_close :
    ∃ (x : Execution step (start (.defaults "/"))) (n : Nat), Undisturbed x n 2 ∧
      KeepsGoing x 0 ∧
      (∃ r, (x.state r).calls[2]? = some (.finished .closed) ∧
        (x.state r).now ≤ (x.state n).now + 2000000000 ∧
        (x.state r).registry.snapshot = []) ∧
      ∃ m, ∀ i ≥ m, TornDown "m1" (course (x.history i) 0) := by
  obtain ⟨⟨past, f⟩, hr⟩ : ∃ r, replay step (start (.defaults "/")) closeOfTwo = some r :=
    Option.isSome_iff_exists.1 (by decide +kernel)
  have hlast {β : Type} (g : Fleet → β) {b : β} := last_of_replay hr g (b := b)
  have hall {β : Type} (g : List Episode → β) {b : β} := history_of_replay hr g (b := b)
  obtain ⟨x, hpast, hinputs, hrest⟩ := exists_ticking hr
  have hlength : past.length = 35 := hall (·.length) (by decide +kernel)
  have hnumber : (x.state 16).calls.length = 2 := by
    have h : (past[16]?).map (·.before.calls.length) = some 2 :=
      hall (fun past => (past[16]?).map (·.before.calls.length)) (by decide +kernel)
    rw [hpast 16 (by rw [hlength]; decide)] at h
    exact Option.some.inj h
  have hclose : Undisturbed x 16 2 :=
    undisturbed_of_ticking hpast hrest (hinputs 16 _ rfl) hnumber
      (hall (·.all (Episode.isCalm 2)) (by decide +kernel)) (hlast (·.calls[2]?) rfl)
  have hphase : (f.controllers[0]?).map (·.phase) = some .terminated :=
    hlast (fun f => (f.controllers[0]?).map (·.phase)) (by decide +kernel)
  obtain ⟨controller, hc, hp⟩ := Option.map_eq_some_iff.1 hphase
  have hgoing : KeepsGoing x 0 := by
    have hlate : (x.state past.length).controllers[0]? = some controller := by
      rw [(hrest _ (Nat.le_refl _)).1]
      exact hc
    exact keepsGoing_of_terminated x hlate hp
  have hstock : past.all (Episode.finds 2 [⟨"m1", 0, .v4 (.ofBytes 10 0 0 2), false⟩,
      ⟨"m2", 1, .v4 (.ofBytes 10 0 0 3), false⟩]) = true := hall (·.all _) (by decide +kernel)
  obtain ⟨s, r, -, -, hs, -, hclosed, htime, hempty, -, -, hfound⟩ :=
    undisturbed_close_stops_all hclose
  -- Whenever the close takes stock it finds both machines.
  have hentries : (x.state s).registry.snapshot =
      [⟨"m1", 0, .v4 (.ofBytes 10 0 0 2), false⟩, ⟨"m2", 1, .v4 (.ofBytes 10 0 0 3), false⟩] := by
    have hend : f.calls[2]? = some (.finished .closed) := hlast (·.calls[2]?) rfl
    have hbefore : s < past.length := by
      apply Nat.lt_of_not_le
      intro hafter
      have hcall := hs.call
      rw [(hrest s hafter).1] at hcall
      cases hend.symm.trans hcall
    have h := List.all_eq_true.1 hstock _ (List.mem_of_getElem? (hpast s hbefore))
    simpa [Episode.finds, hs.call] using h
  rw [hentries] at htime hfound
  obtain ⟨-, htorn⟩ := hfound _ (List.mem_cons_self ..)
  obtain ⟨m, hm⟩ := htorn hgoing
  refine ⟨x, 16, hclose, hgoing, ⟨r + 1, hclosed, htime, hempty⟩, m, ?_⟩
  intro i hi
  obtain ⟨-, -, -, h⟩ := hm i hi
  exact h

end Executions

end MachineFleet.Fleet
