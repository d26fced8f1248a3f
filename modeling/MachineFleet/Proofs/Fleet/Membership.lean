import MachineFleet.Proofs.Fleet.Bonds

namespace MachineFleet.Fleet

/-- Whether a step is neither the beginning of a close nor a change that somebody makes to the
registry from outside. -/
def Action.isOrdinary : Action → Bool
  | .request .close => false
  | .remove _ => false
  | .setReady .. => false
  | _ => true

def report? : Action → Option (Nat × Metadata)
  | .controller c (.driverStarted (.ok machine)) => some (c, machine)
  | _ => none

def reports (history : List Episode) : List (Nat × Metadata) :=
  history.filterMap fun x => report? x.input

def Distinct (known : List (Nat × Metadata)) : Prop := (known.map (·.2.id)).Nodup

theorem Distinct.eq {known : List (Nat × Metadata)} (hd : Distinct known) {c c' : Nat}
    {machine machine' : Metadata} (h : (c, machine) ∈ known) (h' : (c', machine') ∈ known)
    (hid : machine.id = machine'.id) : c = c' ∧ machine = machine' := by
  obtain ⟨i, hi⟩ := List.mem_iff_getElem?.1 h
  obtain ⟨j, hj⟩ := List.mem_iff_getElem?.1 h'
  rw [index_eq_of_nodup_map hd hi hj hid, hj] at hi
  cases hi
  exact ⟨rfl, rfl⟩

def Call.isClosing : Call → Bool
  | closing => true
  | snapshotting => true
  | draining _ => true
  | stopping .. => true
  | _ => false

theorem Call.isClosing_deliverAll (effects : List Controller.Effect) (call : Call) :
    (call.deliverAll effects).isClosing = call.isClosing := by
  refine deliverAll_congr isClosing (fun call r answer => ?_) call
  unfold deliver
  split <;> rfl

theorem Call.isUnfinished_deliverAll (effects : List Controller.Effect) (call : Call) :
    (call.deliverAll effects).isUnfinished = call.isUnfinished := by
  refine deliverAll_congr isUnfinished (fun call r answer => ?_) call
  unfold deliver
  split <;> rfl

/-- What is so as long as nobody closes the fleet. -/
structure Open (f : Fleet) : Prop where
  calls : ∀ call ∈ f.calls, Call.isClosing call = false
  mail : ∀ (c : Nat) (controller : Controller), f.controllers[c]? = some controller →
    ∀ reply, .stop reply ∉ controller.mailbox
  loop : f.eventLoop = true ∨ f.eventLoop = false ∧ f.existence = .gone ∧ f.registry = .empty ∧
    ∀ call ∈ f.calls, Call.isUnfinished call = false

section Open

variable {f f' f₁ : Fleet} {a : Action} {effects : List Effect} {k c : Nat} {old new : Call}

theorem isClosing_turn (h : Turn f k a old new f₁ effects) (ho : old.isClosing = false) :
    new.isClosing = false := by
  cases h <;> first | rfl | cases ho

theorem events_turn (h : Turn f k a old new f₁ effects) (ho : old.isClosing = false) :
    f₁.events = f.events ∧ f₁.eventLoop = f.eventLoop ∧ f₁.existence = f.existence := by
  cases h <;> first | exact ⟨rfl, rfl, rfl⟩ | cases ho

theorem Open.calls_move (h : Open f) (hm : Move f a f' effects) (ha : a.isOrdinary = true) :
    ∀ call ∈ f'.calls, Call.isClosing call = false := by
  intro call hcall
  cases hm with
  | request r he =>
    rcases List.mem_append.1 hcall with hcall | hcall
    · exact h.calls call hcall
    · obtain rfl := List.mem_singleton.1 hcall
      cases r <;> first | rfl | cases ha
  | created k hk =>
    rcases List.mem_or_eq_of_mem_set hcall with hcall | rfl
    · exact h.calls call hcall
    · rfl
  | turned k a old new f₁ effects hk ht =>
    rcases List.mem_or_eq_of_mem_set hcall with hcall | rfl
    · exact h.calls call (calls_turn ht ▸ hcall)
    · exact isClosing_turn ht (h.calls old (List.mem_of_getElem? hk))
  | worked c a old new effects hc hm =>
    obtain ⟨before, hb, rfl⟩ := List.mem_map.1 hcall
    rw [Call.isClosing_deliverAll]
    exact h.calls before hb
  | _ => exact h.calls call hcall

theorem Open.mail_move (h : Open f) (hm : Move f a f' effects) {controller' : Controller}
    (hc : f'.controllers[c]? = some controller') (reply : ReplyId) :
    .stop reply ∉ controller'.mailbox := by
  intro hmem
  rcases controller_move hm hc with ⟨controller, hf, hch⟩ | ⟨rfl, rfl⟩
  · have ho := h.mail c controller hf reply
    rcases hch with rfl | ⟨k, old, new, m, hk, -, hp, rfl⟩ | ⟨did, made, -, -, hm⟩
    · exact ho hmem
    · rcases mem_posted_mailbox hmem with hmem | rfl
      · exact ho hmem
      · cases hp with
        | stop => cases h.calls _ (List.mem_of_getElem? hk)
    · rcases Controller.mailbox_move hm hmem with hmem | ⟨failure, hmem⟩ | ⟨p, change, -, hmem⟩
      · exact ho hmem
      · cases hmem
      · cases change <;> cases hmem
  · simp at hmem

theorem Open.loop_move (h : Open f) (hm : Move f a f' effects) (ha : a.isOrdinary = true) :
    f'.eventLoop = true ∨ f'.eventLoop = false ∧ f'.existence = .gone ∧ f'.registry = .empty ∧
      ∀ call ∈ f'.calls, Call.isUnfinished call = false := by
  rcases h.loop with hl | ⟨hl, hg, hr, hu⟩
  · cases hm with
    | turned k a old new f₁ effects hk ht =>
      exact .inl ((events_turn ht (h.calls old (List.mem_of_getElem? hk))).2.1.trans hl)
    | vanished he hc =>
      refine .inr ⟨rfl, rfl, rfl, fun call hcall => ?_⟩
      simpa using List.any_eq_false.1 hc call hcall
    | _ => exact .inl hl
  · -- Nothing begins any more once the fleet is gone.
    cases hm with
    | request r he => cases hg.symm.trans he
    | created k hk => cases hu _ (List.mem_of_getElem? hk)
    | turned k a old new f₁ effects hk ht =>
      cases (isUnfinished_turn ht).symm.trans (hu _ (List.mem_of_getElem? hk))
    | worked c a old new effects hc hm =>
      refine .inr ⟨hl, hg, hr, fun call hcall => ?_⟩
      obtain ⟨before, hb, rfl⟩ := List.mem_map.1 hcall
      rw [Call.isUnfinished_deliverAll]
      exact hu before hb
    | handled event rest hl' => cases hl.symm.trans hl'
    | removed => cases ha
    | readied => cases ha
    | dropped he => cases hg.symm.trans he
    | vanished he => cases hg.symm.trans he
    | elapsed => exact .inr ⟨hl, hg, hr, hu⟩

theorem Open.move (h : Open f) (hm : Move f a f' effects) (ha : a.isOrdinary = true) : Open f' where
  calls := h.calls_move hm ha
  mail _ _ hc reply := h.mail_move hm hc reply
  loop := h.loop_move hm ha

end Open

/-- The registry, the controllers and the events that are under way tell the same story. -/
structure Roll (known : List (Nat × Metadata)) (made : List Making) (f : Fleet) : Prop where
  running : ∀ (c : Nat) (controller : Controller) (run : Running),
    f.controllers[c]? = some controller → controller.phase.running? = some run →
      (c, run.machine) ∈ known
  stopped : ∀ id, .stopped id ∈ f.events → ∃ (c : Nat) (machine : Metadata)
    (controller : Controller), (c, machine) ∈ known ∧ machine.id = id ∧
      f.controllers[c]? = some controller ∧ controller.phase.IsOver
  entries : ∀ id e, f.registry.get? id = some e → ∃ controller,
    f.controllers[e.controller]? = some controller ∧
      ((∃ run, controller.phase.running? = some run ∧ run.machine = ⟨id, e.address⟩) ∨
        controller.phase.IsOver ∧ .stopped id ∈ f.events)
  present : f.eventLoop = true → ∀ (c : Nat) (controller : Controller) (run : Running),
    f.controllers[c]? = some controller → controller.phase = .started run → Registered made f c →
      ∃ e, f.registry.get? run.machine.id = some e ∧ e.controller = c ∧
        e.address = run.machine.address

section Roll

variable {f f' f₁ : Fleet} {a : Action} {effects : List Effect} {k c : Nat} {old new : Call}
  {known : List (Nat × Metadata)} {made : List Making} {id : String} {e : Entry Nat}

theorem get?_move (h : Move f a f' effects) (he : f'.registry.get? id = some e) :
    (∃ e', f.registry.get? id = some e' ∧ e'.controller = e.controller ∧
      e'.address = e.address) ∨
    ∃ (k : Nat) (machine : Metadata), f.calls[k]? = some (.registering e.controller machine) ∧
      f.isOpen e.controller = true ∧ e = ⟨id, e.controller, machine.address, false⟩ ∧
      id = machine.id ∧ f'.controllers = f.controllers := by
  cases h with
  | turned k a old new f₁ effects hk ht =>
    rcases get?_turn ht he with he | ⟨machine, rfl, rfl, ho, hid, heq, hc⟩
    · exact .inl ⟨e, he, rfl, rfl⟩
    · exact .inr ⟨k, machine, hk, ho, heq, hid, hc⟩
  | handled event rest hl hev => exact .inl (get?_applyEvent_some he)
  | removed id' => exact .inl ⟨e, (get?_remove_some he).2, rfl, rfl⟩
  | readied id' ready => exact .inl (get?_setReady_some he)
  | vanished => cases he
  | _ => exact .inl ⟨e, he, rfl, rfl⟩

/-- As long as its fleet is open, an entry goes only with the news that its machine has exited. -/
theorem get?_stays (ho : Open f) (h : Move f a f' effects) (ha : a.isOrdinary = true)
    (hl : f'.eventLoop = true) (he : f.registry.get? id = some e) :
    (∃ e', f'.registry.get? id = some e' ∧ e'.controller = e.controller ∧
      e'.address = e.address) ∨ .stopped id ∈ f.events := by
  have hready (id' : String) (ready : Bool) :
      ∃ e', (f.registry.setReady id' ready).get? id = some e' ∧ e'.controller = e.controller ∧
        e'.address = e.address := by
    rw [Registry.get?_setReady, he]
    split
    · exact ⟨_, rfl, rfl, rfl⟩
    · exact ⟨e, rfl, rfl, rfl⟩
  cases h with
  | turned k a old new f₁ effects hk ht =>
    have hcl := ho.calls old (List.mem_of_getElem? hk)
    cases ht with
    | registered c machine registry hadd =>
      obtain ⟨-, -, hn, rfl⟩ := Registry.eq_put_of_add hadd
      have hne : id ≠ machine.id := by
        rintro rfl
        cases hn.symm.trans he
      exact .inl ⟨e, (Registry.get?_put).trans (by rw [if_neg hne, he]), rfl, rfl⟩
    | skipped => cases hcl
    | stopped => cases hcl
    | overdue => cases hcl
    | _ => exact .inl ⟨e, he, rfl, rfl⟩
  | handled event rest hlo hev =>
    cases event with
    | stopped id' =>
      by_cases hid : id = id'
      · exact .inr (by simp [hev, hid])
      · exact .inl ⟨e, Registry.get?_remove.trans (by rw [if_neg hid, he]), rfl, rfl⟩
    | ready machine => exact .inl (hready machine.id true)
    | unready machine => exact .inl (hready machine.id false)
  | removed => cases ha
  | readied => cases ha
  | vanished => cases hl
  | _ => exact .inl ⟨e, he, rfl, rfl⟩

theorem stopped_stays (ho : Open f) (h : Move f a f' effects) (hs : .stopped id ∈ f.events)
    (he : f'.registry.get? id = some e) : .stopped id ∈ f'.events := by
  cases h with
  | turned k a old new f₁ effects hk ht =>
    rw [← (events_turn ht (ho.calls old (List.mem_of_getElem? hk))).1] at hs
    exact hs
  | worked c did old new effects hc hm =>
    rw [worked]
    split
    · exact List.mem_append_left _ hs
    · exact hs
  | handled event rest hl hev =>
    rw [hev] at hs
    rcases List.mem_cons.1 hs with rfl | hs
    · exact absurd rfl (get?_remove_some he).1
    · exact hs
  | vanished => cases he
  | _ => exact hs

theorem event_mem_move {event : FleetEvent} (h : Move f a f' effects) (he : event ∈ f'.events) :
    event ∈ f.events ∨ ∃ (c : Nat) (did : Controller.Action) (before after : Controller)
      (made : List Controller.Effect), f.controllers[c]? = some before ∧
        a = .controller c did ∧ f' = f.worked c after made ∧ f.eventLoop = true ∧
        Controller.Move (f.surroundings c) before did after made ∧ .event event ∈ made := by
  cases h with
  | turned k a old new f₁ effects hk ht =>
    cases ht with
    | closed => cases he
    | _ => exact .inl he
  | worked c did before after made hc hm =>
    rw [worked] at he
    split at he
    · rename_i hl
      rcases List.mem_append.1 he with he | he
      · exact .inl he
      · obtain ⟨effect, hmem, heq⟩ := List.mem_filterMap.1 he
        cases effect with
        | event event' =>
          cases heq
          exact .inr ⟨c, did, before, after, made, hc, rfl, rfl, hl, hm, hmem⟩
        | _ => cases heq
    · exact .inl he
  | handled event' rest hl hev =>
    rw [hev]
    exact .inl (List.mem_cons_of_mem _ he)
  | vanished => cases he
  | _ => exact .inl he

theorem eventLoop_move (h : Move f a f' effects) (hl : f'.eventLoop = true) :
    f.eventLoop = true := by
  cases h with
  | turned k a old new f₁ effects hk ht =>
    cases ht with
    | closed => cases hl
    | _ => exact hl
  | vanished => cases hl
  | _ => exact hl

theorem held_of_get? (he : f.registry.get? id = some e) :
    (f.surroundings e.controller).held = true :=
  holds_iff.2 (.inl (.inl ⟨id, e, he, rfl⟩))

theorem Books.phase_of_registering (b : Books made f) {machine : Metadata}
    {controller : Controller} (hk : f.calls[k]? = some (.registering c machine))
    (ho : f.isOpen c = true) (hc : f.controllers[c]? = some controller) :
    controller.phase = .started ⟨machine, none, false⟩ ∧
      ∀ m ∈ controller.mailbox, ∃ failure, m = .runFinished failure := by
  obtain ⟨mk, hmk, rfl⟩ := b.makers.own k _ c hk rfl
  obtain ⟨call, hcall, hb⟩ := b.bonds c mk controller hmk hc
  rw [hk] at hcall
  cases hcall
  exact hb.2 (by simpa [isOpen, hc] using ho)

theorem Books.not_registered_of_registering (b : Books made f) {machine : Metadata}
    (hk : f.calls[k]? = some (.registering c machine)) : ¬ Registered made f c := by
  rintro ⟨mk, call, hmk, hcall, hr⟩
  obtain ⟨mk', hmk', hown⟩ := b.makers.own k _ c hk rfl
  rw [hmk] at hmk'
  cases hmk'
  rw [hown, hk] at hcall
  cases hcall
  cases hr

theorem Roll.running_move (r : Roll known made f) (hm : Move f a f' effects)
    {controller' : Controller} {run : Running} (hc : f'.controllers[c]? = some controller')
    (hr : controller'.phase.running? = some run) :
    (c, run.machine) ∈ known ++ (report? a).toList := by
  rcases controller_move hm hc with ⟨controller, hf, hch⟩ | ⟨rfl, rfl⟩
  · rcases hch with rfl | ⟨k, old, new, m, -, -, -, rfl⟩ | ⟨did, made, rfl, -, hm⟩
    · exact List.mem_append_left _ (r.running c _ run hf hr)
    · exact List.mem_append_left _ (r.running c _ run hf (by simpa using hr))
    · rcases Controller.running?_move hm hr with ⟨before, hb, he⟩ | ⟨reply, -, rfl⟩
      · rw [← he]
        exact List.mem_append_left _ (r.running c _ before hf hb)
      · simp [report?]
  · cases hr

theorem Roll.machine_of_get? (r : Roll known made f) {controller : Controller} {run : Running}
    (he : f.registry.get? id = some e) (hc : f.controllers[e.controller]? = some controller)
    (hp : controller.phase = .started run) : run.machine = ⟨id, e.address⟩ := by
  obtain ⟨controller', hc', ⟨run', hr, hm⟩ | ⟨hover, -⟩⟩ := r.entries id e he
  · rw [hc] at hc'
    cases hc'
    rw [hp] at hr
    cases hr
    exact hm
  · rw [hc] at hc'
    cases hc'
    exact absurd hp (hover.ne_started run)

theorem Roll.stopped_move (r : Roll known made f) (hm : Move f a f' effects)
    (hs : .stopped id ∈ f'.events) : ∃ (c : Nat) (machine : Metadata) (controller : Controller),
      (c, machine) ∈ known ++ (report? a).toList ∧ machine.id = id ∧
        f'.controllers[c]? = some controller ∧ controller.phase.IsOver := by
  rcases event_mem_move hm hs with hs | ⟨c, did, before, after, made, hc, -, rfl, -, hstep, he⟩
  · obtain ⟨c, machine, controller, hk, hid, hc, ho⟩ := r.stopped id hs
    obtain ⟨controller', hc', hr⟩ := controller_stays hm hc
    exact ⟨c, machine, controller', List.mem_append_left _ hk, hid, hc', Nat.le_trans ho hr⟩
  · rcases Controller.event_move hstep he with ⟨run, hp, heq, ho⟩ | ⟨machine, rest, -, -, h⟩
    · cases heq
      refine ⟨c, run.machine, after, List.mem_append_left _ ?_, rfl, ?_, ho⟩
      · exact r.running c before run hc (by rw [hp]; rfl)
      · rw [controllers_worked hc, if_pos rfl]
    · rcases h with ⟨-, heq⟩ | ⟨-, heq⟩ <;> cases heq

/-- A registered machine runs on, or the fleet learns that it has exited. -/
theorem Roll.running_stays (b : Books made f) (ho : Open f) {controller controller' : Controller}
    {did : Controller.Action} {made' : List Controller.Effect} {run : Running}
    (he : f.registry.get? id = some e) (hc : f.controllers[e.controller]? = some controller)
    (hr : controller.phase.running? = some run)
    (hm : Controller.Move (f.surroundings e.controller) controller did controller' made') :
    (∃ after, controller'.phase.running? = some after ∧ after.machine = run.machine) ∨
      controller'.phase.IsOver ∧ .event (.stopped run.machine.id) ∈ made' := by
  rcases Controller.running?_stays hm hr with hs | ⟨-, hs, hev⟩ | ⟨-, ⟨reply, hs⟩ | hs | hs⟩
  · exact .inl hs
  · exact .inr ⟨hs, hev⟩
  -- All other ways to stop need a close, a failed start, or that nobody holds the controller.
  · exact absurd hs (ho.mail _ controller hc reply)
  · have hl : Listed f e.controller := .inl ⟨id, e, he, rfl⟩
    exact absurd (b.retired _ controller hc hs) (not_hasFailed_of_registered (b.listing _ hl))
  · cases hs.symm.trans (held_of_get? he)

theorem Roll.entries_move (r : Roll known made f) (b : Books made f) (ho : Open f)
    (hm : Move f a f' effects) (he : f'.registry.get? id = some e) : ∃ controller,
      f'.controllers[e.controller]? = some controller ∧
        ((∃ run, controller.phase.running? = some run ∧ run.machine = ⟨id, e.address⟩) ∨
          controller.phase.IsOver ∧ .stopped id ∈ f'.events) := by
  rcases get?_move hm he with ⟨e', he', hce, hae⟩ | ⟨k, machine, hk, hopen, heq, hid, hcs⟩
  -- An entry that was there before: its machine runs on, or the news of its exit is on the way.
  · obtain ⟨controller, hc, hr⟩ := r.entries id e' he'
    obtain ⟨controller', hc', hrank⟩ := controller_stays hm hc
    rw [← hce, ← hae]
    refine ⟨controller', hc', ?_⟩
    rcases hr with ⟨run, hr, hmach⟩ | ⟨hover, hs⟩
    · rcases controller_move hm hc' with ⟨before, hb, hch⟩ | ⟨hl, -⟩
      · rw [hc] at hb
        cases hb
        rcases hch with rfl | ⟨k, old, new, m, -, -, -, rfl⟩ | ⟨did, made', -, rfl, hstep⟩
        · exact .inl ⟨run, hr, hmach⟩
        · exact .inl ⟨run, by simpa using hr, hmach⟩
        · rcases Roll.running_stays b ho he' hc hr hstep with ⟨after, ha, hafter⟩ | ⟨hover, hev⟩
          · exact .inl ⟨after, ha, hafter.trans hmach⟩
          · have hloop : f.eventLoop = true := by
              refine ho.loop.resolve_right fun h => ?_
              rw [h.2.2.1] at he'
              cases he'
            rw [hmach] at hev
            refine .inr ⟨hover, ?_⟩
            rw [worked, if_pos hloop]
            exact List.mem_append_right _ (List.mem_filterMap.2 ⟨_, hev, rfl⟩)
      · exact absurd hl (Nat.ne_of_lt (List.getElem?_eq_some_iff.1 hc).1)
    · exact .inr ⟨Nat.le_trans hover hrank, stopped_stays ho hm hs he⟩
  -- An entry that is new: the machine was on offer and its controller is open, so it runs.
  · obtain ⟨controller, hc⟩ := exists_of_isOpen hopen
    obtain ⟨hp, -⟩ := b.phase_of_registering hk hopen hc
    refine ⟨controller, by rw [hcs, hc], .inl ⟨_, by rw [hp]; rfl, ?_⟩⟩
    rw [heq, hid]

theorem Roll.present_move (r : Roll known made f) (b : Books made f) (ho : Open f)
    (hm : Move f a f' effects) (ha : a.isOrdinary = true) (hd : Distinct known)
    (hl : f'.eventLoop = true) {controller' : Controller} {run : Running}
    (hc : f'.controllers[c]? = some controller') (hp : controller'.phase = .started run)
    (hr : Registered (made ++ (making? f a).toList) f' c) :
    ∃ e, f'.registry.get? run.machine.id = some e ∧ e.controller = c ∧
      e.address = run.machine.address := by
  have hloop := eventLoop_move hm hl
  rcases b.registered_of_move hm hr with hr | ⟨k, machine, registry, hk, hadd, rfl⟩
  · rcases controller_move hm hc with ⟨controller, hf, hch⟩ | ⟨-, rfl⟩
    · have hbefore : ∃ before, controller.phase = .started before ∧
          before.machine = run.machine := by
        rcases hch with rfl | ⟨k, old, new, m, -, -, -, rfl⟩ | ⟨did, made, -, -, hstep⟩
        · exact ⟨run, hp, rfl⟩
        · exact ⟨run, by simpa using hp, rfl⟩
        · exact Controller.started_of_begun hstep (b.begun c controller hf hr) hp
      obtain ⟨before, hb, hmach⟩ := hbefore
      obtain ⟨e, he, hec, hea⟩ := r.present hloop c controller before hf hb hr
      rw [hmach] at he hea
      rcases get?_stays ho hm ha hl he with ⟨e', he', hc', ha'⟩ | hs
      · exact ⟨e', he', hc'.trans hec, ha'.trans hea⟩
      · -- The news would be about this very machine, which runs.
        obtain ⟨c', machine, other, hknown, hid, hother, hover⟩ := r.stopped _ hs
        have hthis := r.running c controller before hf (by rw [hb]; rfl)
        obtain ⟨rfl, -⟩ := hd.eq hknown hthis (by rw [hid, hmach])
        rw [hf] at hother
        cases hother
        exact absurd hb (hover.ne_started before)
    · cases hp
  · obtain ⟨-, hopen, -, rfl⟩ := Registry.eq_put_of_add hadd
    obtain ⟨hq, -⟩ := b.phase_of_registering hk (by simpa using hopen) hc
    rw [hp] at hq
    cases hq
    exact ⟨_, Registry.get?_put.trans (if_pos rfl), rfl, rfl⟩

theorem Roll.move (r : Roll known made f) (b : Books made f) (ho : Open f)
    (hm : Move f a f' effects) (ha : a.isOrdinary = true) (hd : Distinct known) :
    Roll (known ++ (report? a).toList) (made ++ (making? f a).toList) f' where
  running _ _ _ hc hr := r.running_move hm hc hr
  stopped _ hs := r.stopped_move hm hs
  entries _ _ he := r.entries_move b ho hm he
  present hl _ _ _ hc hp hr := r.present_move b ho hm ha hd hl hc hp hr

end Roll

section Runs

variable {config : FleetConfig} {history : List Episode} {f : Fleet} {c : Nat}

def IsOrdinary (history : List Episode) : Prop := ∀ x ∈ history, x.input.isOrdinary = true

theorem reports_snoc (history : List Episode) (f : Fleet) (a : Action) (effects : List Effect) :
    reports (history ++ [⟨f, a, effects⟩]) = reports history ++ (report? a).toList :=
  filterMap_concat _ _ _

theorem Distinct.of_append {known more : List (Nat × Metadata)} (h : Distinct (known ++ more)) :
    Distinct known := by
  rw [Distinct, List.map_append] at h
  exact (List.nodup_append.1 h).1

theorem open_start (config : FleetConfig) : Open (start config) where
  calls _ h := nomatch h
  mail _ _ h := nomatch h
  loop := .inl rfl

theorem roll_start (config : FleetConfig) : Roll [] [] (start config) where
  running _ _ _ h := nomatch h
  stopped _ h := nomatch h
  entries _ _ h := nomatch h
  present _ _ _ _ h := nomatch h

theorem roll_of_run (run : Run step (start config) history f) (ho : IsOrdinary history)
    (hd : Distinct (reports history)) : Open f ∧ Roll (reports history) (makings history) f := by
  induction run with
  | nil => exact ⟨open_start config, roll_start config⟩
  -- Distinct reports stay distinct on the way, so each step finds the books of the steps before it.
  | @snoc history f f' a effects run h ih =>
    rw [reports_snoc] at hd ⊢
    rw [makings_snoc]
    have ha : a.isOrdinary = true := ho ⟨f, a, effects⟩ (by simp)
    obtain ⟨hopen, roll⟩ := ih (fun x hx => ho x (List.mem_append_left _ hx)) hd.of_append
    have hm := move_of_step h
    exact ⟨hopen.move hm ha, roll.move (books_of_run run) hopen hm ha hd.of_append⟩

def Call.isStarting (call : Call) : Bool := call.isCreating || call.own?.isSome

/-- Nothing is under way: there is no event, no controller has a message or the end of its mail to
take, no machine is being started by a call, and none is torn down. -/
structure Quiescent (f : Fleet) : Prop where
  events : f.events = []
  taken : ∀ c, f.step (.controller c .receive) = none
  calls : ∀ call ∈ f.calls, Call.isStarting call = false
  teardowns : ∀ controller ∈ f.controllers, controller.phase.isTeardown = false

theorem holds_of_taken {controller : Controller} {run : Running}
    (ht : f.step (.controller c .receive) = none) (hc : f.controllers[c]? = some controller)
    (hp : controller.phase = .started run) : f.holds c = true := by
  simp only [step, stepController, hc, Option.map_eq_none_iff, Controller.step,
    Controller.receive?, hp] at ht
  cases hm : controller.mailbox with
  | cons m rest => simp [hm] at ht
  | nil =>
    rw [hm] at ht
    by_cases hh : f.holds c = true
    · exact hh
    · simp [surroundings, hh] at ht

/-- Before a close, once nothing is under way, the registry holds the machines that run, each with
its own controller and address, and no others. -/
theorem registered_iff_started (run : Run step (start config) history f)
    (ho : IsOrdinary history) (hd : Distinct (reports history)) (hq : Quiescent f) (id : String)
    (c : Nat) (address : IpAddress) :
    (∃ e, f.registry.get? id = some e ∧ e.controller = c ∧ e.address = address) ↔
      ∃ controller running, f.controllers[c]? = some controller ∧
        controller.phase = .started running ∧ running.machine = ⟨id, address⟩ := by
  obtain ⟨hopen, roll⟩ := roll_of_run run ho hd
  have books := books_of_run run
  constructor
  · rintro ⟨e, he, rfl, rfl⟩
    obtain ⟨controller, hc, ⟨running, hr, hm⟩ | ⟨-, hs⟩⟩ := roll.entries id e he
    · refine ⟨controller, running, hc, ?_, hm⟩
      have ht := hq.teardowns controller (List.mem_of_getElem? hc)
      cases hp : controller.phase with
      | started running' =>
        rw [hp] at hr
        cases hr
        rfl
      | exiting running' =>
        rw [hp] at ht
        cases ht
      | _ =>
        rw [hp] at hr
        cases hr
    · rw [hq.events] at hs
      cases hs
  -- Whoever runs and has nothing to take is held, and only the registry is left to hold it.
  · rintro ⟨controller, running, hc, hp, hm⟩
    rcases holds_iff.1 (holds_of_taken (hq.taken c) hc hp) with hl | ⟨call, hcall, hown⟩
    · have hloop : f.eventLoop = true := by
        -- A fleet that is gone lists nobody.
        refine hopen.loop.resolve_right fun h => ?_
        rcases hl with ⟨id', e, he, -⟩ | ⟨call, hcall, hl⟩
        · rw [h.2.2.1] at he
          cases he
        · have hu := h.2.2.2 call hcall
          cases call <;> first | cases hl | cases hu
      obtain ⟨e, he, hec, hea⟩ := roll.present hloop c controller running hc hp (books.listing c hl)
      rw [hm] at he hea
      exact ⟨e, he, hec, hea⟩
    · have hs := hq.calls call hcall
      simp [Call.isStarting, hown] at hs

theorem isOrdinary_of_replay {inputs : List Action} {f₀ : Fleet}
    (hr : replay step f₀ inputs = some (history, f)) (h : ∀ a ∈ inputs, a.isOrdinary = true) :
    IsOrdinary history := fun x hx =>
  h x.input ((mem_inputs_of_replay hr).2 ⟨x, hx, rfl⟩)

theorem reports_of_replay {inputs : List Action} {f₀ : Fleet}
    (hr : replay step f₀ inputs = some (history, f)) :
    reports history = inputs.filterMap report? := by
  rw [← map_input_of_replay hr, List.filterMap_map]
  rfl

/-- Two starts that overlap. The second machine exits before its call has registered it. -/
def overlappingStarts : List Action :=
  [.request .start, .request .start, .create 0 (.ok ()), .create 1 (.ok ()),
    .controller 0 .receive, .controller 1 .receive,
    .controller 0 (.driverStarted (.ok ⟨"m1", .v4 (.ofBytes 10 0 0 2)⟩)),
    .controller 1 (.driverStarted (.ok ⟨"m2", .v4 (.ofBytes 10 0 0 3)⟩)),
    .proceed 0, .proceed 1, .proceed 0, .controller 1 (.machineExited none),
    .controller 1 .receive, .proceed 1, .proceed 1, .controller 1 .reportExit, .proceed 0,
    .handleEvent, .proceed 1, .controller 1 (.networkReleased none none), .controller 0 .receive,
    .proceed 0]

theorem overlapping_starts_leave_one_machine :
    ∃ history f, Run step (start (.defaults "/")) history f ∧ IsOrdinary history ∧
      Distinct (reports history) ∧ Quiescent f ∧
      (∃ controller running, f.controllers[0]? = some controller ∧
        controller.phase = .started running ∧
        running.machine = ⟨"m1", .v4 (.ofBytes 10 0 0 2)⟩) ∧
      ¬ ∃ controller running, f.controllers[1]? = some controller ∧
        controller.phase = .started running ∧
        running.machine = ⟨"m2", .v4 (.ofBytes 10 0 0 3)⟩ := by
  obtain ⟨⟨history, f⟩, hr⟩ :
      ∃ r, replay step (start (.defaults "/")) overlappingStarts = some r := ⟨_, rfl⟩
  have run := Run.of_replay hr
  have hlast {β : Type} (g : Fleet → β) {b : β} := last_of_replay hr g (b := b)
  have ho : IsOrdinary history :=
    isOrdinary_of_replay hr (by simp [overlappingStarts, Action.isOrdinary])
  have hd : Distinct (reports history) := by
    rw [reports_of_replay hr, Distinct]
    decide
  have hq : Quiescent f := by
    refine ⟨hlast (·.events) rfl, ?_, ?_, ?_⟩
    · intro c
      match c with
      | 0 => exact hlast (·.step (.controller 0 .receive)) rfl
      | 1 => exact hlast (·.step (.controller 1 .receive)) rfl
      | n + 2 =>
        have hl : f.controllers.length = 2 := hlast (·.controllers.length) rfl
        have hn : f.controllers[n + 2]? = none := List.getElem?_eq_none (by omega)
        simp [step, stepController, hn]
    · have h : f.calls.all (fun call => !call.isStarting) = true := hlast (·.calls.all _) rfl
      simpa using h
    · have h : f.controllers.all (fun c => !c.phase.isTeardown) = true :=
        hlast (·.controllers.all _) rfl
      simpa using h
  have hfirst : f.registry.get? "m1" = some ⟨"m1", 0, .v4 (.ofBytes 10 0 0 2), false⟩ :=
    hlast (·.registry.get? "m1") rfl
  have hsecond : f.registry.get? "m2" = none := hlast (·.registry.get? "m2") rfl
  refine ⟨history, f, run, ho, hd, hq, ?_, ?_⟩
  · exact (registered_iff_started run ho hd hq _ _ _).1 ⟨_, hfirst, rfl, rfl⟩
  · intro h
    obtain ⟨e, he, -⟩ := (registered_iff_started run ho hd hq _ _ _).2 h
    cases hsecond.symm.trans he

end Runs

end MachineFleet.Fleet
