import MachineFleet.Proofs.Fleet.Course
import MachineFleet.Proofs.Fleet.Readiness
import MachineFleet.Proofs.Lifecycle.Reports

namespace MachineFleet

theorem FleetEvent.id_of_mem_turns {machine : Metadata} {event : FleetEvent} {n : Nat}
    (h : event ∈ turns machine n) : event.id = machine.id := by
  obtain ⟨i, -, rfl⟩ := List.mem_map.1 h
  unfold turn
  split <;> rfl

namespace Fleet

def Effect.event? : Effect → Option (Nat × FleetEvent)
  | .controller c (.event event) => some (c, event)
  | _ => none

/-- The events that were sent while the event loop ran, in order, each with its sender. -/
def sent (history : List Episode) : List (Nat × FleetEvent) :=
  history.flatMap fun x => if x.before.eventLoop then x.effects.filterMap (·.event?) else []

def Action.isHandling : Action → Bool
  | .handleEvent => true
  | _ => false

def handled (history : List Episode) : Nat := history.countP (·.input.isHandling)

section Machines

variable {config : FleetConfig} {history : List Episode} {f f' : Fleet} {a : Action}
  {effects : List Effect} {c : Nat} {controller : Controller} {machine machine' : Metadata}
  {id : String} {e : Entry Nat}

theorem mem_reports : (c, machine) ∈ reports history ↔
    ∃ x ∈ history, x.input = .controller c (.driverStarted (.ok machine)) := by
  unfold reports
  rw [List.mem_filterMap]
  constructor
  · rintro ⟨x, hx, h⟩
    refine ⟨x, hx, ?_⟩
    unfold report? at h
    split at h
    · rename_i hi
      cases h
      exact hi
    · cases h
  · rintro ⟨x, hx, hi⟩
    exact ⟨x, hx, by rw [hi]; rfl⟩

theorem exists_input_of_course {y : Controller.Episode} {did : Controller.Action}
    (hy : y ∈ course history c) (hd : y.did did) : ∃ x ∈ history, x.input = .controller c did := by
  obtain ⟨x, hx, hxy⟩ := List.mem_flatMap.1 hy
  refine ⟨x, hx, ?_⟩
  obtain ⟨s, hs⟩ := hd
  unfold Episode.courseOf at hxy
  split at hxy
  · rename_i i did' hi
    split at hxy
    · rename_i hic
      obtain rfl := List.mem_singleton.1 hxy
      cases hs
      rw [hi, hic]
    · cases hxy
  · obtain ⟨m, -, rfl⟩ := List.mem_map.1 hxy
    cases hs

theorem mem_reports_of_running (run : Run step (start config) history f)
    (hc : f.controllers[c]? = some controller) {running : Running}
    (hr : controller.phase.running? = some running) : (c, running.machine) ∈ reports history := by
  have hcourse := run_course run c
  rw [controllerAt_eq hc] at hcourse
  obtain ⟨y, hy, hdid⟩ := Controller.exists_start_of_run hcourse hr
  exact mem_reports.2 (exists_input_of_course hy hdid)

/-- A driver reports one machine at most. -/
theorem eq_of_mem_reports (run : Run step (start config) history f)
    (h : (c, machine) ∈ reports history) (h' : (c, machine') ∈ reports history) :
    machine = machine' := by
  obtain ⟨x, hx, hi⟩ := mem_reports.1 h
  obtain ⟨x', hx', hi'⟩ := mem_reports.1 h'
  obtain ⟨y, hy, hdid⟩ := exists_did hx hi
  obtain ⟨y', hy', hdid'⟩ := exists_did hx' hi'
  obtain ⟨m, hm⟩ := Controller.exists_machine_of_run (run_course run c)
  have hfirst : machine = m := hm y hy machine hdid
  have hsecond : machine' = m := hm y' hy' machine' hdid'
  rw [hfirst, hsecond]

theorem mem_reports_of_get? (run : Run step (start config) history f)
    (he : f.registry.get? id = some e) : (e.controller, ⟨id, e.address⟩) ∈ reports history := by
  induction run generalizing e with
  | nil => cases he
  | @snoc history f f' a effects run h ih =>
    rw [reports_snoc]
    refine List.mem_append_left _ ?_
    rcases get?_move (move_of_step h) he with ⟨e', he', hc, ha⟩ |
      ⟨k, machine, hk, hopen, heq, rfl, -⟩
    · have hbefore := ih he'
      rwa [hc, ha] at hbefore
    · -- The machine of a new entry was on offer, so its controller runs it.
      obtain ⟨controller, hc⟩ := exists_of_isOpen hopen
      obtain ⟨hp, -⟩ := (books_of_run run).phase_of_registering hk hopen hc
      have hr : controller.phase.running? = some ⟨machine, none, false⟩ := by
        rw [hp]
        rfl
      have hmem := mem_reports_of_running run hc hr
      rw [heq]
      exact hmem

theorem id_eq_of_get? (run : Run step (start config) history f) {id' : String} {e' : Entry Nat}
    (he : f.registry.get? id = some e) (he' : f.registry.get? id' = some e')
    (hc : e.controller = e'.controller) : id = id' := by
  have hfirst := mem_reports_of_get? run he
  have hsecond := mem_reports_of_get? run he'
  rw [← hc] at hsecond
  exact congrArg (·.id) (eq_of_mem_reports run hfirst hsecond)

end Machines

section Senders

variable {config : FleetConfig} {history : List Episode} {f f' f₁ : Fleet} {a : Action}
  {effects : List Effect} {k c : Nat} {old new : Call} {event : FleetEvent}

theorem news?_of_sent (hm : Move f a f' effects) {m : Message} (h : .sent c m ∈ effects) :
    m.news? = none := by
  cases hm with
  | created =>
    cases List.mem_singleton.1 h
    rfl
  | turned k a old new f₁ effects hk ht =>
    cases ht with
    | announced c' machine =>
      unfold sentEffects at h
      split at h
      · cases List.mem_singleton.1 h
        rfl
      · cases h
    | retired c' e =>
      unfold sentEffects at h
      split at h
      · cases List.mem_singleton.1 h
        rfl
      · cases h
    | stopSent =>
      cases List.mem_singleton.1 h
      rfl
    | relay => simp at h
    | _ => cases h
  | worked i did old new made hi hm =>
    obtain ⟨effect, -, he⟩ := List.mem_map.1 h
    cases he
  | _ => cases h

/-- News of a machine's readiness is written by its own probe alone. -/
theorem newsIsOwn_course (run : Run step (start config) history f) (c : Nat) :
    Controller.NewsIsOwn (course history c) := by
  intro y hy m hm
  obtain ⟨x, hx, hxy⟩ := List.mem_flatMap.1 hy
  obtain ⟨-, -, -, f', h⟩ := run.of_mem hx
  unfold Episode.courseOf at hxy
  split at hxy
  · split at hxy
    · obtain rfl := List.mem_singleton.1 hxy
      cases hm
    · cases hxy
  · obtain ⟨m', hmem, rfl⟩ := List.mem_map.1 hxy
    cases hm
    obtain ⟨effect, heffect, hto⟩ := List.mem_filterMap.1 hmem
    cases effect with
    | sent i m'' =>
      simp only [Effect.sentTo?] at hto
      split at hto
      · cases hto
        exact news?_of_sent (move_of_step h) heffect
      · cases hto
    | _ => cases hto

theorem mem_sent : (c, event) ∈ sent history ↔
    ∃ x ∈ history, x.before.eventLoop = true ∧ .controller c (.event event) ∈ x.effects := by
  unfold sent
  rw [List.mem_flatMap]
  constructor
  · rintro ⟨x, hx, h⟩
    split at h
    · rename_i hl
      obtain ⟨effect, hmem, he⟩ := List.mem_filterMap.1 h
      refine ⟨x, hx, hl, ?_⟩
      unfold Effect.event? at he
      split at he
      · cases he
        exact hmem
      · cases he
    · cases h
  · rintro ⟨x, hx, hl, hmem⟩
    refine ⟨x, hx, ?_⟩
    rw [if_pos hl]
    exact List.mem_filterMap.2 ⟨_, hmem, rfl⟩

theorem mem_events_of_sent (run : Run step (start config) history f)
    (h : (c, event) ∈ sent history) : event ∈ Controller.events (course history c) := by
  obtain ⟨x, hx, -, hmem⟩ := mem_sent.1 h
  obtain ⟨-, -, -, f', hstep⟩ := run.of_mem hx
  obtain ⟨did, hi⟩ := controller_of_mem (move_of_step hstep) hmem
  refine Controller.mem_events.2 (Controller.mem_trace.2 ?_)
  refine ⟨⟨x.before.controllerAt c, .act (x.before.surroundings c) did,
    x.effects.filterMap (·.of? c)⟩, List.mem_flatMap.2 ⟨x, hx, ?_⟩, ?_⟩
  · simp [Episode.courseOf, hi]
  · exact List.mem_filterMap.2 ⟨_, hmem, by simp [Effect.of?]⟩

theorem exists_machine_of_sent (run : Run step (start config) history f)
    (h : (c, event) ∈ sent history) :
    ∃ machine, (c, machine) ∈ reports history ∧ event.id = machine.id := by
  have hcourse := run_course run c
  have hevent := mem_events_of_sent run h
  obtain ⟨machine, hm⟩ := Controller.exists_machine_of_run hcourse
  have hstarted := Controller.hasStarted_of_events hcourse (List.ne_nil_of_mem hevent)
  obtain ⟨y, hy, m, hdid⟩ := hstarted
  obtain rfl := hm y hy m hdid
  refine ⟨m, mem_reports.2 (exists_input_of_course hy hdid), ?_⟩
  obtain ⟨n, hturns | hturns⟩ := Controller.exists_turns_of_told
    (Controller.told_of_run hcourse hm (newsIsOwn_course run c))
  · rw [hturns] at hevent
    exact FleetEvent.id_of_mem_turns hevent
  · rw [hturns] at hevent
    rcases List.mem_append.1 hevent with hevent | hevent
    · exact FleetEvent.id_of_mem_turns hevent
    · rw [List.mem_singleton.1 hevent]
      rfl

theorem unprobed_of_run (run : Run step (start config) history f) (c : Nat) :
    Registered (makings history) f c ∨ Unprobed f c := by
  induction run with
  | nil => exact .inr fun controller hc => by cases hc
  | @snoc history f f' a effects run h ih =>
    rw [makings_snoc]
    have hm := move_of_step h
    rcases ih with hr | hun
    · exact .inl (hr.move hm)
    · by_cases hn : Registered (makings history ++ (making? f a).toList) f' c
      · exact .inl hn
      · exact .inr (hun.move (books_of_run run) hm hn)

/-- News of readiness comes only from controllers whose machines were registered. -/
theorem registered_of_news (run : Run step (start config) history f)
    (h : (c, event) ∈ sent history) (hn : event.news? ≠ none) :
    Registered (makings history) f c := by
  induction run with
  | nil => cases h
  | @snoc history f f' a effects run hstep ih =>
    rw [makings_snoc]
    have hm := move_of_step hstep
    obtain ⟨x, hx, hl, hmem⟩ := mem_sent.1 h
    rcases List.mem_append.1 hx with hx | hx
    · exact (ih (mem_sent.2 ⟨x, hx, hl, hmem⟩)).move hm
    · obtain rfl := List.mem_singleton.1 hx
      obtain ⟨did, rfl⟩ := controller_of_mem hm hmem
      obtain ⟨before, after, made, hc, -, rfl, hmove⟩ := move_of_controller hm
      have hevent : .event event ∈ made := by simpa using hmem
      rcases unprobed_of_run run c with hr | hun
      · exact hr.move hm
      · -- What an unprobed controller has in its mail is no news that it could pass on.
        have hmail := (hun before hc).2
        rcases Controller.event_move hmove hevent with ⟨_, -, rfl, -⟩ |
          ⟨machine, rest, -, -, ⟨hb, rfl⟩ | ⟨hb, rfl⟩⟩
        · exact absurd rfl hn
        · cases (hmail (.ready machine) (by rw [hb]; exact List.mem_cons_self ..)).2
        · cases (hmail (.unready machine) (by rw [hb]; exact List.mem_cons_self ..)).2

end Senders

section Queue

variable {config : FleetConfig} {history : List Episode} {f f' f₁ : Fleet} {a : Action}
  {effects : List Effect} {k c : Nat} {old new : Call} {event : FleetEvent}

theorem filterMap_event?_turn (h : Turn f k a old new f₁ effects) :
    effects.filterMap (·.event?) = [] := by
  cases h <;> simp [sentEffects, Effect.event?]

theorem filterMap_event?_map (c : Nat) (made : List Controller.Effect) :
    (made.map (Effect.controller c)).filterMap (·.event?) =
      (made.filterMap Fleet.event?).map (c, ·) := by
  rw [List.filterMap_map, List.map_filterMap]
  refine List.filterMap_congr fun effect _ => ?_
  cases effect <;> rfl

/-- Events wait in the order in which they were sent, behind those that were handled. -/
theorem queue_of_run (run : Run step (start config) history f) (hl : f.eventLoop = true) :
    handled history ≤ (sent history).length ∧
      ((sent history).drop (handled history)).map (·.2) = f.events := by
  induction run with
  | nil => exact ⟨Nat.le_refl _, rfl⟩
  | @snoc history f f' a effects run h ih =>
    have hm := move_of_step h
    have hloop : f.eventLoop = true := eventLoop_move hm hl
    obtain ⟨hle, hqueue⟩ := ih hloop
    have hsent : sent (history ++ [⟨f, a, effects⟩]) =
        sent history ++ effects.filterMap (·.event?) := by
      simp [sent, hloop]
    have hhandled : handled (history ++ [⟨f, a, effects⟩]) =
        handled history + a.isHandling.toNat := by
      cases hi : a.isHandling <;> simp [handled, List.countP_append, hi]
    rw [hsent, hhandled]
    -- A step that sends nothing and handles nothing leaves the queue as it is.
    have hsame (hs : effects.filterMap (·.event?) = []) (ha : a.isHandling = false)
        (he : f'.events = f.events) :
        handled history + a.isHandling.toNat ≤
            (sent history ++ effects.filterMap (·.event?)).length ∧
          ((sent history ++ effects.filterMap (·.event?)).drop
            (handled history + a.isHandling.toNat)).map (·.2) = f'.events := by
      rw [hs, ha, he, List.append_nil]
      exact ⟨hle, hqueue⟩
    cases hm with
    | turned k a old new f₁ effects hk ht =>
      have hnone : a.isHandling = false := by cases ht <;> rfl
      refine hsame (filterMap_event?_turn ht) hnone ?_
      cases ht with
      | closed => cases hl
      | _ => rfl
    | worked c did before after made hc hmove =>
      have hnew : (f.worked c after made).events = f.events ++ made.filterMap Fleet.event? := by
        rw [worked, if_pos hloop]
      rw [hnew, filterMap_event?_map, ← hqueue]
      refine ⟨?_, ?_⟩
      · rw [List.length_append]
        exact Nat.le_add_right_of_le hle
      · show ((sent history ++ _).drop (handled history)).map _ = _
        rw [List.drop_append_of_le_length hle, List.map_append, List.map_map]
        exact congrArg (_ ++ ·) (List.map_id _)
    | handled event rest _ hev =>
      rw [hev] at hqueue
      have hlen : ((sent history).drop (handled history)).length = rest.length + 1 := by
        rw [← List.length_map (·.2), hqueue, List.length_cons]
      rw [List.length_drop] at hlen
      refine ⟨?_, ?_⟩
      · simp only [List.filterMap_nil, List.append_nil, Action.isHandling, Bool.toNat_true]
        omega
      · show ((sent history ++ []).drop (handled history + 1)).map _ = rest
        rw [List.append_nil, ← List.drop_drop, List.map_drop, hqueue]
        rfl
    | created => exact hsame rfl rfl rfl
    | vanished => cases hl
    | _ => exact hsame rfl rfl rfl

theorem exists_sender (run : Run step (start config) history f) (hl : f.eventLoop = true)
    {rest : List FleetEvent} (he : f.events = event :: rest) :
    ∃ c, (sent history)[handled history]? = some (c, event) := by
  obtain ⟨-, hqueue⟩ := queue_of_run run hl
  rw [he] at hqueue
  have hhead : (((sent history).drop (handled history)).map (·.2))[0]? = some event := by
    rw [hqueue]
    rfl
  rw [List.getElem?_map, List.getElem?_drop, Nat.add_zero] at hhead
  obtain ⟨⟨c, event'⟩, hget, rfl⟩ := Option.map_eq_some_iff.1 hhead
  exact ⟨c, hget⟩

theorem get?_applyEvent_of_ne {r : Registry Nat} {id : String} (h : id ≠ event.id) :
    (applyEvent r event).get? id = r.get? id := by
  cases event with
  | stopped id' => exact Registry.get?_remove.trans (if_neg h)
  | ready machine => exact Registry.get?_setReady.trans (if_neg h)
  | unready machine => exact Registry.get?_setReady.trans (if_neg h)

/-- Every event that is handled was sent by a controller, and changes the registry at most under the
identity that this controller's driver has reported; news of readiness comes only from controllers
that were registered. So as long as no two drivers report one identity, an event leaves the entries
of all controllers but its sender alone. -/
theorem events_change_own_identity (run : Run step (start config) history f)
    (h : f.step .handleEvent = some (f', effects)) :
    ∃ c event machine, (sent history)[handled history]? = some (c, event) ∧
      (c, machine) ∈ reports history ∧ event.id = machine.id ∧
      (event.news? ≠ none → Registered (makings history) f c) ∧
      f' = { f with events := f.events.tail, registry := applyEvent f.registry event } ∧
      (∀ id, id ≠ machine.id → f'.registry.get? id = f.registry.get? id) ∧
      (Distinct (reports history) → ∀ id e, f.registry.get? id = some e → e.controller ≠ c →
        f'.registry.get? id = some e) := by
  cases move_of_step h with
  | turned k a old new f₁ effects hk ht => cases ht
  | handled event rest hl he =>
    obtain ⟨c, hget⟩ := exists_sender run hl he
    have hsent : (c, event) ∈ sent history := List.mem_of_getElem? hget
    obtain ⟨machine, hreport, hid⟩ := exists_machine_of_sent run hsent
    have hother (id : String) (hne : id ≠ machine.id) :
        (applyEvent f.registry event).get? id = f.registry.get? id :=
      get?_applyEvent_of_ne (by rw [hid]; exact hne)
    refine ⟨c, event, machine, hget, hreport, hid, registered_of_news run hsent, by rw [he]; rfl,
      hother, ?_⟩
    intro hd id e hentry hne
    have hidne : id ≠ machine.id := by
      -- Under its own identity the registry knows no other controller.
      intro heq
      have hmem := mem_reports_of_get? run hentry
      exact hne (hd.eq hmem hreport heq).1
    exact (hother id hidne).trans hentry

def exitBesideAnother : List Action :=
  [.request .start, .request .start, .create 0 (.ok ()), .create 1 (.ok ()),
    .controller 0 .receive, .controller 1 .receive,
    .controller 0 (.driverStarted (.ok ⟨"m1", .v4 (.ofBytes 10 0 0 2)⟩)),
    .controller 1 (.driverStarted (.ok ⟨"m2", .v4 (.ofBytes 10 0 0 3)⟩)),
    .proceed 0, .proceed 1, .proceed 0, .proceed 1, .controller 1 (.machineExited none),
    .controller 1 .receive, .controller 1 .reportExit]

theorem exit_leaves_other_machine :
    ∃ history f f' effects, Run step (start (.defaults "/")) history f ∧
      f.step .handleEvent = some (f', effects) ∧ Distinct (reports history) ∧
      (sent history)[handled history]? = some (1, .stopped "m2") ∧
      f'.registry.get? "m1" = some ⟨"m1", 0, .v4 (.ofBytes 10 0 0 2), false⟩ := by
  obtain ⟨⟨history, f⟩, hr⟩ :
      ∃ r, replay step (start (.defaults "/")) exitBesideAnother = some r := ⟨_, rfl⟩
  have run := Run.of_replay hr
  have hlast {β : Type} (g : Fleet → β) {b : β} := last_of_replay hr g (b := b)
  have hd : Distinct (reports history) := by
    rw [reports_of_replay hr, Distinct]
    decide
  have hstep : (f.step .handleEvent).isSome = true := hlast (·.step .handleEvent |>.isSome) rfl
  obtain ⟨⟨f', effects⟩, h⟩ := Option.isSome_iff_exists.1 hstep
  have hsender : (sent history)[handled history]? = some (1, .stopped "m2") :=
    history_of_replay hr (fun history => (sent history)[handled history]?) rfl
  have hentry : f.registry.get? "m1" = some ⟨"m1", 0, .v4 (.ofBytes 10 0 0 2), false⟩ :=
    hlast (·.registry.get? "m1") rfl
  obtain ⟨c, event, machine, hget, -, -, -, -, -, hothers⟩ := events_change_own_identity run h
  rw [hsender] at hget
  cases hget
  exact ⟨history, f, f', effects, run, h, hd, hsender, hothers hd "m1" _ hentry (by decide)⟩

/-- Two machines with one identity. The second is refused, but has exited before that; its
controller finds the news of the exit before the request to retire. -/
def sameIdentity : List Action :=
  [.request .start, .create 0 (.ok ()), .controller 0 .receive,
    .controller 0 (.driverStarted (.ok ⟨"m1", .v4 (.ofBytes 10 0 0 2)⟩)), .proceed 0, .proceed 0,
    .proceed 0, .controller 0 .receive, .proceed 0, .request .start, .create 1 (.ok ()),
    .controller 1 .receive,
    .controller 1 (.driverStarted (.ok ⟨"m1", .v4 (.ofBytes 10 0 0 3)⟩)),
    .controller 1 (.machineExited none), .proceed 1, .proceed 1, .controller 1 .receive,
    .controller 1 .reportExit]

/-- The news of the second machine's exit removes the first from the registry and has it shut down.
-/
theorem refused_machine_shuts_down_another :
    ∃ history f f' f'' effects, Run step (start (.defaults "/")) history f ∧
      f.calls[1]? = some (.retiring 1 (.alreadyExists "m1")) ∧
      (sent history)[handled history]? = some (1, .stopped "m1") ∧
      f.registry.get? "m1" = some ⟨"m1", 0, .v4 (.ofBytes 10 0 0 2), false⟩ ∧
      f.step .handleEvent = some (f', effects) ∧ f'.registry.get? "m1" = none ∧
      f'.step (.controller 0 .receive) = some (f'', [.controller 0 (.call .shutdown)]) := by
  obtain ⟨⟨history, f⟩, hr⟩ : ∃ r, replay step (start (.defaults "/")) sameIdentity = some r :=
    Option.isSome_iff_exists.1 (by decide +kernel)
  have run := Run.of_replay hr
  have hlast {β : Type} (g : Fleet → β) {b : β} := last_of_replay hr g (b := b)
  have hcall : f.calls[1]? = some (.retiring 1 (.alreadyExists "m1")) := hlast (·.calls[1]?) rfl
  have hsender : (sent history)[handled history]? = some (1, .stopped "m1") :=
    history_of_replay hr (fun history => (sent history)[handled history]?) (by decide +kernel)
  have hentry : f.registry.get? "m1" = some ⟨"m1", 0, .v4 (.ofBytes 10 0 0 2), false⟩ :=
    hlast (·.registry.get? "m1") (by decide +kernel)
  obtain ⟨⟨f', effects⟩, h⟩ : ∃ r, f.step .handleEvent = some r :=
    Option.isSome_iff_exists.1 (hlast (·.step .handleEvent |>.isSome) (by decide +kernel))
  have hgone : f'.registry.get? "m1" = none := by
    have hg := hlast (fun f => (f.step .handleEvent).map (·.1.registry.get? "m1"))
      (b := some none) (by decide +kernel)
    simpa [h] using hg
  have hshutdown : (f'.step (.controller 0 .receive)).map (·.2) =
      some [.controller 0 (.call .shutdown)] := by
    have hs := hlast (fun f => (f.step .handleEvent).bind
      fun r => (r.1.step (.controller 0 .receive)).map (·.2))
      (b := some [.controller 0 (.call .shutdown)]) (by decide +kernel)
    simpa [h] using hs
  obtain ⟨⟨f'', made⟩, hstep, rfl⟩ := Option.map_eq_some_iff.1 hshutdown
  exact ⟨history, f, f', f'', effects, run, hcall, hsender, hentry, h, hgone, hstep⟩

end Queue

end Fleet

end MachineFleet
