import MachineFleet.Proofs.Fleet.Draining

namespace MachineFleet.Fleet

section Free

variable {f f' : Fleet} {a : Action} {effects : List Effect} {made : List Making} {c : Nat}

def Free (made : List Making) (f : Fleet) (c : Nat) : Prop :=
  MakerIs made f c (fun call => !call.isUnfinished) ∧ ¬ Listed f c

theorem Free.holds (h : Free made f c) (b : Books made f) : f.holds c = false := by
  obtain ⟨⟨mk, call, hmk, hcall, hu⟩, hn⟩ := h
  exact b.not_held_of_ended hmk hcall (by simpa using hu) hn

/-- A controller that is free stays so, since only its own call could register it. -/
theorem Free.move (h : Free made f c) (b : Books made f) (hm : Move f a f' effects) :
    Free (made ++ (making? f a).toList) f' c := by
  obtain ⟨hmaker, hn⟩ := h
  refine ⟨hmaker.move hm rfl ?_ ?_, ?_⟩
  · intro k a old new f₁ effects ht hu
    simp [isUnfinished_turn ht] at hu
  · intro call effects
    rw [Call.isUnfinished_deliverAll]
  · intro hl
    rcases listed_move hm hl with hl | ⟨k, machine, hk, -⟩
    · exact hn hl
    · obtain ⟨mk, call, hmk, hcall, hu⟩ := hmaker
      obtain ⟨mk', hmk', rfl⟩ := b.makers.own k _ c hk rfl
      rw [hmk] at hmk'
      cases hmk'
      rw [hcall] at hk
      cases hk
      cases hu

theorem free_of_ended {controller : Controller} (b : Books made f)
    (hu : ∀ call ∈ f.calls, Call.isUnfinished call = false)
    (hc : f.controllers[c]? = some controller)
    (hn : ∀ id e, f.registry.get? id = some e → e.controller ≠ c) : Free made f c := by
  have hlt : c < made.length := by
    rw [b.makers.length]
    exact (List.getElem?_eq_some_iff.1 hc).1
  have hmk : made[c]? = some made[c] := List.getElem?_eq_getElem hlt
  obtain ⟨call, hcall, -⟩ := b.makers.past made[c] (List.getElem_mem hlt)
  refine ⟨⟨made[c], call, hmk, hcall, ?_⟩, ?_⟩
  · simp [hu call (List.mem_of_getElem? hcall)]
  · rintro (⟨id, e, he, hce⟩ | ⟨other, hm, hl⟩)
    · exact hn id e he hce
    · have hdone := hu other hm
      cases other <;> first | cases hl | cases hdone

end Free

section Executions

variable {config : FleetConfig} (x : Execution step (start config)) {n m k c : Nat}

theorem free_stays (h : Free (makings (x.history n)) (x.state n) c) (hm : n ≤ m) :
    Free (makings (x.history m)) (x.state m) c := by
  refine Execution.stays (P := fun i => Free (makings (x.history i)) (x.state i) c) h hm ?_
  intro i _ hi
  rw [Execution.history, makings_snoc]
  exact hi.move (books_of_run (x.run i)) (move_of_step (x.steps i))

theorem exists_registration (hn : ¬ Registered (makings (x.history n)) (x.state n) c)
    (hr : Registered (makings (x.history m)) (x.state m) c) (hnm : n ≤ m) :
    ∃ (i j : Nat) (machine : Metadata), n ≤ i ∧ i < m ∧
      (x.state i).calls[j]? = some (.registering c machine) ∧
      (x.state (i + 1)).calls[j]? = some (.announcing c machine) := by
  obtain ⟨i, hni, him, hbefore, hafter⟩ := Execution.exists_last
    (P := fun i => ¬ Registered (makings (x.history i)) (x.state i) c) hn (fun h => h hr) hnm
  have hlast := hbefore i hni (Nat.le_refl i)
  have hnext : Registered (makings (x.history (i + 1))) (x.state (i + 1)) c :=
    Classical.not_not.1 hafter
  rw [Execution.history, makings_snoc] at hnext
  rcases (books_of_run (x.run i)).registered_of_move (move_of_step (x.steps i)) hnext with
    hr | ⟨j, machine, registry, hj, -, hstate⟩
  · exact absurd hr hlast
  · refine ⟨i, j, machine, hni, him, hj, ?_⟩
    rw [hstate, getElem?_setCall (f := { x.state i with registry }) hj, if_pos rfl]

/-- After a close that has returned: of the controllers that were registered when it took stock,
none is in the registry, as long as its caller has not given it up. -/
theorem not_registered_of_closed {s : Nat} (hs : TakesStock x k s)
    (hk : (x.state n).calls[k]? = some (.finished .closed)) (hsn : s < n) {id : String}
    {e : Entry Nat} (he : (x.state n).registry.get? id = some e) :
    ¬ Registered (makings (x.history (s + 1))) (x.state (s + 1)) e.controller := by
  -- Until it returns, what the registry knew at that time is what it has not passed over.
  have hleaves : (x.state n).calls[k]? = some .abandoned ∨
      ∃ call, (x.state n).calls[k]? = some call ∧ call.isDraining = true ∧
        Leaves (Registered (makings (x.history (s + 1))) (x.state (s + 1))) (x.state n) call := by
    refine Execution.stays (n := s + 1) (P := fun i => (x.state i).calls[k]? = some .abandoned ∨
      ∃ call, (x.state i).calls[k]? = some call ∧ call.isDraining = true ∧
        Leaves (Registered (makings (x.history (s + 1))) (x.state (s + 1))) (x.state i) call)
      ?_ hsn ?_
    · refine .inr ⟨_, hs.next, rfl, ?_⟩
      intro id e he _
      rw [hs.registry] at he
      exact ⟨e, Registry.mem_snapshot_of_get? he, Registry.id_of_get? he⟩
    · rintro i hi (habandoned | ⟨call, hcall, hd, hleaves⟩)
      · exact .inl (ended_stays (move_of_step (x.steps i)) habandoned rfl)
      · have hm := move_of_step (x.steps i)
        obtain ⟨call', hcall', hd' | ⟨rfl, -⟩⟩ := isDraining_move hm hcall hd
        · refine .inr ⟨call', hcall', hd', hleaves.move hm hcall hcall' hd hd' ?_⟩
          intro j c machine hj hr
          exact (books_of_run (x.run i)).not_registered_of_registering hj
            (registered_stays x hr hi)
        · exact .inl hcall'
  intro hr
  rcases hleaves with habandoned | ⟨call, hcall, -, hleaves⟩
  · rw [hk] at habandoned
    cases habandoned
  · rw [hk] at hcall
    cases hcall
    obtain ⟨e', hm, -⟩ := hleaves id e he hr
    cases hm

/-- Once a close has returned and all calls have ended, the registry holds no machine but such as
were registered after the close had taken stock. Every other machine that a driver has started, or
starts later for a call that has failed, is torn down, as long as its controller is kept going. So
the calls that overlap a close or follow it leave a machine behind only by registering it too late
to be found. -/
theorem close_leaves_late_machines_alone
    (hk : (x.state n).calls[k]? = some (.finished .closed))
    (hu : ∀ call ∈ (x.state n).calls, Call.isUnfinished call = false) :
    (∃ s < n, TakesStock x k s ∧
      ∀ id e, (x.state n).registry.get? id = some e →
        ∃ (i j : Nat) (machine : Metadata), s < i ∧ i < n ∧
          (x.state i).calls[j]? = some (.registering e.controller machine) ∧
          (x.state (i + 1)).calls[j]? = some (.announcing e.controller machine)) ∧
    ∀ j c controller machine, (x.state n).controllers[c]? = some controller →
      (∀ id e, (x.state n).registry.get? id = some e → e.controller ≠ c) →
      x.input j = .controller c (.driverStarted (.ok machine)) → KeepsGoing x c →
      ∃ m, ∀ i ≥ m, ∃ controller, (x.state i).controllers[c]? = some controller ∧
        controller.phase = .terminated ∧ TornDown machine.id (course (x.history i) c) := by
  have books := books_of_run (x.run n)
  constructor
  · obtain ⟨s, hsn, hs⟩ := exists_takesStock x hk rfl
    refine ⟨s, hsn, hs, ?_⟩
    intro id e he
    have hbefore := not_registered_of_closed x hs hk hsn he
    have hnow := books.listing e.controller (.inl ⟨id, e, he, rfl⟩)
    obtain ⟨i, j, machine, hi, hin, hj, hj'⟩ := exists_registration x hbefore hnow hsn
    exact ⟨i, j, machine, hi, hin, hj, hj'⟩
  · intro j c controller machine hc hn hj hgoing
    have hfree := free_of_ended books hu hc hn
    have hjn : j < max n (j + 1) := Nat.lt_of_lt_of_le (Nat.lt_succ_self j) (Nat.le_max_right ..)
    refine doomed_machine_is_torn_down x hjn hj hgoing ?_
    intro i hi
    have hlater := free_stays x hfree (Nat.le_trans (Nat.le_max_left ..) hi)
    exact .inl (hlater.holds (books_of_run (x.run i)))

/-- Two starts and a close. The first machine is registered when the close takes stock, the second
comes up only afterwards. -/
def closeBetweenStarts : List Action :=
  [.request .start, .create 0 (.ok ()), .controller 0 .receive,
    .controller 0 (.driverStarted (.ok ⟨"m1", .v4 (.ofBytes 10 0 0 2)⟩)),
    .proceed 0, .proceed 0, .proceed 0, .proceed 0, .controller 0 .receive,
    .request .start, .create 1 (.ok ()), .controller 1 .receive,
    .request .close, .proceed 2, .proceed 2, .drain 2 "m1", .controller 0 .receive,
    .controller 0 (.driverShutDown none), .controller 0 (.networkReleased none none),
    .proceed 2, .proceed 2,
    .controller 1 (.driverStarted (.ok ⟨"m2", .v4 (.ofBytes 10 0 0 3)⟩)),
    .proceed 1, .proceed 1, .proceed 1, .proceed 1, .controller 1 .receive]

theorem close_tears_early_machine_down :
    ∃ (x : Execution step (start (.defaults "/"))) (n : Nat),
      (x.state n).calls[2]? = some (.finished .closed) ∧
      (∀ call ∈ (x.state n).calls, Call.isUnfinished call = false) ∧
      (∃ (s i j : Nat) (machine : Metadata), s < i ∧ i < n ∧ TakesStock x 2 s ∧
        (x.state i).calls[j]? = some (.registering 1 machine)) ∧
      KeepsGoing x 0 ∧ ∃ m, ∀ i ≥ m, TornDown "m1" (course (x.history i) 0) := by
  obtain ⟨⟨past, f⟩, hr⟩ : ∃ r, replay step (start (.defaults "/")) closeBetweenStarts = some r :=
    Option.isSome_iff_exists.1 (by decide +kernel)
  have hlast {β : Type} (g : Fleet → β) {b : β} := last_of_replay hr g (b := b)
  obtain ⟨x, -, hinputs, hrest⟩ := exists_ticking hr
  obtain ⟨hstate, -⟩ := hrest past.length (Nat.le_refl _)
  have hcalls : (x.state past.length).calls = f.calls := by rw [hstate]
  have hcontrollers : (x.state past.length).controllers = f.controllers := by rw [hstate]
  have hregistry : (x.state past.length).registry = f.registry := by rw [hstate]
  have hclosed : (x.state past.length).calls[2]? = some (.finished .closed) := by
    rw [hcalls]
    exact hlast (·.calls[2]?) rfl
  have hended : ∀ call ∈ (x.state past.length).calls, Call.isUnfinished call = false := by
    have h : f.calls.all (fun call => !call.isUnfinished) = true :=
      hlast (·.calls.all _) (by decide +kernel)
    rw [hcalls]
    simpa using h
  obtain ⟨hlate, htorn⟩ := close_leaves_late_machines_alone x hclosed hended
  obtain ⟨s, -, hs, hlate⟩ := hlate
  have hentry : f.registry.get? "m2" = some ⟨"m2", 1, .v4 (.ofBytes 10 0 0 3), false⟩ :=
    hlast (·.registry.get? "m2") (by decide +kernel)
  obtain ⟨i, j, machine, hsi, hin, hj, -⟩ := hlate "m2" _ (by rw [hregistry]; exact hentry)
  have hphase : (f.controllers[0]?).map (·.phase) = some .terminated :=
    hlast (fun f => (f.controllers[0]?).map (·.phase)) (by decide +kernel)
  obtain ⟨controller, hc, hp⟩ := Option.map_eq_some_iff.1 hphase
  rw [← hcontrollers] at hc
  have hgoing : KeepsGoing x 0 := keepsGoing_of_terminated x hc hp
  have hgone : ∀ id e, (x.state past.length).registry.get? id = some e → e.controller ≠ 0 := by
    have h : f.registry.snapshot.all (fun e => e.controller != 0) = true :=
      hlast (·.registry.snapshot.all _) (by decide +kernel)
    rw [hregistry]
    intro id e he
    simpa using List.all_eq_true.1 h e (Registry.mem_snapshot_of_get? he)
  have hstarted : x.input 3 =
      .controller 0 (.driverStarted (.ok ⟨"m1", .v4 (.ofBytes 10 0 0 2)⟩)) := hinputs 3 _ rfl
  obtain ⟨m, hm⟩ := htorn 3 0 controller _ hc hgone hstarted hgoing
  refine ⟨x, past.length, hclosed, hended, ⟨s, i, j, machine, hsi, hin, hs, hj⟩, hgoing, m, ?_⟩
  intro i hi
  obtain ⟨-, -, -, h⟩ := hm i hi
  exact h

def closeDuringStart : List Action :=
  [.request .start, .create 0 (.ok ()), .controller 0 .receive, .request .close, .proceed 1,
    .proceed 1, .proceed 1,
    .controller 0 (.driverStarted (.ok ⟨"m1", .v4 (.ofBytes 10 0 0 2)⟩)),
    .proceed 0, .proceed 0, .proceed 0, .proceed 0, .controller 0 .receive]

/-- The close and the start have ended, but the machine runs and is registered, and nothing is under
way that would stop it. -/
theorem late_machine_outlives_close :
    ∃ history f, Run step (start (.defaults "/")) history f ∧
      f.calls[1]? = some (.finished .closed) ∧ f.health = ⟨false, false⟩ ∧
      (∀ call ∈ f.calls, Call.isUnfinished call = false) ∧
      f.registry.get? "m1" = some ⟨"m1", 0, .v4 (.ofBytes 10 0 0 2), false⟩ ∧
      (∃ controller running, f.controllers[0]? = some controller ∧
        controller.phase = .started running) ∧
      f.step (.controller 0 .receive) = none := by
  obtain ⟨⟨history, f⟩, hr⟩ : ∃ r, replay step (start (.defaults "/")) closeDuringStart = some r :=
    Option.isSome_iff_exists.1 (by decide +kernel)
  have hlast {β : Type} (g : Fleet → β) {b : β} := last_of_replay hr g (b := b)
  have hended : f.calls.all (fun call => !call.isUnfinished) = true :=
    hlast (·.calls.all _) (by decide +kernel)
  have hentry : f.registry.get? "m1" = some ⟨"m1", 0, .v4 (.ofBytes 10 0 0 2), false⟩ :=
    hlast (·.registry.get? "m1") (by decide +kernel)
  have hruns : (f.controllers[0]?).map (·.phase.rank) = some 2 :=
    hlast (fun f => (f.controllers[0]?).map (·.phase.rank)) (by decide +kernel)
  have hidle : (f.step (.controller 0 .receive)).isNone = true :=
    hlast (fun f => (f.step (.controller 0 .receive)).isNone) (by decide +kernel)
  refine ⟨history, f, Run.of_replay hr, hlast (·.calls[1]?) rfl, hlast (·.health) rfl,
    by simpa using hended, hentry, ?_, Option.isNone_iff_eq_none.1 hidle⟩
  obtain ⟨controller, hc, hrank⟩ := Option.map_eq_some_iff.1 hruns
  cases hp : controller.phase with
  | started running => exact ⟨controller, running, hc, hp⟩
  | _ =>
    rw [hp] at hrank
    exact absurd hrank (by simp [Controller.Phase.rank])

end Executions

end MachineFleet.Fleet
