import MachineFleet.Proofs.Machine.Agreement

namespace MachineFleet.ProcessFleet

open ProcessFactory (Ends handed? returns effectsAt givenBack)

variable {config : MachineConfig} {files : Files.Tree} {s : ProcessFleet}
  {history : List (Happening ProcessFleet Input (Nat × Controller.Effect))} {k : Nat}
  {c : Controller} {ip : Ipv4}

theorem Agreed.once (h : Agreed config files s) (k : Nat) (ip : Ipv4) :
    (returns s.past).count (k, ip) ≤ 1 := by
  rw [← ProcessFactory.count_givenBack]
  refine Nat.le_trans List.count_le_length ?_
  cases hc : s.controllers[k]? with
  | none =>
    have hk : s.factory.sites.length ≤ k := by
      rw [← h.size]
      exact List.getElem?_eq_none_iff.1 hc
    rw [(nothing_before_create h.run hk).2]
    exact Nat.zero_le 1
  | some c =>
    obtain ⟨site, hs⟩ := h.exists_site hc
    have l := h.attended k c site hc hs
    -- Nothing is given back before the network is released, and then one address at most.
    rcases Nat.lt_or_ge c.phase.rank 5 with hr | hr
    · rw [l.kept (by omega)]
      exact Nat.zero_le 1
    · rw [(l.given hr).1]
      exact Option.length_toList_le

/-- A machine that is not torn down yet has this address. -/
def Owns (s : ProcessFleet) (k : Nat) (ip : Ipv4) : Prop :=
  ∃ c, s.controllers[k]? = some c ∧ ¬ c.phase.IsOver ∧ s.factory.address? k = some ip

theorem Linked.address_given_back {site : ProcessSite} {told : List ProcessFactory.Effect}
    {back : List Ipv4} (l : Linked c site told back) (ha : site.address? = some ip) :
    ip ∈ back ↔ c.phase.IsOver := by
  constructor
  · intro hip
    by_contra hr
    have hr : ¬ 5 ≤ c.phase.rank := hr
    rw [l.kept (by omega)] at hip
    cases hip
  · intro hr
    have hr : 5 ≤ c.phase.rank := hr
    have hstarting := l.stage.starting_eq_none (by omega)
    have haddress : site.driver.process.map (·.address) = some ip := by
      simpa [ProcessSite.address?, hstarting] using ha
    rw [(l.given hr).1, haddress]
    exact List.mem_singleton_self ip

theorem Agreed.owns_iff_holds (h : Agreed config files s) :
    s.Owns k ip ↔ s.factory.Holds s.past k ip := by
  have hreturned : (k, ip) ∈ returns s.past ↔ ip ∈ givenBack s.past k := by
    rw [← List.count_pos_iff, ← ProcessFactory.count_givenBack, List.count_pos_iff]
  constructor
  · rintro ⟨c, hc, hover, ha⟩
    obtain ⟨site, hs⟩ := h.exists_site hc
    have hsite := (ProcessFactory.address?_of_site hs).symm.trans ha
    refine ⟨ha, fun hk => hover ?_⟩
    exact ((h.attended k c site hc hs).toLinked.address_given_back hsite).1 (hreturned.1 hk)
  · rintro ⟨ha, hk⟩
    obtain ⟨site, hs, hsite⟩ := Option.bind_eq_some_iff.1 ha
    obtain ⟨c, hc⟩ := h.exists_controller hs
    refine ⟨c, hc, fun hover => hk ?_, ha⟩
    exact hreturned.2 (((h.attended k c site hc hs).toLinked.address_given_back hsite).2 hover)

theorem Agreed.leased_iff (h : Agreed config files s) :
    ip ∈ s.factory.premises.pool.leases ↔ ∃ k, s.Owns k ip := by
  obtain ⟨-, e⟩ := ProcessFactory.exclusive_of_run h.run fun k => h.once k ip
  constructor
  · intro hip
    obtain ⟨k, hk⟩ := ProcessFactory.held_of_run h.run ip hip
    exact ⟨k, h.owns_iff_holds.2 hk⟩
  · rintro ⟨k, hk⟩
    exact e.leased k (h.owns_iff_holds.1 hk)

theorem Agreed.apart (h : Agreed config files s) {j : Nat} (hj : s.Owns j ip) (hk : s.Owns k ip) :
    j = k := by
  obtain ⟨-, e⟩ := ProcessFactory.exclusive_of_run h.run fun k => h.once k ip
  exact e.apart j k (h.owns_iff_holds.1 hj) (h.owns_iff_holds.1 hk)

theorem Agreed.end_between (h : Agreed config files s)
    {earlier middle later : ProcessFactory.History}
    {x y : Happening ProcessFactory ProcessFactory.Action ProcessFactory.Effect} {j : Nat}
    (hpast : s.past = earlier ++ x :: (middle ++ y :: later)) (hx : handed? x = some (j, ip))
    (hy : handed? y = some (k, ip)) : ∃ z ∈ middle, z.before.Uses j ip ∧ Ends j z := by
  have run := h.run
  rw [hpast] at run
  refine ProcessFactory.exists_end_between run (fun i => ?_) hx hy
  have hbefore : earlier ++ x :: middle <+: s.past := ⟨y :: later, by simp [hpast]⟩
  exact Nat.le_trans ((hbefore.sublist.filterMap _).count_le _) (h.once i ip)

def process? (s : ProcessFleet) (k : Nat) : Option Process :=
  s.factory.sites[k]?.bind (·.driver.process)

/-- A controller that has ended has seen its machine exit, and the address given back. -/
theorem Agreed.ended (h : Agreed config files s) {machine : Metadata}
    (hc : s.controllers[k]? = some c) (hover : c.phase.IsOver)
    (hm : .ok machine ∈ starts (effectsAt s.past k)) :
    ∃ p, s.process? k = some p ∧ machine.address = .v4 p.address ∧ p.exit.isSome = true ∧
      givenBack s.past k = [p.address] ∧
      (p.address ∈ s.factory.premises.pool.leases → ∃ j, j ≠ k ∧ s.Owns j p.address) := by
  obtain ⟨site, hs⟩ := h.exists_site hc
  have l := h.attended k c site hc hs
  obtain ⟨p, hp, ha⟩ := l.stage.process_of_ok hm
  obtain ⟨hback, hexit⟩ := l.given hover
  refine ⟨p, by simp [process?, hs, hp], ha, hexit p hp, by rw [hback, hp]; rfl, fun hip => ?_⟩
  obtain ⟨j, hj⟩ := h.leased_iff.1 hip
  refine ⟨j, ?_, hj⟩
  rintro rfl
  obtain ⟨c', hc', hnot, -⟩ := hj
  cases hc.symm.trans hc'
  exact hnot hover

theorem Agreed.start_failed (h : Agreed config files s) {x : ProcessFactory.Action}
    {f : ProcessFactory} {told : List ProcessFactory.Effect} {e : Error}
    (hx : ProcessFactory.step config s.factory x = some (f, told))
    (he : .started k (.error e) ∈ told) :
    (∀ ip, ip ∈ f.premises.pool.leases ↔ ip ∈ s.factory.premises.pool.leases) ∨
      ∃ leased, (∃ y ∈ s.past, handed? y = some (k, leased) ∧
          leased ∉ y.before.premises.pool.leases) ∧
        ∀ ip, ip ∈ f.premises.pool.leases ↔
          ip ∈ s.factory.premises.pool.leases ∧ ip ≠ leased := by
  have hleases := ProcessFactory.leases_of_failed (ProcessFactory.orderly_of_run h.run) hx he
  cases hstarting : s.factory.sites[k]?.bind (·.starting) with
  | none =>
    refine .inl fun ip => (hleases ip).trans ?_
    simp [hstarting]
  | some leased =>
    obtain ⟨⟨d, starting⟩, hs, rfl⟩ := Option.bind_eq_some_iff.1 hstarting
    obtain ⟨y, hy, hhanded⟩ := ProcessFactory.handed_of_starting h.run hs
    obtain ⟨-, -, -, t, ht⟩ := h.run.of_mem hy
    refine .inr ⟨leased, ⟨y, hy, hhanded, (ProcessFactory.handed_cases ht hhanded).1⟩, fun ip => ?_⟩
    rw [hleases ip, hstarting, ne_eq, Option.some.injEq, eq_comm]

/-- Whatever the controllers of a fleet are asked to do, in whichever order, and whenever processes
exit: an address that was handed out is not handed out again before the start of its machine has
failed or its process has exited; a controller that has ended after its machine was started has seen
the process exit and the address given back, once, and it gets to its end once the process has
exited; a start that fails leaves no lease; and every leased address belongs to one machine, which
is not torn down yet. -/
theorem addresses_are_neither_shared_nor_leaked
    (run : Run (step config) (new config files) history s) :
    (∀ earlier x middle y later j k ip, s.past = earlier ++ x :: (middle ++ y :: later) →
      handed? x = some (j, ip) → handed? y = some (k, ip) →
      ∃ z ∈ middle, z.before.Uses j ip ∧ Ends j z) ∧
    (∀ k c machine, s.controllers[k]? = some c → c.phase = .terminated →
      .ok machine ∈ starts (effectsAt s.past k) →
      ∃ p, s.process? k = some p ∧ machine.address = .v4 p.address ∧ p.exit.isSome = true ∧
        givenBack s.past k = [p.address] ∧
        (p.address ∈ s.factory.premises.pool.leases → ∃ j, j ≠ k ∧ s.Owns j p.address)) ∧
    (∀ k c p surroundings, s.controllers[k]? = some c → 3 ≤ c.phase.rank ∧ c.phase.rank ≤ 6 →
      s.process? k = some p → p.exit.isSome = true →
      ∃ i s' effects c', Input.IsOwn k surroundings i ∧ step config s i = some (s', effects) ∧
        s'.controllers[k]? = some c' ∧ c.phase.rank < c'.phase.rank) ∧
    (∀ (d d' : ProcessDriver) refuses id on e,
      d.start config refuses id s.factory.premises = (d', on, .error e) →
      on.pool = s.factory.premises.pool) ∧
    (∀ x f told k e, ProcessFactory.step config s.factory x = some (f, told) →
      .started k (.error e) ∈ told →
      (∀ ip, ip ∈ f.premises.pool.leases ↔ ip ∈ s.factory.premises.pool.leases) ∨
        ∃ leased, (∃ y ∈ s.past, handed? y = some (k, leased) ∧
            leased ∉ y.before.premises.pool.leases) ∧
          ∀ ip, ip ∈ f.premises.pool.leases ↔
            ip ∈ s.factory.premises.pool.leases ∧ ip ≠ leased) ∧
    ∀ ip, (ip ∈ s.factory.premises.pool.leases ↔ ∃ k, s.Owns k ip) ∧
      ∀ j k, s.Owns j ip → s.Owns k ip → j = k := by
  have h := agreed_of_run run
  refine ⟨fun earlier x middle y later j k ip hpast => h.end_between hpast, ?_, ?_, ?_, ?_, ?_⟩
  · intro k c machine hc hp hm
    have hover : c.phase.IsOver := by
      rw [hp]
      show 5 ≤ 7
      decide
    exact h.ended hc hover hm
  · intro k c p surroundings hc hr hp hexit
    obtain ⟨site, hs, hprocess⟩ := Option.bind_eq_some_iff.1 hp
    exact h.can_go_on hc hs ⟨p, hprocess, hexit⟩ hr surroundings
  · intro d d' refuses id on e hstart
    exact ProcessDriver.pool_of_start_error hstart
  · intro x f told k e hx he
    exact h.start_failed hx he
  · intro ip
    exact ⟨h.leased_iff, fun j k => h.apart⟩

def attentive (now : Instant) : Controller.Surroundings := ⟨now, true, fun _ => true⟩

/-- A machine does not exit in time when it is told to and is killed; another one is started. -/
def replacement : List Input :=
  [.create "first" .defaults 10, .create "second" .defaults 10,
    .post 0 (.start 0), .act 0 (attentive 0) .receive, .endStart 0 "first" fun _ _ => none,
    .hear 0 (attentive 1) .start, .watch 0, .post 0 (.stop 1), .act 0 (attentive 5) .receive,
    .act 0 (attentive 15) .shutdownExpired, .exit 0 (.failure "signal: 9 (SIGKILL)"),
    .hear 0 (attentive 16) .kill, .hear 0 (attentive 17) .release,
    .post 1 (.start 2), .act 1 (attentive 20) .receive, .endStart 1 "second" fun _ _ => none,
    .hear 1 (attentive 21) .start]

/-- A machine that was killed leaves its address to the next one. -/
theorem killed_machine_leaves_its_address :
    ∃ history s, Run (step (.defaults "")) (new (.defaults "") .empty) history s ∧
      history.map (·.input) = replacement ∧
      (∃ p, s.process? 0 = some p ∧ p.exit.isSome = true ∧
        givenBack s.past 0 = [.ofBytes 10 0 0 2]) ∧
      (∃ z ∈ s.past, z.before.Uses 0 (.ofBytes 10 0 0 2) ∧ Ends 0 z) ∧
      ∃ j, j ≠ 0 ∧ s.Owns j (.ofBytes 10 0 0 2) := by
  have htaken :
      (replay (step (.defaults "")) (new (.defaults "") .empty) replacement).isSome = true := by
    decide +kernel
  obtain ⟨⟨history, s⟩, hr⟩ := Option.isSome_iff_exists.1 htaken
  obtain ⟨handouts, ended, -⟩ := addresses_are_neither_shared_nor_leaked (Run.of_replay hr)
  have hended : s.controllers[0]?.map (·.phase) = some .terminated :=
    last_of_replay hr (fun s => s.controllers[0]?.map (·.phase)) (by decide +kernel)
  have hstarted : (starts (effectsAt s.past 0)).map (·.toOption) =
      [some ⟨"first", .v4 (.ofBytes 10 0 0 2)⟩] :=
    last_of_replay hr (fun s => (starts (effectsAt s.past 0)).map (·.toOption)) (by decide +kernel)
  have hleases : s.factory.premises.pool.leases = [.ofBytes 10 0 0 2] :=
    last_of_replay hr (·.factory.premises.pool.leases) (by decide +kernel)
  have hhanded : s.past.filterMap handed? = [(0, .ofBytes 10 0 0 2), (1, .ofBytes 10 0 0 2)] :=
    last_of_replay hr (·.past.filterMap handed?) (by decide +kernel)
  obtain ⟨c, hc, hp⟩ := Option.map_eq_some_iff.1 hended
  have hok : .ok ⟨"first", .v4 (.ofBytes 10 0 0 2)⟩ ∈ starts (effectsAt s.past 0) := by
    obtain ⟨result, hall, hresult⟩ := List.map_eq_singleton_iff.1 hstarted
    cases result with
    | ok machine =>
      cases hresult
      simp [hall]
    | error e => cases hresult
  obtain ⟨p, hprocess, haddress, hexit, hback, howner⟩ := ended 0 c _ hc hp hok
  have hip : p.address = .ofBytes 10 0 0 2 := (IpAddress.v4.inj haddress).symm
  rw [hip] at hback howner
  obtain ⟨earlier, x, rest, hpast, -, hx, hrest⟩ := List.filterMap_eq_cons_iff.1 hhanded
  obtain ⟨middle, y, later, rfl, -, hy, -⟩ := List.filterMap_eq_cons_iff.1 hrest
  obtain ⟨z, hz, hends⟩ := handouts earlier x middle y later 0 1 _ hpast hx hy
  exact ⟨history, s, Run.of_replay hr, map_input_of_replay hr, ⟨p, hprocess, hexit, hback⟩,
    ⟨z, by simp [hpast, hz], hends⟩, howner (by simp [hleases])⟩

end MachineFleet.ProcessFleet
