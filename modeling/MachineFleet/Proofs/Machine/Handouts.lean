import MachineFleet.Proofs.Machine.ProcessSites

namespace MachineFleet

theorem ProcessDriver.pool_of_start_error {config : MachineConfig}
    {refuses : Files.Tree → Launch → Option Files.Failure} {id : String} {d d' : ProcessDriver}
    {on on' : Premises} {e : Error}
    (h : d.start config refuses id on = (d', on', .error e)) : on'.pool = on.pool := by
  unfold start at h
  split at h
  · cases h
    rfl
  · split at h
    · cases h
      rfl
    · rename_i address pool ha
      split at h
      · cases h
        obtain ⟨-, hpool⟩ := AddressPool.allocate_eq_ok_iff.1 ha
        simp [AddressPool.release, hpool]
      · cases h

namespace ProcessFactory

/-- The driver for which a step leases an address, and which one. -/
def handed? (x : Happening ProcessFactory Action Effect) : Option (Nat × Ipv4) :=
  match x.input with
  | .beginStart k =>
    match x.before.sites[k]? with
    | some ⟨d, none⟩ => (d.beginStart x.before.premises.pool).toOption.map (k, ·.1)
    | _ => none
  | _ => none

/-- The process of a driver exits, or the start of its machine fails. -/
def Ends (k : Nat) (x : Happening ProcessFactory Action Effect) : Prop :=
  (∃ exit, x.input = .exit k exit) ∨ ∃ e, .started k (.error e) ∈ x.effects

variable {config : MachineConfig} {files : Files.Tree} {f f' : ProcessFactory} {a : Action}
  {effects : List Effect} {history : History} {k : Nat} {ip other : Ipv4}

/-- An address is handed out while it is free, and nothing else is leased then. -/
theorem handed_cases (h : step config f a = some (f', effects))
    (hh : handed? ⟨f, a, effects⟩ = some (k, ip)) :
    ip ∉ f.premises.pool.leases ∧ f'.premises.pool.leases = ip :: f.premises.pool.leases ∧
      f'.Uses k ip := by
  unfold handed? at hh
  split at hh
  · rename_i j ha
    obtain rfl : a = .beginStart j := ha
    split at hh
    · rename_i d hs
      dsimp only at hs
      simp only [step, hs] at h
      cases hb : d.beginStart f.premises.pool with
      | error e => simp [hb, Except.toOption] at hh
      | ok leased =>
        obtain ⟨address, pool⟩ := leased
        obtain ⟨rfl, rfl⟩ : j = k ∧ address = ip := by simpa [hb, Except.toOption] using hh
        rw [hb] at h
        cases h
        have hallocate : f.premises.pool.allocate = .ok (address, pool) := by
          unfold ProcessDriver.beginStart at hb
          split at hb
          · cases hb
          · exact hb
        obtain ⟨hfree, rfl⟩ := AddressPool.allocate_eq_ok_iff.1 hallocate
        obtain ⟨⟨-, hfree⟩, -⟩ := AddressPool.free?_eq_some_iff.1 hfree
        refine ⟨hfree, rfl, ⟨d, some address⟩, ?_, .inl rfl⟩
        rw [getElem?_setSite (by simp [hs]), if_pos rfl]
    · cases hh
  · cases hh

theorem starting_cases {d : ProcessDriver} (h : step config f a = some (f', effects))
    (hs : f'.sites[k]? = some ⟨d, some ip⟩) :
    f.sites[k]? = some ⟨d, some ip⟩ ∨ handed? ⟨f, a, effects⟩ = some (k, ip) := by
  cases ha : a.driver? with
  | none =>
    cases a with
    | create jail =>
      cases h
      rcases getElem?_concat_eq_some.1 hs with hs | ⟨-, he⟩
      · exact .inl hs
      · cases he
    | write files =>
      cases h
      exact .inl hs
    | _ => cases ha
  | some j =>
    obtain ⟨site, site', back, hbefore, hafter, hm, -⟩ := isMoveAt_of_step h ha
    rw [hafter] at hs
    rcases getElem?_set_eq_some hs with ⟨rfl, rfl⟩ | ⟨-, hs⟩
    · cases hm with
      | begun _ _ hd =>
        refine .inr ?_
        simp only [step, hbefore] at h
        split at h
        · cases h
        · rename_i address pool hb
          cases h
          have hlt : j < f.sites.length := (List.getElem?_eq_some_iff.1 hbefore).1
          have hsame : address = ip := by simpa [setSite, hlt] using congrArg (·[j]?) hafter
          simp [handed?, hbefore, hb, hsame, Except.toOption]
    · exact .inl hs

theorem handed_of_starting {d : ProcessDriver}
    (run : Run (step config) (new config files) history f)
    (hs : f.sites[k]? = some ⟨d, some ip⟩) : ∃ x ∈ history, handed? x = some (k, ip) := by
  induction run with
  | nil => simp [new] at hs
  | @snoc history f f' a effects run h ih =>
    rcases starting_cases h hs with hs | hx
    · obtain ⟨x, hx, hh⟩ := ih hs
      exact ⟨x, List.mem_append_left _ hx, hh⟩
    · exact ⟨_, by simp, hx⟩

/-- A machine uses its address until its start has failed or its process has exited. -/
theorem uses_stays (o : Orderly history f) (h : step config f a = some (f', effects))
    (hu : f.Uses k ip) (hends : ¬ Ends k ⟨f, a, effects⟩) : f'.Uses k ip := by
  obtain ⟨site, hs, hu⟩ := hu
  by_cases ha : a.driver? = some k
  · obtain ⟨before, site', back, hs', hsites, hm, -⟩ := isMoveAt_of_step h ha
    cases hs.symm.trans hs'
    have hlt : k < f.sites.length := (List.getElem?_eq_some_iff.1 hs).1
    refine ⟨site', by rw [hsites, List.getElem?_set_self hlt], ?_⟩
    cases hm with
    | begun d other hd =>
      rcases hu with hu | ⟨p, hp, -⟩
      · cases hu
      · cases hd.symm.trans hp
    | notBegun d e => exact absurd (.inr ⟨e, List.mem_singleton_self _⟩) hends
    | failed id refuses d other e => exact absurd (.inr ⟨e, List.mem_singleton_self _⟩) hends
    | started id refuses d other =>
      rcases hu with hu | ⟨p, hp, -⟩
      · cases hu
        exact .inr ⟨_, rfl, rfl, rfl⟩
      · cases (o.fresh k _ hs rfl).symm.trans hp
    | called n c d =>
      rcases hu with hu | ⟨p, hp, he, rfl⟩
      · cases hu
      · obtain ⟨⟨p', hp', haddress, hexit'⟩, -⟩ := ProcessDriver.call_cases (n := n) (c := c) hp
        exact .inr ⟨p', hp', hexit'.trans he, haddress⟩
    | refused n failure d =>
      rcases hu with hu | ⟨p, hp, he, rfl⟩
      · cases hu
      · obtain ⟨hnone, -⟩ | ⟨⟨q, p', hq, hp', haddress, hexit'⟩, -⟩ :=
          ProcessDriver.refuse_cases n failure d
        · cases hnone.symm.trans hp
        · cases hq.symm.trans hp
          exact .inr ⟨p', hp', hexit'.trans he, haddress⟩
    | exited exit d => exact absurd (.inl ⟨exit, rfl⟩) hends
    | released id d result => exact hu
  · exact ⟨site, (elsewhere_of_step h ha).1 site hs, hu⟩

theorem orderly_of_run (run : Run (step config) (new config files) history f) :
    Orderly history f :=
  run.invariant (P := Orderly) orderly_new fun _ _ _ _ _ o h => orderly_move o (move_of_step h)

theorem uses_or_ended {earlier middle : History} {x : Happening ProcessFactory Action Effect}
    (run : Run (step config) (new config files) (earlier ++ x :: middle) f)
    (hx : handed? x = some (k, ip)) :
    f.Uses k ip ∨ ∃ z ∈ middle, z.before.Uses k ip ∧ Ends k z := by
  induction middle using List.reverseRecOn generalizing f with
  | nil =>
    obtain ⟨-, h⟩ := run.of_concat
    exact .inl (handed_cases h hx).2.2
  | append_singleton middle z ih =>
    rw [← List.cons_append, ← List.append_assoc] at run
    obtain ⟨hrun, h⟩ := run.of_concat
    rcases ih hrun with huses | ⟨y, hy, hends⟩
    · by_cases hends : Ends k z
      · exact .inr ⟨z, by simp, huses, hends⟩
      · exact .inl (uses_stays (orderly_of_run hrun) h huses hends)
    · exact .inr ⟨y, List.mem_append_left _ hy, hends⟩

/-- Between two times at which an address is handed out, the start of the first machine fails or its
process exits. -/
theorem exists_end_between {earlier middle later : History}
    {x y : Happening ProcessFactory Action Effect} {j : Nat}
    (run : Run (step config) (new config files) (earlier ++ x :: (middle ++ y :: later)) f)
    (once : ∀ i, (returns (earlier ++ x :: middle)).count (i, ip) ≤ 1)
    (hx : handed? x = some (j, ip)) (hy : handed? y = some (k, ip)) :
    ∃ z ∈ middle, z.before.Uses j ip ∧ Ends j z := by
  rw [← List.cons_append, ← List.append_assoc] at run
  obtain ⟨t, hrun, h, -⟩ := run.of_append_cons
  refine (uses_or_ended hrun hx).resolve_left fun huses => ?_
  obtain ⟨o, e⟩ := exclusive_of_run hrun once
  exact (handed_cases h hy).1 (e.leased j (o.holds_of_uses huses))

theorem leases_of_failed (o : Orderly history f) (h : step config f a = some (f', effects))
    {e : Error} (he : .started k (.error e) ∈ effects) (ip : Ipv4) :
    ip ∈ f'.premises.pool.leases ↔
      ip ∈ f.premises.pool.leases ∧ f.sites[k]?.bind (·.starting) ≠ some ip := by
  have hdrive {j : Nat} {go : ProcessDriver → ProcessDriver × List ProcessDriver.Effect}
      (h : f.drive j go = some (f', effects)) : False := by
    obtain ⟨d, -, -, rfl⟩ := siteMove_of_drive h
    simp at he
  cases a with
  | beginStart j =>
    simp only [step] at h
    split at h
    · rename_i d hs
      split at h
      · cases h
        cases List.mem_singleton.1 he
        simp [hs]
      · cases h
        cases he
    · cases h
  | endStart j id refuses =>
    simp only [step] at h
    split at h
    · rename_i d address hs
      cases hspawn : d.spawn config refuses id address f.premises.files with
      | mk files result =>
        rw [ProcessDriver.endStart, hspawn] at h
        cases result with
        | error e' =>
          cases h
          cases List.mem_singleton.1 he
          refine o.proper.mem_release.trans (and_congr_right fun _ => not_congr ?_)
          rw [hs, Option.bind_some, Option.some.injEq]
          exact eq_comm
        | ok started =>
          cases h
          cases List.mem_singleton.1 he
    · cases h
  | release j id =>
    simp only [step] at h
    split at h
    · cases h
      cases List.mem_singleton.1 he
    · cases h
  | call | refuse | exit => exact (hdrive h).elim
  | create | write =>
    cases h
    cases he

theorem holds_concat {x : Happening ProcessFactory Action Effect}
    (h : f.Holds history k ip) (ha : f'.address? k = some ip)
    (hx : returned? x ≠ some (k, ip)) : f'.Holds (history ++ [x]) k ip := by
  refine ⟨ha, fun hk => ?_⟩
  rw [returns_snoc, List.mem_append, Option.mem_toList] at hk
  exact hk.elim h.2 hx

/-- Every leased address is held by a driver. -/
def Held (history : History) (f : ProcessFactory) : Prop :=
  ∀ ip ∈ f.premises.pool.leases, ∃ k, f.Holds history k ip

theorem Held.mono {history' : History} (hh : Held history f)
    (hl : ∀ ip ∈ f'.premises.pool.leases, ip ∈ f.premises.pool.leases)
    (hk : ∀ k, ∀ ip ∈ f'.premises.pool.leases, f.Holds history k ip → f'.Holds history' k ip) :
    Held history' f' := by
  intro ip hip
  obtain ⟨k, hholds⟩ := hh ip (hl ip hip)
  exact ⟨k, hk k ip hip hholds⟩

theorem address?_setSite_of_ne {site site' : ProcessSite} {premises : Premises} {j : Nat}
    (hs : f.sites[k]? = some site) (hne : k ≠ j) :
    ({ f with premises }.setSite k site').address? j = f.address? j := by
  rw [address?_setSite (by simp [hs]), if_neg hne]
  rfl

theorem address?_setSite_of_eq {site site' : ProcessSite} {premises : Premises} {j : Nat}
    (hs : f.sites[k]? = some site) (he : site'.address? = site.address?) :
    ({ f with premises }.setSite k site').address? j = f.address? j := by
  rw [address?_setSite (by simp [hs])]
  split
  · rename_i hkj
    subst hkj
    exact he.trans (address?_of_site hs).symm
  · rfl

theorem Held.begun {d : ProcessDriver} {pool : AddressPool} (hh : Held history f)
    (o : Orderly history f) (hs : f.sites[k]? = some ⟨d, none⟩) (hd : d.process = none)
    (ha : f.premises.pool.allocate = .ok (other, pool)) :
    Held (history ++ [⟨f, .beginStart k, effects⟩])
      ({ f with premises.pool := pool }.setSite k ⟨d, some other⟩) := by
  have hsame : returned? ⟨f, .beginStart k, effects⟩ = none := returned?_eq_none (by simp)
  intro ip hip
  obtain ⟨-, hpool⟩ := AddressPool.allocate_eq_ok_iff.1 ha
  obtain rfl | hip : ip = other ∨ ip ∈ f.premises.pool.leases := by
    simpa [hpool, setSite] using hip
  · refine ⟨k, by rw [address?_setSite (by simp [hs]), if_pos rfl]; rfl, fun hk => ?_⟩
    -- A driver that had given an address back before would have had a process.
    rw [returns_snoc, hsame, Option.toList_none, List.append_nil] at hk
    obtain ⟨site, hs', -, hreturned⟩ := o.gone k ip hk
    cases hs.symm.trans hs'
    simp [ProcessDriver.returned?, hd] at hreturned
  · obtain ⟨j, hj⟩ := hh ip hip
    have hne : k ≠ j := by
      rintro rfl
      have hnone := hj.1
      simp [address?_of_site hs, ProcessSite.address?, hd] at hnone
    exact ⟨j, holds_concat hj ((address?_setSite_of_ne hs hne).trans hj.1) (by simp [hsame])⟩

theorem Held.released {d : ProcessDriver} {premises : Premises} {id : String}
    (hh : Held history f) (o : Orderly history f) (hs : f.sites[k]? = some ⟨d, none⟩)
    (hp : premises.pool = match d.returned? with
      | some ip => (f.premises.pool.release ip).2
      | none => f.premises.pool) :
    Held (history ++ [⟨f, .release k id, effects⟩]) { f with premises } := by
  have hkept {ip : Ipv4} (hip : ip ∈ premises.pool.leases) :
      ip ∈ f.premises.pool.leases ∧ d.returned? ≠ some ip := by
    rw [hp] at hip
    split at hip
    · rename_i other hother
      obtain ⟨hip, hne⟩ := o.proper.mem_release.1 hip
      exact ⟨hip, fun h => hne (Option.some.inj (h.symm.trans hother))⟩
    · rename_i hnone
      exact ⟨hip, by simp [hnone]⟩
  refine hh.mono (fun ip hip => (hkept hip).1) fun j ip hip hj => ?_
  refine holds_concat hj hj.1 fun hback => (hkept hip).2 ?_
  simp only [returned?, hs, Option.bind_some, Option.map_eq_some_iff, Prod.mk.injEq] at hback
  obtain ⟨other, hother, -, rfl⟩ := hback
  exact hother

theorem held_move (hh : Held history f) (o : Orderly history f) (h : Move f a f') :
    Held (history ++ [⟨f, a, effects⟩]) f' := by
  have hkeep (hr : ∀ k id, a ≠ .release k id) {k : Nat} {ip : Ipv4} (hk : f.Holds history k ip)
      (ha : f'.address? k = f.address? k) : f'.Holds (history ++ [⟨f, a, effects⟩]) k ip :=
    holds_concat hk (ha.trans hk.1) (by simp [returned?_eq_none hr])
  cases h with
  | created jail d hd =>
    refine hh.mono (fun _ hip => hip) fun k ip _ hk => hkeep (by simp) hk ?_
    obtain ⟨site, hs, -⟩ := Option.bind_eq_some_iff.1 hk.1
    have hsite := getElem?_concat_eq_some (x := (⟨d, none⟩ : ProcessSite)).2 (.inl hs)
    exact (address?_of_site hsite).trans (address?_of_site hs).symm
  | begun k d other pool hs hd ha => exact hh.begun o hs hd ha
  | notBegun k | written files =>
    exact hh.mono (fun _ hip => hip) fun k ip _ hk => hkeep (by simp) hk rfl
  | failed k id refuses d other files hs =>
    refine hh.mono (fun ip hip => (o.proper.mem_release.1 hip).1) fun j ip hip hj => ?_
    refine hkeep (by simp) hj (address?_setSite_of_ne hs ?_)
    rintro rfl
    have heq := hj.1
    simp only [address?_of_site hs, ProcessSite.address?] at heq
    exact (o.proper.mem_release.1 hip).2 (Option.some.inj heq).symm
  | started k id refuses d other files hs =>
    exact hh.mono (fun _ hip => hip) fun j ip _ hj =>
      hkeep (by simp) hj (address?_setSite_of_eq hs rfl)
  | driven k a d d' hs hd hr =>
    refine hh.mono (fun _ hip => hip) fun j ip _ hj =>
      hkeep hr hj (address?_setSite_of_eq hs ?_)
    simp only [ProcessSite.address?, hd.address]
  | released k id d premises hs hp => exact hh.released o hs hp

theorem held_of_run (run : Run (step config) (new config files) history f) : Held history f := by
  refine (run.invariant (P := fun history f => Orderly history f ∧ Held history f)
    ⟨orderly_new, nofun⟩ ?_).2
  rintro history f a f' effects ⟨o, hh⟩ h
  exact ⟨orderly_move o (move_of_step h), held_move hh o (move_of_step h)⟩

end ProcessFactory

end MachineFleet
