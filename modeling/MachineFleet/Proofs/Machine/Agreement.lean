import MachineFleet.Proofs.Machine.Answering

/-!
A fleet of processes in the course of a run: each controller agrees with its driver, whatever
happens at the others, and is never held up by it once the process has exited.
-/
namespace MachineFleet.ProcessFleet

open ProcessFactory (SiteMove effectsAt givenBack)

structure Agreed (config : MachineConfig) (files : Files.Tree) (s : ProcessFleet) : Prop where
  run : Run (ProcessFactory.step config) (.new config files) s.past s.factory
  size : s.controllers.length = s.factory.sites.length
  attended (k : Nat) (c : Controller) (site : ProcessSite) : s.controllers[k]? = some c →
    s.factory.sites[k]? = some site → Attended c site (effectsAt s.past k) (givenBack s.past k)

def didAt (s : ProcessFleet) (x : ProcessFactory.Action) (f : ProcessFactory)
    (effects : List ProcessFactory.Effect) : ProcessFleet :=
  { s with factory := f, past := s.past ++ [⟨s.factory, x, effects⟩] }

section Steps

variable {config : MachineConfig} {files : Files.Tree} {s s' : ProcessFleet} {k : Nat}
  {c c' : Controller} {x : ProcessFactory.Action} {f : ProcessFactory}
  {told : List ProcessFactory.Effect} {history : ProcessFactory.History}

theorem atFactory_nil : s.atFactory config [] = some s := by
  simp [atFactory, replay]

theorem atFactory_singleton :
    s.atFactory config [x] =
      (ProcessFactory.step config s.factory x).map fun (f, told) => s.didAt x f told := by
  cases h : ProcessFactory.step config s.factory x with
  | none => simp [atFactory, replay, h]
  | some done => simp [atFactory, replay, h, didAt]

theorem exists_of_atFactory (h : s.atFactory config [x] = some s') :
    ∃ f told, ProcessFactory.step config s.factory x = some (f, told) ∧ s' = s.didAt x f told := by
  rw [atFactory_singleton, Option.map_eq_some_iff] at h
  obtain ⟨⟨f, told⟩, hx, rfl⟩ := h
  exact ⟨f, told, hx, rfl⟩

theorem nothing_before_create (run : Run (ProcessFactory.step config) (.new config files) history f)
    (hk : f.sites.length ≤ k) : effectsAt history k = [] ∧ givenBack history k = [] := by
  induction run with
  | nil => exact ⟨rfl, rfl⟩
  | @snoc history f f' a effects run h ih =>
    by_cases ha : a.driver? = some k
    · obtain ⟨site, site', back, hs, hs', -, -⟩ := ProcessFactory.isMoveAt_of_step h ha
      have hlt : k < f.sites.length := (List.getElem?_eq_some_iff.1 hs).1
      rw [hs', List.length_set] at hk
      omega
    · obtain ⟨hkeep, hnone, hback⟩ := ProcessFactory.elsewhere_of_step h ha
      have hle : f.sites.length ≤ k := by
        by_contra hlt
        have hsome := hkeep _ (List.getElem?_eq_getElem (Nat.lt_of_not_le hlt))
        rw [List.getElem?_eq_none hk] at hsome
        cases hsome
      obtain ⟨heffects, hgiven⟩ := ih hle
      rw [ProcessFactory.effectsAt_concat, hnone, hback, heffects, hgiven]
      exact ⟨rfl, rfl⟩

theorem Agreed.exists_site (h : Agreed config files s) (hc : s.controllers[k]? = some c) :
    ∃ site, s.factory.sites[k]? = some site := by
  have hlt : k < s.controllers.length := (List.getElem?_eq_some_iff.1 hc).1
  exact ⟨_, List.getElem?_eq_getElem (h.size ▸ hlt)⟩

theorem Agreed.exists_controller {site : ProcessSite} (h : Agreed config files s)
    (hs : s.factory.sites[k]? = some site) : ∃ c, s.controllers[k]? = some c := by
  have hlt : k < s.factory.sites.length := (List.getElem?_eq_some_iff.1 hs).1
  exact ⟨_, List.getElem?_eq_getElem (h.size.symm ▸ hlt)⟩

theorem setController_self (hc : s.controllers[k]? = some c) : s.setController k c = s := by
  obtain ⟨hlt, rfl⟩ := List.getElem?_eq_some_iff.1 hc
  unfold setController
  rw [List.set_getElem_self]

theorem Agreed.setController (h : Agreed config files s)
    (hl : ∀ site, s.factory.sites[k]? = some site →
      Attended c' site (effectsAt s.past k) (givenBack s.past k)) :
    Agreed config files (s.setController k c') where
  run := h.run
  size := List.length_set.trans h.size
  attended j other site hj hs := by
    rcases getElem?_set_eq_some hj with ⟨rfl, rfl⟩ | ⟨-, hj⟩
    · exact hl site hs
    · exact h.attended j other site hj hs

/-- What is done elsewhere adds nothing to what is known of a driver. -/
theorem didAt_elsewhere (hx : ProcessFactory.step config s.factory x = some (f, told))
    (hk : x.driver? ≠ some k) : effectsAt (s.didAt x f told).past k = effectsAt s.past k ∧
      givenBack (s.didAt x f told).past k = givenBack s.past k := by
  obtain ⟨-, hnone, hsame⟩ := ProcessFactory.elsewhere_of_step hx hk
  refine ⟨?_, hsame s.past⟩
  rw [didAt, ProcessFactory.effectsAt_concat, hnone, List.append_nil]

theorem Agreed.atDriver (h : Agreed config files s)
    (hx : ProcessFactory.step config s.factory x = some (f, told)) (hk : x.driver? = some k)
    (hl : ∀ site site' back, s.factory.sites[k]? = some site → SiteMove k x site site' told back →
      Attended c' site' (effectsAt s.past k ++ told) (givenBack s.past k ++ back)) :
    Agreed config files ((s.didAt x f told).setController k c') := by
  obtain ⟨before, after, back, hs, hs', hm, hback⟩ := ProcessFactory.isMoveAt_of_step hx hk
  refine ⟨h.run.snoc hx, ?_, fun j other site hj hsite => ?_⟩
  · show (s.controllers.set k c').length = f.sites.length
    rw [List.length_set, hs', List.length_set, h.size]
  · change f.sites[j]? = some site at hsite
    rw [hs'] at hsite
    rcases getElem?_set_eq_some hj with ⟨rfl, rfl⟩ | ⟨hkj, hj⟩
    · show Attended c' site (effectsAt (s.past ++ [_]) k) (givenBack (s.past ++ [_]) k)
      rw [ProcessFactory.effectsAt_concat, ProcessFactory.filter_of_siteMove hm, hback]
      rcases getElem?_set_eq_some hsite with ⟨-, rfl⟩ | ⟨hne, -⟩
      · exact hl before after back hs hm
      · exact absurd rfl hne
    · -- Nothing has happened at the drivers of the other controllers.
      rw [List.getElem?_set_ne hkj] at hsite
      have hne : x.driver? ≠ some j := fun hj => hkj (Option.some.inj (hk.symm.trans hj))
      obtain ⟨heffects, hgiven⟩ := didAt_elsewhere hx hne
      show Attended other site (effectsAt (s.didAt x f told).past j)
        (givenBack (s.didAt x f told).past j)
      rw [heffects, hgiven]
      exact h.attended j other site hj hsite

theorem Agreed.unasked (h : Agreed config files s) (hc : s.controllers[k]? = some c)
    (hx : ProcessFactory.step config s.factory x = some (f, told)) (hk : x.driver? = some k)
    (hu : Unasked k c x) : Agreed config files (s.didAt x f told) := by
  have hnext := h.atDriver hx hk fun site site' back hs hm =>
    (h.attended k c site hc hs).unasked hu hm
  rwa [setController_self (s := s.didAt x f told) hc] at hnext

theorem Agreed.create (h : Agreed config files s) (jail : String) (probe : ProbeConfig)
    (timeout : Duration)
    (hx : ProcessFactory.step config s.factory (.create jail) = some (f, told)) :
    Agreed config files
      { s.didAt (.create jail) f told with
        controllers := s.controllers ++ [.new probe timeout] } := by
  have hsites : f.sites = s.factory.sites ++ [⟨.new config jail, none⟩] := by
    cases hx
    rfl
  refine ⟨h.run.snoc hx, ?_, fun j c site hj hsite => ?_⟩
  · simp [didAt, hsites, h.size]
  · obtain ⟨heffects, hgiven⟩ := didAt_elsewhere (k := j) hx nofun
    show Attended c site (effectsAt (s.didAt _ f told).past j) (givenBack (s.didAt _ f told).past j)
    rw [heffects, hgiven]
    change f.sites[j]? = some site at hsite
    rw [hsites] at hsite
    rcases getElem?_concat_eq_some.1 hj with hj | ⟨rfl, rfl⟩
    · rcases getElem?_concat_eq_some.1 hsite with hsite | ⟨rfl, -⟩
      · exact h.attended j c site hj hsite
      · have hlt := (List.getElem?_eq_some_iff.1 hj).1
        rw [h.size] at hlt
        exact absurd hlt (Nat.lt_irrefl _)
    · rw [h.size, List.getElem?_concat_length] at hsite
      cases hsite
      -- The new controller and its driver have the same number, which is new to the factory.
      obtain ⟨heffects, hgiven⟩ := nothing_before_create h.run (Nat.le_of_eq h.size.symm)
      rw [heffects, hgiven]
      exact attended_new probe timeout _ rfl

theorem Agreed.write (h : Agreed config files s) (tree : Files.Tree)
    (hx : ProcessFactory.step config s.factory (.write tree) = some (f, told)) :
    Agreed config files (s.didAt (.write tree) f told) := by
  have hsites : f.sites = s.factory.sites := by
    cases hx
    rfl
  refine ⟨h.run.snoc hx, ?_, fun j c site hj hsite => ?_⟩
  · simp [didAt, hsites, h.size]
  · obtain ⟨heffects, hgiven⟩ := didAt_elsewhere (k := j) hx nofun
    rw [heffects, hgiven]
    exact h.attended j c site hj (hsites ▸ hsite)

variable {surroundings : Controller.Surroundings} {a : Controller.Action}
  {effects : List (Nat × Controller.Effect)} {i : Input}

theorem Agreed.atController (h : Agreed config files s) (ha : Heard (effectsAt s.past k) a)
    (hstep : s.atController config k surroundings a = some (s', effects)) :
    Agreed config files s' := by
  simp only [ProcessFleet.atController, Option.bind_eq_bind, Option.bind_eq_some_iff,
    Prod.exists] at hstep
  obtain ⟨c, hc, c', made, hmove, t, ht, he⟩ := hstep
  cases he
  obtain ⟨site, hs⟩ := h.exists_site hc
  rcases (h.attended k c site hc hs).turn (Controller.move_of_step hmove) ha k with
    ⟨hnone, l⟩ | ⟨x, hone, hk, -, hl⟩
  · rw [hnone, atFactory_nil] at ht
    cases ht
    refine h.setController fun site' hs' => ?_
    cases hs.symm.trans hs'
    exact l
  · rw [hone] at ht
    obtain ⟨f, told, hx, rfl⟩ := exists_of_atFactory ht
    refine h.atDriver hx hk fun site₁ site₂ back hs₁ hm => ?_
    cases hs.symm.trans hs₁
    exact hl site₂ told back hm

theorem agreed_new : Agreed config files (new config files) where
  run := .nil
  size := rfl
  attended _ _ _ hc := by simp [new] at hc

theorem agreed_step (h : Agreed config files s) (hstep : step config s i = some (s', effects)) :
    Agreed config files s' := by
  have hat {x : ProcessFactory.Action}
      (ht : (s.atFactory config [x]).map (·, []) = some (s', effects)) :
      ∃ f told, ProcessFactory.step config s.factory x = some (f, told) ∧
        s' = s.didAt x f told := by
    obtain ⟨t, hdone, he⟩ := Option.map_eq_some_iff.1 ht
    cases he
    exact exists_of_atFactory hdone
  have hunasked {k : Nat} {x : ProcessFactory.Action} (hk : x.driver? = some k)
      (hu : ∀ c, Unasked k c x)
      (ht : (s.atFactory config [x]).map (·, []) = some (s', effects)) :
      Agreed config files s' := by
    obtain ⟨f, told, hx, rfl⟩ := hat ht
    obtain ⟨site, site', back, hs, -⟩ := ProcessFactory.isMoveAt_of_step hx hk
    obtain ⟨c, hc⟩ := h.exists_controller hs
    exact h.unasked hc hx hk (hu c)
  cases i with
  | create jail probe timeout =>
    simp only [step] at hstep
    obtain ⟨t, ht, he⟩ := Option.map_eq_some_iff.1 hstep
    obtain ⟨f, told, hx, rfl⟩ := exists_of_atFactory ht
    cases he
    exact h.create jail probe timeout hx
  | post k m =>
    simp only [step, Option.bind_eq_bind, Option.bind_eq_some_iff] at hstep
    obtain ⟨c, hc, hstep⟩ := hstep
    split at hstep
    · cases hstep
    · rename_i hm
      obtain ⟨c', hpost, he⟩ := Option.map_eq_some_iff.1 hstep
      cases he
      exact h.setController fun site hs =>
        (h.attended k c site hc hs).post hpost (by simpa using hm)
  | act k surroundings a =>
    simp only [step] at hstep
    split at hstep
    · cases hstep
    · rename_i ha
      exact h.atController (heard_of_not_news (by simpa using ha)) hstep
  | hear k surroundings call =>
    simp only [step, Option.bind_eq_bind, Option.bind_eq_some_iff] at hstep
    obtain ⟨site, hs, a, ha, hstep⟩ := hstep
    exact h.atController (heard_of_news ha) hstep
  | watch k =>
    simp only [step, Option.bind_eq_bind, Option.bind_eq_some_iff] at hstep
    obtain ⟨c, hc, hstep⟩ := hstep
    split at hstep
    · rename_i hw
      obtain ⟨f, told, hx, rfl⟩ := hat hstep
      exact h.unasked hc hx rfl (.watch hw)
    · cases hstep
  | endStart k id refuses => exact hunasked rfl (fun _ => .endStart id refuses) hstep
  | refuseShutdown k failure => exact hunasked rfl (fun _ => .refuse failure) hstep
  | exit k exit => exact hunasked rfl (fun _ => .exit exit) hstep
  | write tree =>
    simp only [step] at hstep
    obtain ⟨f, told, hx, rfl⟩ := hat hstep
    exact h.write tree hx

theorem exists_step_of_demand (config : MachineConfig) {d : ProcessDriver}
    {e : Controller.Effect} (hs : f.sites[k]? = some ⟨d, none⟩) (hx : demand? k e = some x) :
    ∃ f' told, ProcessFactory.step config f x = some (f', told) := by
  unfold demand? at hx
  split at hx
  · cases hx
    simp only [ProcessFactory.step, hs]
    split
    · exact ⟨_, _, rfl⟩
    · exact ⟨_, _, rfl⟩
  · cases hx
    exact ⟨_, _, by rw [ProcessFactory.step, ProcessFactory.drive, hs]⟩
  · cases hx
    exact ⟨_, _, by rw [ProcessFactory.step, ProcessFactory.drive, hs]⟩
  · cases hx
    exact ⟨_, _, by rw [ProcessFactory.step, hs]⟩
  · cases hx

/-- A controller is never held up by its driver. -/
theorem Agreed.exists_atController {made : List Controller.Effect} (h : Agreed config files s)
    (hc : s.controllers[k]? = some c) (ha : Heard (effectsAt s.past k) a)
    (hmove : c.step surroundings a = some (c', made)) :
    ∃ s', s.atController config k surroundings a = some (s', made.map (k, ·)) ∧
      s'.controllers[k]? = some c' := by
  obtain ⟨site, hs⟩ := h.exists_site hc
  have hlt : k < s.controllers.length := (List.getElem?_eq_some_iff.1 hc).1
  have hset (t : ProcessFleet) (ht : t.controllers = s.controllers) :
      (t.setController k c').controllers[k]? = some c' := by
    simp [ProcessFleet.setController, ht, hlt]
  rcases (h.attended k c site hc hs).turn (Controller.move_of_step hmove) ha k with
    ⟨hnone, -⟩ | ⟨x, hone, -, hstarting, -⟩
  · exact ⟨_, by simp [ProcessFleet.atController, hc, hmove, hnone, atFactory_nil], hset s rfl⟩
  · obtain ⟨e, -, hx⟩ := List.mem_filterMap.1 (hone ▸ List.mem_singleton_self x)
    obtain ⟨d, starting⟩ := site
    obtain rfl : starting = none := hstarting
    obtain ⟨f, told, hstep⟩ := exists_step_of_demand config hs hx
    exact ⟨_, by
      simp [ProcessFleet.atController, hc, hmove, hone, atFactory_singleton, hstep],
      hset (s.didAt x f told) rfl⟩

def Input.IsOwn (k : Nat) (surroundings : Controller.Surroundings) (i : Input) : Prop :=
  (∃ a, i = .act k surroundings a) ∨ ∃ call, i = .hear k surroundings call

/-- Once its process has exited, a controller that tears its machine down can go on. -/
theorem Agreed.can_go_on {site : ProcessSite} (h : Agreed config files s)
    (hc : s.controllers[k]? = some c) (hs : s.factory.sites[k]? = some site)
    (hexit : HasExited site) (hr : 3 ≤ c.phase.rank ∧ c.phase.rank ≤ 6)
    (surroundings : Controller.Surroundings) :
    ∃ i s' effects c', Input.IsOwn k surroundings i ∧ step config s i = some (s', effects) ∧
      s'.controllers[k]? = some c' ∧ c.phase.rank < c'.phase.rank := by
  cases hw : awaited? c.phase with
  | none =>
    obtain ⟨a, c', made, ha, hmove, hlt⟩ := step_of_no_call hr hw surroundings
    obtain ⟨s', hstep, hc'⟩ := h.exists_atController hc (heard_of_not_news ha) hmove
    exact ⟨.act k surroundings a, s', _, c', .inl ⟨a, rfl⟩, by simpa [step, ha] using hstep, hc',
      hlt⟩
  | some call =>
    obtain ⟨a, ha⟩ := (h.attended k c site hc hs).news hexit hw site.driver.jailRoot
    obtain ⟨c', made, hmove, hlt⟩ := step_of_news hw ha surroundings
    obtain ⟨s', hstep, hc'⟩ := h.exists_atController hc (heard_of_news ha) hmove
    exact ⟨.hear k surroundings call, s', _, c', .inr ⟨call, rfl⟩,
      by simpa [step, hs, ha] using hstep, hc', hlt⟩

end Steps

theorem agreed_of_run {config : MachineConfig} {files : Files.Tree} {s : ProcessFleet}
    {history : List (Happening ProcessFleet Input (Nat × Controller.Effect))}
    (run : Run (step config) (new config files) history s) : Agreed config files s :=
  run.invariant (P := fun _ s => Agreed config files s) agreed_new
    fun _ _ _ _ _ h hstep => agreed_step h hstep

end MachineFleet.ProcessFleet
