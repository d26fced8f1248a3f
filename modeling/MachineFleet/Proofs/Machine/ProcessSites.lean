import MachineFleet.Proofs.Machine.ProcessFactory

namespace MachineFleet

namespace ProcessDriver

variable {d : ProcessDriver} {p : Process} {n : Nat} {c : ExitCall} {result : Except Error Unit}

theorem call_cases (hp : d.process = some p) :
    (∃ p', (d.call n c).1.process = some p' ∧ p'.address = p.address ∧ p'.exit = p.exit) ∧
      ∀ m result, .answer m result ∈ (d.call n c).2 → p.exit.isSome = true := by
  unfold call
  rw [hp]
  dsimp only
  split
  · rename_i exit he
    exact ⟨⟨_, rfl, rfl, rfl⟩, fun _ _ _ => by rw [he]; rfl⟩
  · refine ⟨⟨_, rfl, rfl, rfl⟩, fun m result hm => ?_⟩
    cases c with
    | wait => cases hm
    | shutdown => simp at hm
    | kill =>
      dsimp only at hm
      split at hm <;> simp at hm

theorem refuse_cases (n : Nat) (failure : Error) (d : ProcessDriver) :
    (d.process = none ∧ d.refuse n failure = (d, [])) ∨
      (∃ p p', d.process = some p ∧ (d.refuse n failure).1.process = some p' ∧
        p'.address = p.address ∧ p'.exit = p.exit) ∧
      ∀ m result, .answer m result ∈ (d.refuse n failure).2 → m = n ∧ result = .error failure := by
  unfold refuse
  cases hp : d.process with
  | none => exact .inl ⟨rfl, rfl⟩
  | some p =>
    dsimp only
    split
    · exact .inr ⟨⟨p, _, rfl, rfl, rfl, rfl⟩, fun m result hm => by simpa using hm⟩
    · exact .inr ⟨⟨p, p, rfl, hp, rfl, rfl⟩, nofun⟩

theorem machine_of_spawn {config : MachineConfig}
    {refuses : Files.Tree → Launch → Option Files.Failure} {id : String} {address : Ipv4}
    {files files' : Files.Tree} {started : Started}
    (h : d.spawn config refuses id address files = (files', .ok started)) :
    started.machine = ⟨id, .v4 address⟩ := by
  unfold spawn at h
  dsimp only at h
  split at h
  · cases h
  · split at h
    · cases h
    · split at h
      · cases h
        rfl
      · cases h
        rfl

theorem recordExit_cases (exit : MachineExit) (d : ProcessDriver) :
    (d.process = none ∧ d.recordExit exit = (d, [])) ∨
      ∃ p p', d.process = some p ∧ (d.recordExit exit).1.process = some p' ∧
        p'.address = p.address ∧ p'.exit.isSome = true := by
  unfold recordExit
  cases hp : d.process with
  | none => exact .inl ⟨rfl, rfl⟩
  | some p =>
    dsimp only
    split
    · exact .inr ⟨p, p, rfl, hp, rfl, ‹_›⟩
    · exact .inr ⟨p, _, rfl, rfl, rfl, rfl⟩

end ProcessDriver

namespace ProcessFactory

def Action.driver? : Action → Option Nat
  | .beginStart k | .endStart k .. | .call k .. | .refuse k .. | .exit k _ | .release k _ => some k
  | .create _ | .write _ => none

def Effect.source : Effect → Nat
  | .started k _ | .driver k _ | .released k _ => k

abbrev History := List (Happening ProcessFactory Action Effect)

def effectsAt (history : History) (k : Nat) : List Effect :=
  (history.flatMap (·.effects)).filter (·.source == k)

def givenBack (history : History) (k : Nat) : List Ipv4 :=
  (returns history).filterMap fun r => if r.1 = k then some r.2 else none

/-- What an action does at a driver: the site after it, its effects and what it gives back. -/
inductive SiteMove (k : Nat) : Action → ProcessSite → ProcessSite → List Effect → List Ipv4 → Prop
  where
  | begun (d : ProcessDriver) (ip : Ipv4) (hd : d.process = none) :
      SiteMove k (.beginStart k) ⟨d, none⟩ ⟨d, some ip⟩ [] []
  | notBegun (d : ProcessDriver) (e : Error) :
      SiteMove k (.beginStart k) ⟨d, none⟩ ⟨d, none⟩ [.started k (.error e)] []
  | failed (id : String) (refuses : Files.Tree → Launch → Option Files.Failure)
      (d : ProcessDriver) (ip : Ipv4) (e : Error) :
      SiteMove k (.endStart k id refuses) ⟨d, some ip⟩ ⟨d, none⟩ [.started k (.error e)] []
  | started (id : String) (refuses : Files.Tree → Launch → Option Files.Failure)
      (d : ProcessDriver) (ip : Ipv4) :
      SiteMove k (.endStart k id refuses) ⟨d, some ip⟩
        ⟨{ d with process := some ⟨ip, false, none, []⟩ }, none⟩
        [.started k (.ok ⟨id, .v4 ip⟩)] []
  | called (n : Nat) (c : ExitCall) (d : ProcessDriver) :
      SiteMove k (.call k n c) ⟨d, none⟩ ⟨(d.call n c).1, none⟩
        ((d.call n c).2.map (.driver k)) []
  | refused (n : Nat) (failure : Error) (d : ProcessDriver) :
      SiteMove k (.refuse k n failure) ⟨d, none⟩ ⟨(d.refuse n failure).1, none⟩
        ((d.refuse n failure).2.map (.driver k)) []
  | exited (exit : MachineExit) (d : ProcessDriver) :
      SiteMove k (.exit k exit) ⟨d, none⟩ ⟨(d.recordExit exit).1, none⟩
        ((d.recordExit exit).2.map (.driver k)) []
  | released (id : String) (d : ProcessDriver) (result : Except Error Unit) :
      SiteMove k (.release k id) ⟨d, none⟩ ⟨d, none⟩ [.released k result] d.returned?.toList

section Sites

variable {config : MachineConfig} {f f' : ProcessFactory} {a : Action} {effects : List Effect}
  {history : History} {k : Nat} {site site' : ProcessSite} {back : List Ipv4}

@[simp] theorem effectsAt_concat (history : History) (f : ProcessFactory) (a : Action)
    (effects : List Effect) (k : Nat) :
    effectsAt (history ++ [⟨f, a, effects⟩]) k =
      effectsAt history k ++ effects.filter (·.source == k) := by
  simp [effectsAt]

theorem givenBack_concat (x : Happening ProcessFactory Action Effect) (k : Nat) :
    givenBack (history ++ [x]) k = givenBack history k ++
      (returned? x).toList.filterMap fun r => if r.1 = k then some r.2 else none := by
  rw [givenBack, returns_snoc, List.filterMap_append, givenBack]

theorem count_givenBack (history : History) (k : Nat) (ip : Ipv4) :
    (givenBack history k).count ip = (returns history).count (k, ip) := by
  unfold givenBack
  induction returns history with
  | nil => rfl
  | cons r rest ih =>
    obtain ⟨j, other⟩ := r
    by_cases hj : j = k
    · simp [hj, List.count_cons, ih]
    · simp [hj, ih]

theorem filter_source_self (k : Nat) (l : List ProcessDriver.Effect) :
    (l.map (Effect.driver k)).filter (·.source == k) = l.map (.driver k) := by
  simp [Effect.source, List.filter_map, Function.comp_def]

theorem filter_of_siteMove (h : SiteMove k a site site' effects back) :
    effects.filter (·.source == k) = effects := by
  cases h with
  | called | refused | exited => exact filter_source_self ..
  | begun | notBegun | failed | started | released => simp [Effect.source]

theorem givenBack_eq (hr : ∀ j id, a ≠ .release j id) (history : History) (k : Nat) :
    givenBack (history ++ [⟨f, a, effects⟩]) k = givenBack history k := by
  rw [givenBack_concat, returned?_eq_none hr]
  simp

theorem siteMove_of_drive {go : ProcessDriver → ProcessDriver × List ProcessDriver.Effect}
    (h : f.drive k go = some (f', effects)) :
    ∃ d, f.sites[k]? = some ⟨d, none⟩ ∧ f'.sites = f.sites.set k ⟨(go d).1, none⟩ ∧
      effects = (go d).2.map (.driver k) := by
  unfold drive at h
  split at h
  · rename_i d hs
    cases h
    exact ⟨d, hs, rfl, rfl⟩
  · cases h

/-- A step is a move at the site of a driver, and changes no other site. -/
def IsMoveAt (k : Nat) (f : ProcessFactory) (a : Action) (f' : ProcessFactory)
    (effects : List Effect) : Prop :=
  ∃ site site' back, f.sites[k]? = some site ∧ f'.sites = f.sites.set k site' ∧
    SiteMove k a site site' effects back ∧
    ∀ history, givenBack (history ++ [⟨f, a, effects⟩]) k = givenBack history k ++ back

theorem SiteMove.isMoveAt (hm : SiteMove k a site site' effects []) (hs : f.sites[k]? = some site)
    (hs' : f'.sites = f.sites.set k site') (hr : ∀ j id, a ≠ .release j id) :
    IsMoveAt k f a f' effects := by
  refine ⟨site, site', [], hs, hs', hm, fun history => ?_⟩
  rw [givenBack_eq hr, List.append_nil]

theorem set_sites_self (hs : f.sites[k]? = some site) : f.sites = f.sites.set k site := by
  obtain ⟨hlt, rfl⟩ := List.getElem?_eq_some_iff.1 hs
  exact (List.set_getElem_self hlt).symm

theorem isMoveAt_beginStart (h : step config f (.beginStart k) = some (f', effects)) :
    IsMoveAt k f (.beginStart k) f' effects := by
  simp only [step] at h
  split at h
  · rename_i d hs
    split at h
    · cases h
      exact (SiteMove.notBegun d _).isMoveAt hs (set_sites_self hs) (by simp)
    · rename_i ip pool hb
      cases h
      unfold ProcessDriver.beginStart at hb
      split at hb
      · cases hb
      · rename_i hd
        exact (SiteMove.begun d ip (by simpa using hd)).isMoveAt hs rfl (by simp)
  · cases h

theorem isMoveAt_endStart {id : String} {refuses : Files.Tree → Launch → Option Files.Failure}
    (h : step config f (.endStart k id refuses) = some (f', effects)) :
    IsMoveAt k f (.endStart k id refuses) f' effects := by
  simp only [step] at h
  split at h
  · rename_i d ip hs
    cases hspawn : d.spawn config refuses id ip f.premises.files with
    | mk files result =>
      rw [ProcessDriver.endStart, hspawn] at h
      cases result with
      | error e =>
        cases h
        exact (SiteMove.failed id refuses d ip e).isMoveAt hs rfl (by simp)
      | ok started =>
        cases h
        have hmachine := ProcessDriver.machine_of_spawn hspawn
        have hmove := SiteMove.started (k := k) id refuses d ip
        rw [← hmachine] at hmove
        exact hmove.isMoveAt hs rfl (by simp)
  · cases h

theorem isMoveAt_release {id : String} (h : step config f (.release k id) = some (f', effects)) :
    IsMoveAt k f (.release k id) f' effects := by
  simp only [step] at h
  split at h
  · rename_i d hs
    cases h
    refine ⟨_, _, _, hs, set_sites_self hs, .released id d _, fun history => ?_⟩
    rw [givenBack_concat]
    simp only [returned?, hs, Option.bind_some]
    cases d.returned? <;> simp
  · cases h

theorem isMoveAt_of_step (h : step config f a = some (f', effects)) (hk : a.driver? = some k) :
    IsMoveAt k f a f' effects := by
  cases a with
  | beginStart j =>
    obtain rfl : j = k := Option.some.inj hk
    exact isMoveAt_beginStart h
  | endStart j id refuses =>
    obtain rfl : j = k := Option.some.inj hk
    exact isMoveAt_endStart h
  | call j n c =>
    obtain rfl : j = k := Option.some.inj hk
    obtain ⟨d, hs, hs', rfl⟩ := siteMove_of_drive h
    exact (SiteMove.called n c d).isMoveAt hs hs' (by simp)
  | refuse j n failure =>
    obtain rfl : j = k := Option.some.inj hk
    obtain ⟨d, hs, hs', rfl⟩ := siteMove_of_drive h
    exact (SiteMove.refused n failure d).isMoveAt hs hs' (by simp)
  | exit j exit =>
    obtain rfl : j = k := Option.some.inj hk
    obtain ⟨d, hs, hs', rfl⟩ := siteMove_of_drive h
    exact (SiteMove.exited exit d).isMoveAt hs hs' (by simp)
  | release j id =>
    obtain rfl : j = k := Option.some.inj hk
    exact isMoveAt_release h
  | create jail => cases hk
  | write files => cases hk

theorem source_of_siteMove {e : Effect} (h : SiteMove k a site site' effects back)
    (he : e ∈ effects) : e.source = k := by
  have hall := List.filter_eq_self.1 (filter_of_siteMove h) e he
  simpa using hall

theorem driver?_of_returned? {j : Nat} {ip : Ipv4} (h : returned? ⟨f, a, effects⟩ = some (j, ip)) :
    a.driver? = some j := by
  unfold returned? at h
  split at h
  · rename_i i id ha
    obtain rfl : a = .release i id := ha
    obtain ⟨other, -, he⟩ := Option.map_eq_some_iff.1 h
    cases he
    rfl
  · cases h

/-- A step about another driver, or about none, leaves a driver as it is. -/
theorem elsewhere_of_step (h : step config f a = some (f', effects)) (hk : a.driver? ≠ some k) :
    (∀ site, f.sites[k]? = some site → f'.sites[k]? = some site) ∧
      effects.filter (·.source == k) = [] ∧
        ∀ history, givenBack (history ++ [⟨f, a, effects⟩]) k = givenBack history k := by
  have hback (history : History) :
      givenBack (history ++ [⟨f, a, effects⟩]) k = givenBack history k := by
    rw [givenBack_concat]
    cases hr : returned? ⟨f, a, effects⟩ with
    | none => simp
    | some r =>
      have hne : r.1 ≠ k := fun he => hk ((driver?_of_returned? hr).trans (congrArg some he))
      simp [hne]
  cases ha : a.driver? with
  | none =>
    cases a with
    | create jail =>
      cases h
      exact ⟨fun site hs => getElem?_concat_eq_some.2 (.inl hs), rfl, hback⟩
    | write files =>
      cases h
      exact ⟨fun site hs => hs, rfl, hback⟩
    | _ => cases ha
  | some j =>
    have hjk : j ≠ k := fun h => hk (ha.trans (congrArg some h))
    obtain ⟨site, site', back, hs, hs', hm, -⟩ := isMoveAt_of_step h ha
    refine ⟨fun other ho => ?_, List.filter_eq_nil_iff.2 fun e he hsource => ?_, hback⟩
    · rw [hs', List.getElem?_set_ne hjk]
      exact ho
    · exact hjk ((source_of_siteMove hm he).symm.trans (by simpa using hsource))

end Sites

end ProcessFactory

end MachineFleet
