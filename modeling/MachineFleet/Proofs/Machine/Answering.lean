import MachineFleet.Proofs.Machine.Custody

namespace MachineFleet

namespace ProcessDriver

def Awaits (d : ProcessDriver) (n : Nat) : Prop :=
  ∃ p, d.process = some p ∧ p.exit = none ∧ ∃ c, (n, c) ∈ p.waiting

variable {d : ProcessDriver} {m n : Nat} {c : ExitCall}

theorem awaits_or_answered (n : Nat) (c : ExitCall) (d : ProcessDriver) :
    (d.call n c).1.Awaits n ∨ ∃ result, .answer n result ∈ (d.call n c).2 := by
  unfold call
  cases hp : d.process with
  | none => exact .inr ⟨_, List.mem_singleton_self _⟩
  | some p =>
    dsimp only
    split
    · exact .inr ⟨_, List.mem_singleton_self _⟩
    · exact .inl ⟨_, rfl, ‹_›, c, by simp⟩

theorem Awaits.call (h : d.Awaits m) (n : Nat) (c : ExitCall) : (d.call n c).1.Awaits m := by
  obtain ⟨p, hp, he, c', hm⟩ := h
  unfold ProcessDriver.call
  rw [hp]
  dsimp only
  rw [he]
  exact ⟨_, rfl, rfl, c', List.mem_append_left _ hm⟩

theorem Awaits.refuse (h : d.Awaits m) (n : Nat) (failure : Error) :
    (d.refuse n failure).1.Awaits m ∨ .answer m (.error failure) ∈ (d.refuse n failure).2 := by
  obtain ⟨p, hp, he, c, hm⟩ := h
  unfold ProcessDriver.refuse
  rw [hp]
  dsimp only
  split
  · by_cases hmn : m = n
    · exact .inr (by simp [hmn])
    · exact .inl ⟨_, rfl, he, c, by simp [hm, hmn]⟩
  · exact .inl ⟨p, hp, he, c, hm⟩

theorem Awaits.recordExit (h : d.Awaits m) (exit : MachineExit) :
    ∃ result, .answer m result ∈ (d.recordExit exit).2 := by
  obtain ⟨p, hp, he, c, hm⟩ := h
  unfold ProcessDriver.recordExit
  rw [hp]
  dsimp only
  rw [he]
  exact ⟨_, List.mem_map.2 ⟨(m, c), hm, rfl⟩⟩

end ProcessDriver

namespace ProcessFleet

open ProcessFactory (SiteMove)

def awaited? : Controller.Phase → Option Call
  | .shuttingDown .. => some .shutdown
  | .killing _ => some .kill
  | .releasing _ => some .release
  | _ => none

/-- The call is answered, or will be when the process exits. -/
def Served (site : ProcessSite) (told : List ProcessFactory.Effect) : Call → Prop
  | .shutdown => answers told (number .shutdown) ≠ [] ∨ site.driver.Awaits (number .shutdown)
  | .kill => answers told (number .kill) ≠ [] ∨ site.driver.Awaits (number .kill)
  | .release => releases told ≠ []
  | _ => True

def Asks (k : Nat) : Call → ProcessFactory.Action → Prop
  | .shutdown, x => x = .call k (number .shutdown) .shutdown
  | .kill, x => x = .call k (number .kill) .kill
  | .release, x => ∃ id, x = .release k id
  | _, _ => False

section Controller

open Controller

variable {s : Controller.Surroundings} {c c' : Controller} {a : Controller.Action}
  {effects : List Controller.Effect} {k : Nat} {call : Call}

theorem awaited?_setProbe (c : Controller) (p : Probe) :
    awaited? (c.setProbe p).phase = awaited? c.phase := by
  unfold Controller.setProbe
  split <;> simp [awaited?, *]

theorem awaited_move (h : Move s c a c' effects) (hw : awaited? c'.phase = some call) :
    awaited? c.phase = some call ∨ ∃ x, effects.filterMap (demand? k) = [x] ∧ Asks k call x := by
  cases h with
  | takeStop | takeRetire | letGo | startUnwanted | shutdownFailed | shutdownExpired =>
    cases hw
    exact .inr ⟨_, rfl, rfl⟩
  | reportExit | shutDown | killed =>
    cases hw
    exact .inr ⟨_, rfl, _, rfl⟩
  | skip | passReady | passUnready | refuseStart => exact .inl hw
  | exited =>
    rw [phase_postIfHeld] at hw
    exact .inl hw
  | tick | checkEnded =>
    rw [awaited?_setProbe] at hw
    exact .inl hw
  | judged p p' report =>
    cases report with
    | none =>
      rw [Option.map_none, Option.getD_none, awaited?_setProbe] at hw
      exact .inl hw
    | some m =>
      rw [Option.map_some, Option.getD_some, phase_postIfHeld, awaited?_setProbe] at hw
      exact .inl hw
  | _ => cases hw

/-- The answer that a controller waits for brings it on. -/
theorem step_of_news {told : List ProcessFactory.Effect} {root : Option Path}
    (hw : awaited? c.phase = some call) (ha : news? told root call = some a)
    (s : Controller.Surroundings) :
    ∃ c' made, c.step s a = some (c', made) ∧ c.phase.rank < c'.phase.rank := by
  cases hp : c.phase with
  | shuttingDown t deadline =>
    rw [hp] at hw
    cases hw
    obtain ⟨r, -, rfl⟩ := Option.map_eq_some_iff.1 ha
    cases failure? r with
    | none => exact ⟨_, _, by rw [Controller.step, hp]; rfl, by show 3 < 5; decide⟩
    | some e => exact ⟨_, _, by rw [Controller.step, hp]; rfl, by show 3 < 4; decide⟩
  | killing t =>
    rw [hp] at hw
    cases hw
    obtain ⟨r, -, rfl⟩ := Option.map_eq_some_iff.1 ha
    exact ⟨_, _, by rw [Controller.step, hp], by show 4 < 5; decide⟩
  | releasing t =>
    rw [hp] at hw
    cases hw
    obtain ⟨r, -, rfl⟩ := Option.map_eq_some_iff.1 ha
    cases root with
    | none => exact ⟨_, _, by rw [Controller.step, hp], by show 5 < 7; decide⟩
    | some root => exact ⟨_, _, by rw [Controller.step, hp], by show 5 < 6; decide⟩
  | _ =>
    rw [hp] at hw
    cases hw

theorem step_of_no_call (hr : 3 ≤ c.phase.rank ∧ c.phase.rank ≤ 6) (hw : awaited? c.phase = none)
    (s : Controller.Surroundings) : ∃ a c' made, isNews a = false ∧ c.step s a = some (c', made) ∧
      c.phase.rank < c'.phase.rank := by
  cases hp : c.phase with
  | exiting run =>
    exact ⟨.reportExit, _, _, rfl, by rw [Controller.step, hp], by show 3 < 5; decide⟩
  | removing t =>
    exact ⟨.rootRemoved none, _, _, rfl, by rw [Controller.step, hp], by show 6 < 7; decide⟩
  | stopped | starting | started | terminated => simp [hp, Phase.rank] at hr
  | shuttingDown | killing | releasing => simp [hp, awaited?] at hw

end Controller

section Served

variable {site site' : ProcessSite} {told new : List ProcessFactory.Effect} {back back' : List Ipv4}
  {k n : Nat} {call : Call} {x : ProcessFactory.Action} {c c' : Controller} {a : Controller.Action}
  {d d' : ProcessDriver}

theorem answers_ne_nil {l : List ProcessDriver.Effect} (h : ∃ result, .answer n result ∈ l) :
    answers (told ++ l.map (.driver k)) n ≠ [] := by
  obtain ⟨result, hr⟩ := h
  refine List.ne_nil_of_mem (a := result) ?_
  rw [answers_append]
  exact List.mem_append_right _ (mem_answers_driver.2 hr)

theorem answers_or_awaits (h : answers told n ≠ [] ∨ d.Awaits n)
    (hgo : d.Awaits n → d'.Awaits n ∨ answers (told ++ new) n ≠ []) :
    answers (told ++ new) n ≠ [] ∨ d'.Awaits n := by
  rcases h with h | h
  · rw [answers_append]
    exact .inl (List.append_ne_nil_of_left_ne_nil h _)
  · exact (hgo h).symm

theorem Served.mono (hs : Served site told call)
    (hgo : ∀ n, site.driver.Awaits n → site'.driver.Awaits n ∨ answers (told ++ new) n ≠ []) :
    Served site' (told ++ new) call := by
  cases call with
  | start | wait => trivial
  | shutdown | kill => exact answers_or_awaits hs (hgo _)
  | release =>
    have happend : releases (told ++ new) = releases told ++ releases new := List.filterMap_append
    show releases (told ++ new) ≠ []
    rw [happend]
    exact List.append_ne_nil_of_left_ne_nil hs _

/-- Whatever happens at a driver, no call is lost. -/
theorem Served.siteMove (hs : Served site told call) (hm : SiteMove k x site site' new back)
    (hfresh : site.starting.isSome = true → site.driver.process = none) :
    Served site' (told ++ new) call := by
  refine hs.mono fun n hn => ?_
  cases hm with
  | begun | notBegun | failed | released => exact .inl hn
  | started id refuses d ip =>
    -- No call can wait during a start, for there is no process yet.
    obtain ⟨p, hp, -⟩ := hn
    cases (hfresh rfl).symm.trans hp
  | called m call d => exact .inl (hn.call m call)
  | refused m failure d => exact (hn.refuse m failure).imp_right fun h => answers_ne_nil ⟨_, h⟩
  | exited exit d => exact .inr (answers_ne_nil (hn.recordExit exit))

theorem served_of_asks (ha : Asks k call x) (hm : SiteMove k x site site' new back) :
    Served site' (told ++ new) call := by
  cases call with
  | start | wait => trivial
  | shutdown | kill =>
    obtain rfl := ha
    cases hm with
    | called n call d => exact (d.awaits_or_answered _ _).symm.imp_left answers_ne_nil
  | release =>
    obtain ⟨id, rfl⟩ := ha
    cases hm with
    | released id d result =>
      exact List.ne_nil_of_mem (List.mem_filterMap.2 ⟨.released k result, by simp, rfl⟩)

structure Attended (c : Controller) (site : ProcessSite) (told : List ProcessFactory.Effect)
    (back : List Ipv4) : Prop extends Linked c site told back where
  served (call : Call) : awaited? c.phase = some call → Served site told call

theorem attended_new (probe : ProbeConfig) (timeout : Duration) (d : ProcessDriver)
    (hd : d.process = none) : Attended (.new probe timeout) ⟨d, none⟩ [] [] where
  toLinked := linked_new probe timeout d hd
  served _ hw := by cases hw

theorem Attended.fresh (l : Attended c site told back) (hs : site.starting.isSome = true) :
    site.driver.process = none := by
  obtain ⟨ip, hip⟩ := Option.isSome_iff_exists.1 hs
  exact (l.stage.of_starting hip).2.1

theorem Attended.unasked (l : Attended c site told back) (hu : Unasked k c x)
    (hm : SiteMove k x site site' new back') :
    Attended c site' (told ++ new) (back ++ back') where
  toLinked := l.toLinked.unasked hu hm
  served call hw := (l.served call hw).siteMove hm l.fresh

theorem Attended.post (l : Attended c site told back) {m : Message} (hpost : c.post? m = some c')
    (hm : isExit m = false) : Attended c' site told back where
  toLinked := l.toLinked.post hpost hm
  served call hw := by
    obtain rfl : c' = c.postIfHeld true m := by simp [Controller.postIfHeld, hpost]
    rw [Controller.phase_postIfHeld] at hw
    exact l.served call hw

theorem Attended.turn {s : Controller.Surroundings} {effects : List Controller.Effect}
    (l : Attended c site told back) (h : Controller.Move s c a c' effects) (ha : Heard told a)
    (k : Nat) :
    (effects.filterMap (demand? k) = [] ∧ Attended c' site told back) ∨
      ∃ x, effects.filterMap (demand? k) = [x] ∧ x.driver? = some k ∧ site.starting = none ∧
        ∀ site' new back', SiteMove k x site site' new back' →
          Attended c' site' (told ++ new) (back ++ back') := by
  rcases l.toLinked.turn h ha k with ⟨hnone, l'⟩ | ⟨x, hone, hk, hs, hl⟩
  · refine .inl ⟨hnone, l', fun call hw => ?_⟩
    rcases awaited_move (k := k) h hw with hw | ⟨x, hx, -⟩
    · exact l.served call hw
    · rw [hnone] at hx
      cases hx
  · refine .inr ⟨x, hone, hk, hs, fun site' new back' hm => ⟨hl site' new back' hm, ?_⟩⟩
    intro call hw
    rcases awaited_move (k := k) h hw with hw | ⟨y, hy, hasks⟩
    · exact (l.served call hw).siteMove hm l.fresh
    · rw [hone] at hy
      cases hy
      exact served_of_asks hasks hm

/-- Once the process has exited, the answer that a controller waits for is there. -/
theorem Attended.news (l : Attended c site told back) (hexit : HasExited site) {call : Call}
    (hw : awaited? c.phase = some call) (root : Option Path) :
    ∃ a, news? told root call = some a := by
  have hanswered {n : Nat} (h : answers told n ≠ [] ∨ site.driver.Awaits n) :
      ∃ r, (answers told n).head? = some r := by
    obtain ⟨p, hp, he⟩ := hexit
    rcases h with h | ⟨q, hq, hrunning, -⟩
    · exact ⟨_, List.head?_eq_some_head h⟩
    · cases hp.symm.trans hq
      rw [hrunning] at he
      cases he
  have hs := l.served call hw
  cases call with
  | shutdown | kill =>
    obtain ⟨r, hr⟩ := hanswered hs
    exact ⟨_, by rw [news?, hr]; rfl⟩
  | release => exact ⟨_, by rw [news?, List.head?_eq_some_head hs]; rfl⟩
  | start | wait => cases hp : c.phase <;> simp [awaited?, hp] at hw

end Served

end ProcessFleet

end MachineFleet
