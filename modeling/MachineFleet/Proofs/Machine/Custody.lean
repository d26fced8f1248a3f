import MachineFleet.Proofs.Machine.Demands

/-!
How far a controller has come and what its driver has got: whatever ends the machine, its address is
given back after its process has exited, and once.
-/
namespace MachineFleet.ProcessFleet

open ProcessFactory (SiteMove)

/-- How far the start of a machine has come, by how far its controller has. -/
inductive Stage (site : ProcessSite) (results : List (Except Error Metadata)) (rank : Nat) : Prop
  where
  | untouched (hs : site.starting = none) (hp : site.driver.process = none) (hr : results = [])
      (h : rank = 0 ∨ rank = 7)
  | underway (ip : Ipv4) (hs : site.starting = some ip) (hp : site.driver.process = none)
      (hr : results = []) (h : rank = 1)
  | failed (e : Error) (hs : site.starting = none) (hp : site.driver.process = none)
      (hr : results = [.error e]) (h : rank = 1 ∨ rank = 7)
  | done (machine : Metadata) (p : Process) (hs : site.starting = none)
      (hp : site.driver.process = some p) (hr : results = [.ok machine])
      (ha : machine.address = .v4 p.address) (h : 1 ≤ rank)

section Stage

variable {site : ProcessSite} {results : List (Except Error Metadata)} {rank rank' : Nat}
  {p : Process}

theorem Stage.starting_eq_none (h : Stage site results rank) (hr : rank ≠ 1) :
    site.starting = none := by
  cases h with
  | underway ip hs hp hnil h => exact absurd h hr
  | untouched | failed | done => assumption

theorem Stage.of_zero (h : Stage site results rank) (hr : rank = 0) :
    site.starting = none ∧ site.driver.process = none ∧ results = [] := by
  cases h with
  | untouched hs hp hnil h => exact ⟨hs, hp, hnil⟩
  | underway | failed | done => omega

theorem Stage.of_starting {ip : Ipv4} (h : Stage site results rank)
    (hs : site.starting = some ip) :
    rank = 1 ∧ site.driver.process = none ∧ results = [] := by
  cases h with
  | underway other hs hp hnil h => exact ⟨h, hp, hnil⟩
  | untouched hs' | failed e hs' | done machine p hs' => cases hs.symm.trans hs'

theorem Stage.process_of_ok {machine : Metadata} (h : Stage site results rank)
    (hm : .ok machine ∈ results) :
    ∃ p, site.driver.process = some p ∧ machine.address = .v4 p.address := by
  cases h with
  | done other p hs hp hr ha h =>
    rw [hr] at hm
    cases List.mem_singleton.1 hm
    exact ⟨p, hp, ha⟩
  | untouched hs hp hr | underway ip hs hp hr | failed e hs hp hr =>
    rw [hr] at hm
    simp at hm

theorem Stage.of_error {e : Error} (h : Stage site results rank) (hm : .error e ∈ results) :
    site.driver.process = none ∧ results = [.error e] ∧ site.starting = none := by
  cases h with
  | failed other hs hp hr h =>
    rw [hr] at hm
    cases List.mem_singleton.1 hm
    exact ⟨hp, hr, hs⟩
  | untouched hs hp hr | underway ip hs hp hr | done machine p hs hp hr =>
    rw [hr] at hm
    simp at hm

theorem Stage.exists_process (h : Stage site results rank) (hr : 2 ≤ rank ∧ rank ≤ 6) :
    ∃ p, site.driver.process = some p := by
  cases h with
  | done machine p hs hp => exact ⟨p, hp⟩
  | underway => omega
  | untouched | failed => omega

theorem Stage.starting_eq_none_of_process (h : Stage site results rank)
    (hp : site.driver.process = some p) : site.starting = none := by
  cases h with
  | underway ip hs hq => cases hp.symm.trans hq
  | untouched | failed | done => assumption

theorem Stage.of_process (h : Stage site results rank) (hp : site.driver.process = some p)
    (hr : 1 ≤ rank') : Stage site results rank' := by
  cases h with
  | done machine q hs hq hr' ha => exact .done machine q hs hq hr' ha hr
  | untouched hs hq | underway ip hs hq | failed e hs hq => cases hp.symm.trans hq

end Stage

def HasExited (site : ProcessSite) : Prop :=
  ∃ p, site.driver.process = some p ∧ p.exit.isSome = true

/-- A controller and its driver agree: the address is given back once the process has exited, when
the network is released, and not before. -/
structure Linked (c : Controller) (site : ProcessSite) (told : List ProcessFactory.Effect)
    (back : List Ipv4) : Prop where
  stage : Stage site (starts told) c.phase.rank
  kept : c.phase.rank ≤ 4 → back = []
  given : c.phase.IsOver → back = (site.driver.process.map (·.address)).toList ∧
    ∀ p, site.driver.process = some p → p.exit.isSome = true
  expected : ExpectsExit c → HasExited site
  answered : ∀ n result, result ∈ answers told n →
    n = number .shutdown ∧ (∃ e, result = .error e) ∨ HasExited site
  watching : WatchesInTime c

section Linked

variable {c c' : Controller} {d d' : ProcessDriver} {site site' : ProcessSite}
  {told new : List ProcessFactory.Effect} {back : List Ipv4} {k : Nat} {a : Controller.Action}
  {p p' : Process}

@[simp] theorem starts_append : starts (told ++ new) = starts told ++ starts new :=
  List.filterMap_append

@[simp] theorem answers_append {n : Nat} :
    answers (told ++ new) n = answers told n ++ answers new n :=
  List.filterMap_append

@[simp] theorem starts_driver (k : Nat) (l : List ProcessDriver.Effect) :
    starts (l.map (.driver k)) = [] := by
  simp [starts, List.filterMap_map]

theorem mem_answers_driver {k n : Nat} {l : List ProcessDriver.Effect}
    {result : Except Error Unit} :
    result ∈ answers (l.map (.driver k)) n ↔ .answer n result ∈ l := by
  simp only [answers, List.mem_filterMap, List.mem_map]
  constructor
  · rintro ⟨_, ⟨e, he, rfl⟩, h⟩
    cases e with
    | answer m r =>
      dsimp only at h
      split at h
      · cases h
        rename_i hm
        exact hm ▸ he
      · cases h
    | terminate | kill => cases h
  · intro h
    exact ⟨_, ⟨_, h, rfl⟩, if_pos rfl⟩

theorem linked_new (probe : ProbeConfig) (timeout : Duration) (d : ProcessDriver)
    (hd : d.process = none) : Linked (.new probe timeout) ⟨d, none⟩ [] [] where
  stage := .untouched rfl hd rfl (.inl rfl)
  kept _ := rfl
  given h := absurd h (by simp [Controller.new, Controller.Phase.IsOver, Controller.Phase.rank])
  expected := by
    rintro (⟨run, h⟩ | ⟨failure, h⟩)
    · cases h
    · cases h
  answered _ _ h := absurd h (by simp [answers])
  watching h := absurd h (by simp [Controller.new])

theorem HasExited.of_process (h : HasExited ⟨d, none⟩) (hp : d.process = some p)
    (hp' : d'.process = some p') (hexit : p.exit.isSome = true → p'.exit.isSome = true) :
    HasExited ⟨d', none⟩ := by
  obtain ⟨q, hq, he⟩ := h
  cases hp.symm.trans hq
  exact ⟨p', hp', hexit he⟩

theorem Linked.process (l : Linked c ⟨d, none⟩ told back) (hp : d.process = some p)
    (hp' : d'.process = some p') (haddress : p'.address = p.address)
    (hexit : p.exit.isSome = true → p'.exit.isSome = true) (hnew : starts new = [])
    (hanswers : ∀ n result, result ∈ answers new n →
      n = number .shutdown ∧ (∃ e, result = .error e) ∨ p'.exit.isSome = true) :
    Linked c ⟨d', none⟩ (told ++ new) back where
  stage := by
    rw [starts_append, hnew, List.append_nil]
    cases l.stage with
    | done machine q hs hq hr ha h =>
      cases hp.symm.trans hq
      exact .done machine p' rfl hp' hr (haddress ▸ ha) h
    | underway ip hs => cases hs
    | untouched hs hq => cases hp.symm.trans hq
    | failed e hs hq => cases hp.symm.trans hq
  kept := l.kept
  given hr := by
    obtain ⟨hback, hexited⟩ := l.given hr
    refine ⟨?_, fun q hq => ?_⟩
    · simpa [hp, hp', haddress] using hback
    · cases hp'.symm.trans hq
      exact hexit (hexited p hp)
  expected he := (l.expected he).of_process hp hp' hexit
  answered n result hr := by
    rw [answers_append, List.mem_append] at hr
    rcases hr with hr | hr
    · exact (l.answered n result hr).imp_right fun h => h.of_process hp hp' hexit
    · exact (hanswers n result hr).imp_right fun h => ⟨p', hp', h⟩
  watching := l.watching

theorem Linked.called (l : Linked c ⟨d, none⟩ told back) (hp : d.process = some p) (n : Nat)
    (call : ExitCall) :
    Linked c ⟨(d.call n call).1, none⟩ (told ++ (d.call n call).2.map (.driver k)) back := by
  obtain ⟨⟨p', hp', haddress, hexit⟩, hanswers⟩ := ProcessDriver.call_cases (n := n) (c := call) hp
  refine l.process hp hp' haddress (by rw [hexit]; exact id) (starts_driver ..) fun m r hr => ?_
  rw [hexit]
  exact .inr (hanswers m r (mem_answers_driver.1 hr))

theorem Linked.advance (l : Linked c site told back)
    (hstage : Stage site (starts told) c'.phase.rank) (hle : c.phase.rank ≤ c'.phase.rank)
    (hover : c'.phase.IsOver → c.phase.IsOver ∨ site.driver.process = none)
    (hexpected : ExpectsExit c' → HasExited site) (hwatching : WatchesInTime c') :
    Linked c' site told back where
  stage := hstage
  kept hr := l.kept (hle.trans hr)
  given hr := by
    rcases Nat.lt_or_ge c.phase.rank 5 with hr' | hr'
    · have hp := (hover hr).resolve_left (Nat.not_le.2 hr')
      rw [l.kept (Nat.le_of_lt_succ hr'), hp]
      exact ⟨rfl, nofun⟩
    · exact l.given hr'
  expected := hexpected
  answered := l.answered
  watching := hwatching

def Heard (told : List ProcessFactory.Effect) : Controller.Action → Prop
  | .driverStarted result => result ∈ starts told
  | .driverShutDown failure => ∃ r ∈ answers told (number .shutdown), failure? r = failure
  | .driverKilled failure => ∃ r ∈ answers told (number .kill), failure? r = failure
  | .machineExited failure => ∃ r ∈ answers told (number .wait), failure? r = failure
  | _ => True

theorem heard_of_news {root : Option Path} {call : Call} (h : news? told root call = some a) :
    Heard told a := by
  cases call with
  | start =>
    obtain ⟨r, hr, rfl⟩ := Option.map_eq_some_iff.1 h
    exact List.mem_of_head? hr
  | wait | shutdown | kill =>
    obtain ⟨r, hr, rfl⟩ := Option.map_eq_some_iff.1 h
    exact ⟨r, List.mem_of_head? hr, rfl⟩
  | release =>
    obtain ⟨r, hr, rfl⟩ := Option.map_eq_some_iff.1 h
    trivial

theorem heard_of_not_news (h : isNews a = false) : Heard told a := by
  cases a <;> trivial

theorem Linked.hasExited (l : Linked c site told back) (ha : Heard told a)
    (h : a = .driverShutDown none ∨ (∃ failure, a = .driverKilled failure) ∨
      ∃ failure, a = .machineExited failure) : HasExited site := by
  rcases h with rfl | ⟨failure, rfl⟩ | ⟨failure, rfl⟩
  · obtain ⟨r, hr, hf⟩ := ha
    rcases l.answered _ r hr with ⟨-, e, rfl⟩ | h
    · cases hf
    · exact h
  · obtain ⟨r, hr, -⟩ := ha
    exact (l.answered _ r hr).resolve_left fun h => absurd h.1 (by decide)
  · obtain ⟨r, hr, -⟩ := ha
    exact (l.answered _ r hr).resolve_left fun h => absurd h.1 (by decide)

theorem Linked.call (l : Linked c site told back) (hle : c.phase.rank ≤ c'.phase.rank)
    (hp : site.driver.process = some p) {n : Nat} {call : ExitCall} {back' : List Ipv4}
    (hm : SiteMove k (.call k n call) site site' new back')
    (hr' : 1 ≤ c'.phase.rank ∧ c'.phase.rank ≤ 4) (hexpected : ExpectsExit c' → HasExited site)
    (hwatching : WatchesInTime c') :
    Linked c' site' (told ++ new) (back ++ back') := by
  cases hm with
  | called n call d =>
    obtain ⟨⟨p', hp', -, hexit⟩, -⟩ := ProcessDriver.call_cases (n := n) (c := call) hp
    have hcalled := l.called (k := k) hp n call
    rw [List.append_nil]
    exact hcalled.advance (hcalled.stage.of_process hp' hr'.1) hle
      (fun hover => absurd (Nat.le_trans hover hr'.2) (by decide))
      (fun he => (hexpected he).of_process hp hp' (by rw [hexit]; exact id)) hwatching

/-- The release of a machine that has exited gives its address back. -/
theorem Linked.release (l : Linked c site told back) (hr : c.phase.rank ≤ 4) {id : String}
    {back' : List Ipv4} (hm : SiteMove k (.release k id) site site' new back')
    (hexited : HasExited site) (hr' : 5 ≤ c'.phase.rank)
    (hwatching : WatchesInTime c') :
    Linked c' site' (told ++ new) (back ++ back') := by
  cases hm with
  | released id d result =>
    obtain ⟨p, hp, he⟩ := hexited
    have hanswers (n : Nat) : answers (told ++ [.released k result]) n = answers told n := by
      simp [answers]
    have hstarts : starts (told ++ [.released k result]) = starts told := by simp [starts]
    -- Only now that the process has exited does the release give anything back.
    have hreturned : d.returned? = some p.address := by
      dsimp only at hp
      simp [ProcessDriver.returned?, hp, he]
    exact {
      stage := hstarts ▸ l.stage.of_process hp (Nat.le_trans (by decide) hr')
      kept := fun h => absurd (Nat.le_trans hr' h) (by decide)
      given := fun _ => by
        dsimp only at hp
        rw [l.kept hr, hreturned, hp]
        refine ⟨rfl, fun q hq => ?_⟩
        cases hq
        exact he
      expected := fun _ => ⟨p, hp, he⟩
      answered := fun n r hr => l.answered n r (hanswers n ▸ hr)
      watching := hwatching }

theorem Linked.unlaunched (l : Linked c site told back) (hr : c.phase.rank ≤ 4)
    (hd : site'.driver = site.driver) (hp : site.driver.process = none)
    (hstage : Stage site' (starts (told ++ new)) c'.phase.rank) (hnew : ∀ n, answers new n = [])
    (hexpected : ExpectsExit c' → HasExited site)
    (hwatching : WatchesInTime c') :
    Linked c' site' (told ++ new) back := by
  have hsame : HasExited site → HasExited site' := by
    unfold HasExited
    rw [hd]
    exact id
  exact {
    stage := hstage
    kept := fun _ => l.kept hr
    given := fun _ => by
      rw [l.kept hr, hd, hp]
      exact ⟨rfl, nofun⟩
    expected := fun he => hsame (hexpected he)
    answered := fun n result hm => by
      rw [answers_append, hnew, List.append_nil] at hm
      exact (l.answered n result hm).imp_right hsame
    watching := hwatching }

theorem Linked.start (l : Linked c site told back) (hr : c.phase.rank = 0) {back' : List Ipv4}
    (hm : SiteMove k (.beginStart k) site site' new back') (hr' : c'.phase.rank = 1)
    (hexpected : ExpectsExit c' → HasExited site)
    (hwatching : WatchesInTime c') :
    Linked c' site' (told ++ new) (back ++ back') := by
  obtain ⟨-, hp, hnil⟩ := l.stage.of_zero hr
  cases hm with
  | begun d ip hd =>
    rw [List.append_nil back]
    refine l.unlaunched (by omega) rfl hp (.underway ip rfl hp ?_ hr') (fun _ => rfl) hexpected
      hwatching
    rw [starts_append, hnil]
    rfl
  | notBegun d e =>
    rw [List.append_nil back]
    refine l.unlaunched (by omega) rfl hp (.failed e rfl hp ?_ (.inl hr')) (fun _ => rfl) hexpected
      hwatching
    rw [starts_append, hnil]
    rfl

/-- What a step of a controller asks of its driver can be done, and the two go on to agree. -/
theorem Linked.turn {s : Controller.Surroundings} {effects : List Controller.Effect}
    (l : Linked c site told back) (h : Controller.Move s c a c' effects) (ha : Heard told a)
    (k : Nat) :
    (effects.filterMap (demand? k) = [] ∧ Linked c' site told back) ∨
      ∃ x, effects.filterMap (demand? k) = [x] ∧ x.driver? = some k ∧ site.starting = none ∧
        ∀ site' new back', SiteMove k x site site' new back' →
          Linked c' site' (told ++ new) (back ++ back') := by
  have hexpected (he : ExpectsExit c') : HasExited site :=
    (expectsExit_move h he).elim l.expected fun hm => l.hasExited ha (.inr (.inr hm))
  have hwatching := watchesInTime_move h l.watching
  have hstage := l.stage
  have hle := Controller.rank_move h
  have hgo {rank : Nat} (hr : c'.phase.rank = rank) (hlt : rank < 5) (hover : c'.phase.IsOver) :
      c.phase.IsOver ∨ site.driver.process = none :=
    absurd (hr ▸ hover : 5 ≤ rank) (Nat.not_le.2 hlt)
  -- From here on only how far the step brings the controller counts, and what it asks for.
  have hturn := turn_of_move (k := k) h
  generalize effects.filterMap (demand? k) = demands at hturn
  cases hturn with
  | stay _ hr =>
    exact .inl ⟨rfl, l.advance (hr ▸ hstage) hle (fun hover => .inl (hover.trans_eq hr)) hexpected
      hwatching⟩
  | giveUp _ hr hr' =>
    obtain ⟨hs, hp, hnil⟩ := hstage.of_zero hr
    exact .inl ⟨rfl, l.advance (.untouched hs hp hnil (.inr hr')) hle (fun _ => .inr hp) hexpected
      hwatching⟩
  | start _ hr hr' =>
    exact .inr ⟨_, rfl, rfl, hstage.starting_eq_none (by omega),
      fun site' new back' hm => l.start hr hm hr' hexpected hwatching⟩
  | startFailed e hr hr' =>
    obtain ⟨hp, hres, hs⟩ := hstage.of_error ha
    exact .inl ⟨rfl, l.advance (.failed e hs hp hres (.inr hr')) hle (fun _ => .inr hp) hexpected
      hwatching⟩
  | startTaken machine hr hr' =>
    obtain ⟨p, hp, -⟩ := hstage.process_of_ok ha
    exact .inl ⟨rfl, l.advance (hstage.of_process hp (by omega)) hle (hgo hr' (by decide))
      hexpected hwatching⟩
  | startUnwanted machine hr hr' =>
    obtain ⟨p, hp, -⟩ := hstage.process_of_ok ha
    exact .inr ⟨_, rfl, rfl, hstage.starting_eq_none_of_process hp,
      fun site' new back' hm => l.call hle hp hm (by omega) hexpected hwatching⟩
  | exiting _ hr hr' =>
    obtain ⟨p, hp⟩ := hstage.exists_process (by omega)
    exact .inl ⟨rfl, l.advance (hstage.of_process hp (by omega)) hle (hgo hr' (by decide))
      hexpected hwatching⟩
  | shutdown _ hr hr' =>
    obtain ⟨p, hp⟩ := hstage.exists_process (by omega)
    exact .inr ⟨_, rfl, rfl, hstage.starting_eq_none (by omega),
      fun site' new back' hm => l.call hle hp hm (by omega) hexpected hwatching⟩
  | kill _ hr hr' =>
    obtain ⟨p, hp⟩ := hstage.exists_process (by omega)
    exact .inr ⟨_, rfl, rfl, hstage.starting_eq_none (by omega),
      fun site' new back' hm => l.call hle hp hm (by omega) hexpected hwatching⟩
  | release _ id hcause hr hr' =>
    have hexited : HasExited site := by
      rcases hcause with h | h | h
      · exact l.hasExited ha (.inl h)
      · exact l.hasExited ha (.inr (.inl h))
      · exact l.expected h
    exact .inr ⟨_, rfl, rfl, hstage.starting_eq_none (by omega),
      fun site' new back' hm => l.release hr.2 hm hexited (by omega) hwatching⟩
  | cleanUp _ hr hr' =>
    obtain ⟨p, hp⟩ := hstage.exists_process (by omega)
    exact .inl ⟨rfl, l.advance (hstage.of_process hp (by omega)) hle (fun _ => .inl hr.1)
      hexpected hwatching⟩

/-- What happens at a driver although its controller does not ask for it. -/
inductive Unasked (k : Nat) (c : Controller) : ProcessFactory.Action → Prop where
  | endStart (id : String) (refuses : Files.Tree → Launch → Option Files.Failure) :
      Unasked k c (.endStart k id refuses)
  | watch (hw : c.watching = true) : Unasked k c (.call k (number .wait) .wait)
  | refuse (failure : Error) : Unasked k c (.refuse k (number .shutdown) failure)
  | exit (exit : MachineExit) : Unasked k c (.exit k exit)

theorem Linked.startEnded (l : Linked c site told back) {id : String}
    {refuses : Files.Tree → Launch → Option Files.Failure} {back' : List Ipv4}
    (hm : SiteMove k (.endStart k id refuses) site site' new back') :
    Linked c site' (told ++ new) (back ++ back') := by
  cases hm with
  | failed id refuses d ip e =>
    obtain ⟨hr, hp, hnil⟩ := l.stage.of_starting rfl
    rw [List.append_nil back]
    refine l.unlaunched (by omega) rfl hp (.failed e rfl hp ?_ (.inl hr)) (fun _ => rfl)
      l.expected l.watching
    rw [starts_append, hnil]
    rfl
  | started id refuses d ip =>
    obtain ⟨hr, hp, hnil⟩ := l.stage.of_starting rfl
    -- Nothing can have been told of an exit yet, for there was no process.
    have hnone : ¬ HasExited ⟨d, some ip⟩ := by
      rintro ⟨p, hp', -⟩
      cases hp.symm.trans hp'
    have hnew (n : Nat) : answers [.started k (.ok ⟨id, .v4 ip⟩)] n = [] := rfl
    rw [List.append_nil back]
    exact {
      stage := by
        refine .done ⟨id, .v4 ip⟩ _ rfl rfl ?_ rfl (Nat.le_of_eq hr.symm)
        rw [starts_append, hnil]
        rfl
      kept := l.kept
      given := fun h => absurd (Nat.le_trans h (Nat.le_of_eq hr)) (by decide)
      expected := fun he => absurd (l.expected he) hnone
      answered := fun n result hr => by
        rw [answers_append, hnew, List.append_nil] at hr
        exact .inl ((l.answered n result hr).resolve_right hnone)
      watching := l.watching }

theorem Linked.unasked (l : Linked c site told back) {x : ProcessFactory.Action}
    {back' : List Ipv4} (hu : Unasked k c x) (hm : SiteMove k x site site' new back') :
    Linked c site' (told ++ new) (back ++ back') := by
  cases hu with
  | endStart id refuses => exact l.startEnded hm
  | watch hw =>
    cases hm with
    | called n call d =>
      have hr := l.watching hw
      obtain ⟨p, hp⟩ := l.stage.exists_process (by omega)
      rw [List.append_nil]
      exact l.called hp _ _
  | refuse failure =>
    cases hm with
    | refused n failure d =>
      rw [List.append_nil]
      obtain ⟨-, hsame⟩ | ⟨⟨p, p', hp, hp', haddress, hexit⟩, hanswers⟩ :=
        ProcessDriver.refuse_cases (number .shutdown) failure d
      · rw [hsame, List.map_nil, List.append_nil]
        exact l
      · refine l.process hp hp' haddress (by rw [hexit]; exact id) (starts_driver ..) ?_
        intro n result hr
        obtain ⟨rfl, rfl⟩ := hanswers n result (mem_answers_driver.1 hr)
        exact .inl ⟨rfl, failure, rfl⟩
  | exit exit =>
    cases hm with
    | exited exit d =>
      rw [List.append_nil]
      obtain ⟨-, hsame⟩ | ⟨p, p', hp, hp', haddress, hexit⟩ :=
        ProcessDriver.recordExit_cases exit d
      · rw [hsame, List.map_nil, List.append_nil]
        exact l
      · exact l.process hp hp' haddress (fun _ => hexit) (starts_driver ..)
          fun _ _ _ => .inr hexit

theorem Linked.post (l : Linked c site told back) {m : Message} (hpost : c.post? m = some c')
    (hm : isExit m = false) : Linked c' site told back := by
  obtain rfl : c' = c.postIfHeld true m := by simp [Controller.postIfHeld, hpost]
  have hphase : (c.postIfHeld true m).phase = c.phase := Controller.phase_postIfHeld ..
  refine l.advance (hphase ▸ l.stage) (hphase ▸ Nat.le_refl _) (fun hover => ?_) (fun he => ?_)
    fun hw => ?_
  · rw [hphase] at hover
    exact .inl hover
  · exact l.expected ((expectsExit_postIfHeld he).resolve_right (by simp [hm]))
  · rw [watching_postIfHeld] at hw
    rw [hphase]
    exact l.watching hw

end Linked

end MachineFleet.ProcessFleet
