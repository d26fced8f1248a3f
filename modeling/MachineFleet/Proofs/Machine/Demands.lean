import MachineFleet.Proofs.Machine.ProcessFleet

namespace MachineFleet.ProcessFleet

def ExpectsExit (c : Controller) : Prop :=
  (∃ run, c.phase = .exiting run) ∨ ∃ failure, .runFinished failure ∈ c.mailbox

/-- The exit is waited for at most from the start of the machine until its network is released. -/
def WatchesInTime (c : Controller) : Prop :=
  c.watching = true → 2 ≤ c.phase.rank ∧ c.phase.rank ≤ 4

inductive Turn (k : Nat) (c c' : Controller) :
    Controller.Action → List ProcessFactory.Action → Prop where
  | stay (a : Controller.Action) (hr : c'.phase.rank = c.phase.rank) : Turn k c c' a []
  | giveUp (a : Controller.Action) (hr : c.phase.rank = 0) (hr' : c'.phase.rank = 7) :
      Turn k c c' a []
  | start (a : Controller.Action) (hr : c.phase.rank = 0) (hr' : c'.phase.rank = 1) :
      Turn k c c' a [.beginStart k]
  | startFailed (e : Error) (hr : c.phase.rank = 1) (hr' : c'.phase.rank = 7) :
      Turn k c c' (.driverStarted (.error e)) []
  | startTaken (machine : Metadata) (hr : c.phase.rank = 1) (hr' : c'.phase.rank = 2) :
      Turn k c c' (.driverStarted (.ok machine)) []
  | startUnwanted (machine : Metadata) (hr : c.phase.rank = 1) (hr' : c'.phase.rank = 3) :
      Turn k c c' (.driverStarted (.ok machine)) [.call k (number .shutdown) .shutdown]
  | exiting (a : Controller.Action) (hr : c.phase.rank = 2) (hr' : c'.phase.rank = 3) :
      Turn k c c' a []
  | shutdown (a : Controller.Action) (hr : c.phase.rank = 2) (hr' : c'.phase.rank = 3) :
      Turn k c c' a [.call k (number .shutdown) .shutdown]
  | kill (a : Controller.Action) (hr : c.phase.rank = 3) (hr' : c'.phase.rank = 4) :
      Turn k c c' a [.call k (number .kill) .kill]
  | release (a : Controller.Action) (id : String)
      (ha : a = .driverShutDown none ∨ (∃ failure, a = .driverKilled failure) ∨ ExpectsExit c)
      (hr : 3 ≤ c.phase.rank ∧ c.phase.rank ≤ 4) (hr' : c'.phase.rank = 5) :
      Turn k c c' a [.release k id]
  | cleanUp (a : Controller.Action) (hr : 5 ≤ c.phase.rank ∧ c.phase.rank ≤ 6)
      (hr' : 5 ≤ c'.phase.rank) : Turn k c c' a []

section Controller

open Controller

variable {s : Controller.Surroundings} {c c' : Controller} {a : Controller.Action}
  {effects : List Controller.Effect} {m : Message} {k : Nat}

theorem demands_dropReply (m : Message) : (dropReply m).filterMap (demand? k) = [] := by
  cases m <;> rfl

@[simp] theorem demands_terminate (c : Controller) : c.terminate.2.filterMap (demand? k) = [] := by
  simp [Controller.terminate, List.filterMap_flatMap, demands_dropReply]

@[simp] theorem demands_finish (c : Controller) (t : Teardown) :
    (c.finish t).2.filterMap (demand? k) = [] := by
  unfold Controller.finish
  cases t.reply with
  | none => exact demands_terminate c
  | some reply => exact (List.filterMap_cons_none rfl).trans (demands_terminate c)

theorem turn_of_move (h : Move s c a c' effects) :
    Turn k c c' a (effects.filterMap (demand? k)) := by
  cases h with
  | takeStart reply rest hp hm => exact .start _ (by simp [hp, Controller.Phase.rank]) rfl
  | skip m rest hp hm hs =>
    rw [demands_dropReply]
    exact .stay _ rfl
  | giveUp hp hm hh =>
    rw [demands_terminate]
    exact .giveUp _ (by simp [hp, Controller.Phase.rank]) rfl
  | takeRegistered run rest hp hm => exact .stay _ (by simp [hp, Controller.Phase.rank])
  | takeStop run reply rest hp | takeRetire run rest hp | letGo run hp =>
    exact .shutdown _ (by simp [hp, Controller.Phase.rank]) rfl
  | takeExit run failure rest hp hm => exact .exiting _ (by simp [hp, Controller.Phase.rank]) rfl
  | passReady run machine rest hp hm | passUnready run machine rest hp hm
    | refuseStart run reply rest hp hm => exact .stay _ rfl
  | reportExit run hp =>
    exact .release _ _ (.inr (.inr (.inl ⟨run, hp⟩))) (by simp [hp, Controller.Phase.rank]) rfl
  | startFailed reply e hp =>
    rw [List.filterMap_cons_none rfl, demands_terminate]
    exact .startFailed e (by simp [hp, Controller.Phase.rank]) rfl
  | startTaken reply machine hp ha =>
    exact .startTaken machine (by simp [hp, Controller.Phase.rank]) rfl
  | startUnwanted reply machine hp ha =>
    exact .startUnwanted machine (by simp [hp, Controller.Phase.rank]) rfl
  | shutDown t deadline hp =>
    exact .release _ _ (.inl rfl) (by simp [hp, Controller.Phase.rank]) rfl
  | shutdownFailed t deadline e hp | shutdownExpired t deadline hp hd =>
    exact .kill _ (by simp [hp, Controller.Phase.rank]) rfl
  | killed t failure hp =>
    exact .release _ _ (.inr (.inl ⟨failure, rfl⟩)) (by simp [hp, Controller.Phase.rank]) rfl
  | released t failure hp =>
    rw [List.filterMap_cons_none rfl, demands_finish]
    exact .cleanUp _ (by simp [hp, Controller.Phase.rank]) (by simp [Controller.Phase.rank])
  | releasedWithRoot t failure root hp =>
    exact .cleanUp _ (by simp [hp, Controller.Phase.rank]) (by simp [Controller.Phase.rank])
  | rootRemoved t failure hp =>
    rw [demands_finish]
    exact .cleanUp _ (by simp [hp, Controller.Phase.rank]) (by simp [Controller.Phase.rank])
  | exited failure hw => exact .stay _ (by simp)
  | tick p p' hp ht => exact .stay _ (rank_setProbe c p')
  | checkEnded p p' outcome hp hf => exact .stay _ (rank_setProbe c p')
  | judged p p' report hp hj =>
    refine .stay _ ?_
    cases report with
    | none => exact rank_setProbe c p'
    | some m => exact (congrArg _ (phase_postIfHeld ..)).trans (rank_setProbe c p')

theorem expectsExit_postIfHeld {held : Bool} (he : ExpectsExit (c.postIfHeld held m)) :
    ExpectsExit c ∨ isExit m = true := by
  rcases he with ⟨run, hp⟩ | ⟨failure, hm⟩
  · exact .inl (.inl ⟨run, by simpa using hp⟩)
  · rcases mem_postIfHeld_mailbox hm with hm | rfl
    · exact .inl (.inr ⟨failure, hm⟩)
    · exact .inr rfl

theorem expectsExit_setProbe {p : Probe} (he : ExpectsExit (c.setProbe p)) : ExpectsExit c := by
  rcases he with ⟨run, hp⟩ | ⟨failure, hm⟩
  · rcases phase_setProbe c p with h | ⟨before, -, h⟩ | ⟨before, hb, -⟩
    · exact .inl ⟨run, h.symm.trans hp⟩
    · cases h.symm.trans hp
    · exact .inl ⟨before, hb⟩
  · rw [mailbox_setProbe] at hm
    exact .inr ⟨failure, hm⟩

theorem not_expectsExit_of_ended (hp : c.phase = .terminated) (hm : c.mailbox = []) :
    ¬ ExpectsExit c := by
  rintro (⟨run, he⟩ | ⟨failure, he⟩)
  · cases hp.symm.trans he
  · rw [hm] at he
    cases he

/-- Only the task that waits for the exit brings the news of it. -/
theorem expectsExit_move (h : Move s c a c' effects) (he : ExpectsExit c') :
    ExpectsExit c ∨ ∃ failure, a = .machineExited failure := by
  have hcases {after : Controller} (he : ExpectsExit after) (hp : ∀ run, after.phase ≠ .exiting run)
      (hm : ∀ m ∈ after.mailbox, m ∈ c.mailbox) : ExpectsExit c := by
    rcases he with ⟨run, he⟩ | ⟨failure, he⟩
    · exact absurd he (hp run)
    · exact .inr ⟨failure, hm _ he⟩
  have hrest {m : Message} {rest : List Message} (hm : c.mailbox = m :: rest) :
      ∀ m ∈ rest, m ∈ c.mailbox := fun m' hm' => hm ▸ List.mem_cons_of_mem _ hm'
  cases h with
  | skip m rest hp hm hs => exact .inl (hcases he (by simp [hp]) (hrest hm))
  | takeExit run failure rest hp hm => exact .inl (.inr ⟨failure, by simp [hm]⟩)
  | passReady run machine rest hp hm | passUnready run machine rest hp hm
    | refuseStart run reply rest hp hm => exact .inl (hcases he (by simp [hp]) (hrest hm))
  | takeStart reply rest hp hm => exact .inl (hcases he (by simp) (hrest hm))
  | takeRegistered run rest hp hm | takeRetire run rest hp hm =>
    exact .inl (hcases he (by simp) (hrest hm))
  | takeStop run reply rest hp hm => exact .inl (hcases he (by simp) (hrest hm))
  | reportExit run hp => exact .inl (.inl ⟨run, hp⟩)
  | released t failure hp | rootRemoved t failure hp | startFailed | giveUp =>
    exact (not_expectsExit_of_ended rfl rfl he).elim
  | letGo | startTaken | startUnwanted | shutDown | shutdownFailed | shutdownExpired | killed
    | releasedWithRoot => exact .inl (hcases he (by simp) fun _ hm => hm)
  | exited failure hw => exact .inr ⟨failure, rfl⟩
  | tick | checkEnded => exact .inl (expectsExit_setProbe he)
  | judged p p' report hp hj =>
    cases report with
    | none => exact .inl (expectsExit_setProbe he)
    | some m =>
      rcases expectsExit_postIfHeld he with he | hm
      · exact .inl (expectsExit_setProbe he)
      · obtain ⟨change, rfl⟩ := Probe.exists_change hj
        cases change <;> cases hm

theorem watching_postIfHeld (c : Controller) (held : Bool) (m : Message) :
    (c.postIfHeld held m).watching = c.watching := by
  unfold Controller.postIfHeld Controller.post?
  split
  · split <;> rfl
  · rfl

theorem watching_setProbe (c : Controller) (p : Probe) : (c.setProbe p).watching = c.watching := by
  unfold Controller.setProbe
  split <;> rfl

theorem watchesInTime_move (h : Move s c a c' effects) (hc : WatchesInTime c) :
    WatchesInTime c' := by
  intro hw
  cases h with
  | takeStart reply rest hp | skip m rest hp => exact absurd (hc hw) (by simp [hp, Phase.rank])
  | takeRegistered | takeStop | takeRetire | takeExit | letGo | startTaken | startUnwanted
    | shutdownFailed | shutdownExpired => simp [Phase.rank]
  | passReady | passUnready | refuseStart => exact hc hw
  | exited failure =>
    rw [watching_postIfHeld] at hw
    cases hw
  | tick p p' | checkEnded p p' =>
    rw [watching_setProbe] at hw
    rw [rank_setProbe]
    exact hc hw
  | judged p p' report =>
    cases report with
    | none =>
      rw [Option.map_none, Option.getD_none, watching_setProbe] at hw
      rw [Option.map_none, Option.getD_none, rank_setProbe]
      exact hc hw
    | some m =>
      rw [Option.map_some, Option.getD_some, watching_postIfHeld, watching_setProbe] at hw
      rw [Option.map_some, Option.getD_some, phase_postIfHeld, rank_setProbe]
      exact hc hw
  | releasedWithRoot t failure root hp => exact absurd (hc hw) (by simp [hp, Phase.rank])
  | reportExit | shutDown | killed => cases hw
  | giveUp | startFailed | released | rootRemoved => exact (Bool.false_ne_true hw).elim

end Controller

end MachineFleet.ProcessFleet
