import MachineFleet.Proofs.Fleet.Draining
import MachineFleet.Proofs.Fleet.Events

namespace MachineFleet.Fleet

def Call.pending : Call → List (Entry Nat)
  | draining rest => rest
  | stopping _ _ _ _ rest => rest
  | _ => []

theorem Call.pending_deliverAll (effects : List Controller.Effect) (call : Call) :
    (call.deliverAll effects).pending = call.pending := by
  refine deliverAll_congr pending (fun call r answer => ?_) call
  unfold deliver
  split <;> rfl

section Steps

variable {f f' f₁ : Fleet} {a : Action} {effects : List Effect} {made : List Making} {k c i : Nat}
  {old new call : Call} {reply : ReplyId} {answer : Answer}

theorem pending_turn (h : Turn f k a old new f₁ effects) (hd : old.isDraining = true) :
    ∀ e ∈ new.pending, e ∈ old.pending := by
  intro e he
  cases h with
  | stopSent => exact (List.mem_filter.1 he).1
  | skipped => exact (List.mem_filter.1 he).1
  | stopped => exact he
  | overdue => exact he
  | closed => cases he
  | abandon => cases he
  | _ => cases hd

theorem pending_move {call' : Call} (hm : Move f a f' effects) (hk : f.calls[k]? = some call)
    (hk' : f'.calls[k]? = some call') (hd : call.isDraining = true) :
    ∀ e ∈ call'.pending, e ∈ call.pending := by
  rcases call_cases hm hk with ⟨new, f₁, turn, -, hnew⟩ | rfl | ⟨made, hsame, -⟩
  · rw [hk'] at hnew
    cases hnew
    exact pending_turn turn hd
  · cases hd
  · rw [hk'] at hsame
    cases hsame
    rw [Call.pending_deliverAll]
    exact fun e he => he

theorem nextReply_move (h : Move f a f' effects) : f.nextReply ≤ f'.nextReply := by
  cases h with
  | created => exact Nat.le_succ _
  | turned k a old new f₁ effects hk ht =>
    cases ht with
    | stopSent => exact Nat.le_succ _
    | _ => exact Nat.le_refl _
  | _ => exact Nat.le_refl _

/-- A number stands for a request to stop, and no controller but one could answer it. -/
def AskedOf (f : Fleet) (reply : ReplyId) (c : Nat) : Prop :=
  reply < f.nextReply ∧ ∀ (i : Nat) (controller : Controller),
    f.controllers[i]? = some controller → controller.Owes (.stop reply) → i = c

theorem AskedOf.move (h : AskedOf f reply c) (hm : Move f a f' effects) : AskedOf f' reply c := by
  obtain ⟨hlt, honly⟩ := h
  refine ⟨Nat.lt_of_lt_of_le hlt (nextReply_move hm), ?_⟩
  intro i controller' hc' ho
  rcases controller_move hm hc' with ⟨controller, hc, hch⟩ | ⟨-, rfl⟩
  · apply honly i controller hc
    rcases hch with rfl | ⟨k, old, new, m, -, -, hp, rfl⟩ | ⟨did, made, -, -, hstep⟩
    · exact ho
    · rcases owes_posted ho with ho | rfl
      · exact ho
      · -- Another request to stop has a number of its own.
        cases hp with
        | stop => exact absurd hlt (Nat.lt_irrefl _)
    · exact Controller.owes_move hstep rfl ho
  · simp [Controller.Owes, Controller.new, Controller.Phase.served?] at ho

theorem AskedOf.eq_of_answer (h : AskedOf f reply c) (b : Books made f)
    (hk : f.calls[k]? = some call) (hr : call.stopReply? = some reply)
    (hm : Move f a f' effects) (he : .controller i (.answer reply answer) ∈ effects) : i = c := by
  obtain ⟨did, rfl⟩ := controller_of_mem hm he
  obtain ⟨before, after, given, hc, -, rfl, hstep⟩ := move_of_controller hm
  have hgiven : .answer reply answer ∈ given := by simpa using he
  obtain ⟨m, hm, ho⟩ := Controller.owes_of_answer hstep hgiven
  have hstands := b.numbers.asked i before m hc ho
  cases m with
  | start reply' =>
    -- The number of a request to start is none of a request to stop.
    cases hm
    obtain ⟨mk, hmk, hreply⟩ := hstands
    have hwaits := b.numbers.waits call (List.mem_of_getElem? hk) reply hr
    exact absurd hreply (hwaits.2 mk (List.mem_of_getElem? hmk))
  | stop reply' =>
    cases hm
    exact h.2 i before hc ho
  | _ => cases hm

theorem askedOf_of_stopSent {g : Fleet} (b : Books made f)
    (hg : g.controllers = (f.post c (.stop f.nextReply)).controllers)
    (hn : g.nextReply = f.nextReply + 1) : AskedOf g f.nextReply c := by
  refine ⟨by rw [hn]; exact Nat.lt_succ_self _, ?_⟩
  intro i controller hc ho
  rw [hg, getElem?_post] at hc
  obtain ⟨before, hb, rfl⟩ := Option.map_eq_some_iff.1 hc
  have hnew : ¬ before.Owes (.stop f.nextReply) := by
    intro ho
    exact absurd (b.numbers.asked i before _ hb ho).1 (Nat.lt_irrefl _)
  split at ho
  · rename_i hci
    exact hci.symm
  · exact absurd ho hnew

end Steps

section Executions

variable {config : FleetConfig} (x : Execution step (start config)) {n m k c c' i j : Nat}
  {call : Call} {reply reply' : ReplyId}

theorem now_le (hnm : n ≤ m) : (x.state n).now ≤ (x.state m).now := by
  refine Execution.stays (P := fun i => (x.state n).now ≤ (x.state i).now) (Nat.le_refl _) hnm ?_
  intro i _ hi
  exact Nat.le_trans hi (now_move (move_of_step (x.steps i)))

/-- A close that drains does so until its caller gives it up, and takes no machine on again. -/
theorem pending_shrinks (hk : (x.state n).calls[k]? = some call) (hd : call.isDraining = true)
    (hnm : n ≤ m) : ∃ call', (x.state m).calls[k]? = some call' ∧
      (call' = .abandoned ∨ call'.isDraining = true ∧ ∀ e ∈ call'.pending, e ∈ call.pending) := by
  refine Execution.stays (P := fun i => ∃ call', (x.state i).calls[k]? = some call' ∧
    (call' = .abandoned ∨ call'.isDraining = true ∧ ∀ e ∈ call'.pending, e ∈ call.pending))
    ⟨call, hk, .inr ⟨hd, fun e he => he⟩⟩ hnm ?_
  rintro i _ ⟨before, hb, rfl | ⟨hdb, hsub⟩⟩
  · exact ⟨_, ended_stays (move_of_step (x.steps i)) hb rfl, .inl rfl⟩
  · have hm := move_of_step (x.steps i)
    obtain ⟨after, ha, hda | ⟨rfl, -⟩⟩ := isDraining_move hm hb hdb
    · exact ⟨after, ha, .inr ⟨hda, fun e he => hsub e (pending_move hm hb ha hdb e he)⟩⟩
    · exact ⟨_, ha, .inl rfl⟩

theorem mem_pending_of_draining {all : List (Entry Nat)}
    (hk : (x.state n).calls[k]? = some call) (hd : call.isDraining = true)
    (hm : (x.state m).calls[k]? = some (.draining all)) (hnm : n ≤ m) :
    ∀ e ∈ all, e ∈ call.pending := by
  obtain ⟨call', hk', rfl | ⟨-, hsub⟩⟩ := pending_shrinks x hk hd hnm
  · cases hm.symm.trans hk'
  · rw [hm] at hk'
    cases hk'
    exact hsub

/-- One step of a close sends a request to stop. -/
def StopSent (k i c : Nat) (reply : ReplyId) : Prop :=
  (∃ id, x.input i = .drain k id) ∧ .sent c (.stop reply) ∈ x.effects i

variable {x}

theorem StopSent.cases (h : StopSent x k i c reply) :
    ∃ all entry id, (x.state i).calls[k]? = some (.draining all) ∧
      all.find? (·.id == id) = some entry ∧ entry.controller = c ∧
      (x.state (i + 1)).calls[k]? = some (.stopping entry reply
        ((x.state i).now + config.stopTimeout) none (all.filter (·.id != id))) ∧
      AskedOf (x.state (i + 1)) reply c := by
  obtain ⟨⟨id, hinput⟩, hsent⟩ := h
  have hm := move_of_step (x.steps i)
  rw [hinput] at hm
  generalize hf : x.state (i + 1) = f' at hm
  generalize x.effects i = effects at hm hsent
  cases hm with
  | turned k a old new f₁ effects hk ht =>
    cases ht with
    | stopSent id all entry he ho =>
      cases List.mem_singleton.1 hsent
      refine ⟨all, entry, id, hk, he, rfl, ?_, ?_⟩
      · have hconfig : (x.state i).config = config := config_of_run (x.run i)
        refine (List.getElem?_set_self (List.getElem?_eq_some_iff.1 hk).1).trans ?_
        rw [hconfig]
      · exact askedOf_of_stopSent (books_of_run (x.run i)) rfl rfl
    | skipped => cases hsent

theorem AskedOf.stays (h : AskedOf (x.state n) reply c) (hnm : n ≤ m) :
    AskedOf (x.state m) reply c := by
  refine Execution.stays (P := fun i => AskedOf (x.state i) reply c) h hnm ?_
  intro i _ hi
  exact hi.move (move_of_step (x.steps i))

/-- A close that waits for a machine and drains later on has got an answer from the machine, or has
waited for as long as it may. -/
theorem answered_or_overdue {entry : Entry Nat} {deadline : Instant} {rest all : List (Entry Nat)}
    (hn : (x.state n).calls[k]? = some (.stopping entry reply deadline none rest))
    (hasked : AskedOf (x.state n) reply c)
    (hm : (x.state m).calls[k]? = some (.draining all)) (hnm : n ≤ m) :
    (∃ i answer, n ≤ i ∧ i < m ∧ .controller c (.answer reply answer) ∈ x.effects i) ∨
      deadline ≤ (x.state m).now := by
  -- The last step for which it waits is its own.
  obtain ⟨l, hnl, hlm, hwaits, hlast⟩ := Execution.exists_last
    (P := fun i => ∃ answer,
      (x.state i).calls[k]? = some (.stopping entry reply deadline answer rest))
    ⟨none, hn⟩ (by rintro ⟨answer, h⟩; cases hm.symm.trans h) hnm
  obtain ⟨answer, hl⟩ := hwaits l hnl (Nat.le_refl l)
  have hturn : ∃ new f₁, Turn (x.state l) k (x.input l) (.stopping entry reply deadline answer rest)
      new f₁ (x.effects l) ∧ (x.state (l + 1)).calls[k]? = some new := by
    rcases call_cases (move_of_step (x.steps l)) hl with ⟨new, f₁, turn, -, hnew⟩ | h | ⟨made, h, -⟩
    · exact ⟨new, f₁, turn, hnew⟩
    · cases h
    · rw [Call.deliverAll_stopping] at h
      exact absurd ⟨_, h⟩ hlast
  obtain ⟨new, f₁, turn, hnew⟩ := hturn
  generalize x.input l = a, x.effects l = effects at turn
  cases turn with
  | overdue entry reply deadline rest hdue =>
    exact .inr (Nat.le_trans hdue (now_le x (Nat.le_of_lt hlm)))
  | abandon =>
    have hgone := call_stays x hnew rfl hlm
    cases hm.symm.trans hgone
  | stopped entry reply deadline given rest =>
    left
    -- The answer has come with a step of a controller.
    obtain ⟨i, hni, hil, hnone, hsome⟩ := Execution.exists_last
      (P := fun i => (x.state i).calls[k]? = some (.stopping entry reply deadline none rest))
      hn (fun h => by cases hl.symm.trans h) hnl
    have hi := hnone i hni (Nat.le_refl i)
    obtain ⟨later, hlater⟩ := hwaits (i + 1) (Nat.le_succ_of_le hni) hil
    rcases call_cases (move_of_step (x.steps i)) hi with ⟨new', f₁', turn, -, hnew'⟩ | h |
      ⟨made, h, hmade⟩
    · rw [hlater] at hnew'
      cases hnew'
      generalize x.input i = a, x.effects i = effects at turn
      cases turn
    · cases h
    · rw [Call.deliverAll_stopping, Option.none_or] at h
      cases hgiven : made.findSome? (answer? reply) with
      | none =>
        rw [hgiven] at h
        exact absurd h hsome
      | some given =>
        obtain ⟨effect, hmem, heffect⟩ := List.exists_of_findSome?_eq_some hgiven
        obtain ⟨c', hc'⟩ := hmade effect hmem
        cases effect with
        | answer reply' answer =>
          simp only [answer?] at heffect
          split at heffect
          · rename_i hreply
            subst hreply
            obtain rfl := (hasked.stays hni).eq_of_answer (books_of_run (x.run i)) hi rfl
              (move_of_step (x.steps i)) hc'
            exact ⟨i, answer, hni, Nat.lt_trans hil hlm, hc'⟩
          · cases heffect
        | _ => cases heffect

theorem StopSent.lt {s : Nat} (h : StopSent x k i c reply) (hs : TakesStock x k s) : s < i := by
  obtain ⟨all, entry, id, hall, -⟩ := h.cases
  apply Nat.lt_of_not_le
  intro his
  obtain ⟨call', hk', rfl | ⟨hd, -⟩⟩ := pending_shrinks x hall rfl his
  · cases hs.call.symm.trans hk'
  · rw [hs.call] at hk'
    cases hk'
    cases hd

/-- Of two machines that a close asks to stop, the second is another one, and is asked only after
the first has answered or its time was up. -/
theorem stops_in_turn (hij : i < j) (hi : StopSent x k i c reply) (hj : StopSent x k j c' reply') :
    c ≠ c' ∧ ((∃ m answer, i < m ∧ m < j ∧ .controller c (.answer reply answer) ∈ x.effects m) ∨
      (x.state i).now + config.stopTimeout ≤ (x.state j).now) := by
  obtain ⟨all, entry, id, hall, hentry, rfl, hnext, hasked⟩ := hi.cases
  obtain ⟨all', entry', id', hall', hentry', rfl, -⟩ := hj.cases
  refine ⟨?_, ?_⟩
  · obtain ⟨s, hsi, hs⟩ := exists_takesStock x hall rfl
    have hmem := mem_pending_of_draining x hs.next rfl hall hsi entry
      (List.mem_of_find?_eq_some hentry)
    have hmem' := mem_pending_of_draining x hs.next rfl hall' (Nat.lt_trans hsi hij) entry'
      (List.mem_of_find?_eq_some hentry')
    -- The second one is left when the close has gone on with the first.
    have hne : entry'.id ≠ entry.id := by
      have hleft := mem_pending_of_draining x hnext rfl hall' hij entry'
        (List.mem_of_find?_eq_some hentry')
      have hid : entry.id = id := by simpa using List.find?_some hentry
      rw [hid]
      simpa using (List.mem_filter.1 hleft).2
    intro heq
    exact hne (id_eq_of_get? (x.run s) (Registry.mem_snapshot.1 hmem')
      (Registry.mem_snapshot.1 hmem) heq.symm)
  · rcases answered_or_overdue hnext hasked hall' hij with ⟨m, answer, him, hmj, ha⟩ | hdue
    · exact .inl ⟨m, answer, him, hmj, ha⟩
    · exact .inr hdue

end Executions

end MachineFleet.Fleet
