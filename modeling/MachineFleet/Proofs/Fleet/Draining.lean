import MachineFleet.Proofs.Fleet.FailedStart
import MachineFleet.Proofs.Fleet.Membership

namespace MachineFleet.Fleet

namespace Call

def left : Call → List (Entry Nat)
  | draining rest => rest
  | stopping entry _ _ _ rest => entry :: rest
  | _ => []

theorem left_deliverAll (effects : List Controller.Effect) (call : Call) :
    (call.deliverAll effects).left = call.left := by
  refine deliverAll_congr left (fun call r answer => ?_) call
  unfold deliver
  split <;> rfl

/-- Whether a call is a close that has taken stock, and that its caller has not given up. -/
def isDraining : Call → Bool
  | draining _ => true
  | stopping .. => true
  | finished .closed => true
  | _ => false

theorem isDraining_deliverAll (effects : List Controller.Effect) (call : Call) :
    (call.deliverAll effects).isDraining = call.isDraining := by
  refine deliverAll_congr isDraining (fun call r answer => ?_) call
  unfold deliver
  split <;> rfl

end Call

section Draining

variable {f f' f₁ : Fleet} {a : Action} {effects : List Effect} {made : List Making} {k : Nat}
  {call call' old new : Call} {known : Nat → Prop}

theorem isDraining_turn (h : Turn f k a old new f₁ effects) (hd : old.isDraining = true) :
    new.isDraining = true ∨ new = .abandoned ∧ a = .abandon k := by
  cases h with
  | abandon => exact .inr ⟨rfl, rfl⟩
  | stopSent | skipped | stopped | overdue | closed => exact .inl rfl
  | _ => cases hd

theorem isDraining_of_turn (h : Turn f k a old new f₁ effects) (hd : new.isDraining = true) :
    old.isDraining = true ∨ old = .snapshotting ∧ a = .proceed k ∧ f₁ = f ∧
      new = .draining f.registry.snapshot := by
  cases h with
  | snapshot => exact .inr ⟨rfl, rfl, rfl, rfl⟩
  | stopSent | skipped | stopped | overdue | closed => exact .inl rfl
  | _ => cases hd

theorem isDraining_move (h : Move f a f' effects) (hk : f.calls[k]? = some call)
    (hd : call.isDraining = true) :
    ∃ call', f'.calls[k]? = some call' ∧
      (call'.isDraining = true ∨ call' = .abandoned ∧ a = .abandon k) := by
  rcases call_cases h hk with ⟨call', f₁, turn, -, hk'⟩ | rfl | ⟨made, hk', -⟩
  · exact ⟨call', hk', isDraining_turn turn hd⟩
  · cases hd
  · refine ⟨_, hk', .inl ?_⟩
    rw [Call.isDraining_deliverAll]
    exact hd

/-- Of the known controllers the registry holds only those that a close has not passed over. -/
def Leaves (known : Nat → Prop) (f : Fleet) (call : Call) : Prop :=
  ∀ id e, f.registry.get? id = some e → known e.controller → ∃ e' ∈ call.left, e'.id = id

theorem mem_left_of_filter {all : List (Entry Nat)} {entry e : Entry Nat} {id : String}
    (he : all.find? (·.id == id) = some entry) (hm : e ∈ all) :
    e.id = entry.id ∨ e ∈ all.filter (·.id != id) := by
  have hid : entry.id = id := by simpa using List.find?_some he
  by_cases heq : e.id = id
  · exact .inl (heq.trans hid.symm)
  · exact .inr (List.mem_filter.2 ⟨hm, by simpa using heq⟩)

theorem Leaves.turn (h : Leaves known f old) (ht : Turn f k a old new f₁ effects)
    (hd : old.isDraining = true) (hd' : new.isDraining = true) : Leaves known f₁ new := by
  -- Whatever a close has passed over it removes.
  have hremove {entry : Entry Nat} {rest : List (Entry Nat)} {id : String} {e : Entry Nat}
      (hleft : ∃ e' ∈ entry :: rest, e'.id = id)
      (he : (f.registry.remove entry.id).get? id = some e) : ∃ e' ∈ rest, e'.id = id := by
    obtain ⟨e', hm, rfl⟩ := hleft
    rcases List.mem_cons.1 hm with rfl | hm
    · exact absurd rfl (get?_remove_some he).1
    · exact ⟨e', hm, rfl⟩
  intro id e he hknown
  cases ht with
  | stopSent id' all entry hfound ho =>
    obtain ⟨e', hm, rfl⟩ := h id e he hknown
    rcases mem_left_of_filter hfound hm with heq | hm
    · exact ⟨entry, List.mem_cons_self .., heq.symm⟩
    · exact ⟨e', List.mem_cons_of_mem _ hm, rfl⟩
  | skipped id' all entry hfound ho =>
    obtain ⟨hne, he⟩ := get?_remove_some he
    obtain ⟨e', hm, rfl⟩ := h id e he hknown
    rcases mem_left_of_filter hfound hm with heq | hm
    · exact absurd heq hne
    · exact ⟨e', hm, rfl⟩
  | stopped entry reply deadline answer rest =>
    exact hremove (h id e (get?_remove_some he).2 hknown) he
  | overdue entry reply deadline rest hdue =>
    exact hremove (h id e (get?_remove_some he).2 hknown) he
  | closed => exact h id e he hknown
  | abandon => cases hd'
  | _ => cases hd

/-- As long as no known machine is registered anew, none stays behind. -/
theorem Leaves.move (h : Leaves known f call) (hm : Move f a f' effects)
    (hk : f.calls[k]? = some call) (hk' : f'.calls[k]? = some call')
    (hd : call.isDraining = true) (hd' : call'.isDraining = true)
    (hn : ∀ (j c : Nat) (machine : Metadata), f.calls[j]? = some (.registering c machine) →
      ¬ known c) : Leaves known f' call' := by
  rcases call_cases hm hk with ⟨new, f₁, turn, rfl, hnew⟩ | rfl | ⟨made, hnew, -⟩
  · rw [hk'] at hnew
    cases hnew
    have hturn : Leaves known f₁ call' := h.turn turn hd hd'
    exact hturn
  · cases hd
  · rw [hk'] at hnew
    cases hnew
    intro id e he hknown
    rw [Call.left_deliverAll]
    rcases get?_move hm he with ⟨e', he', hc, -⟩ | ⟨j, machine, hj, -⟩
    · exact h id e' he' (by rwa [hc])
    · exact absurd hknown (hn j e.controller machine hj)

end Draining

section Executions

variable {config : FleetConfig} (x : Execution step (start config)) {n m k c : Nat} {call : Call}
  {controller : Controller}

theorem registered_stays (h : Registered (makings (x.history n)) (x.state n) c) (hm : n ≤ m) :
    Registered (makings (x.history m)) (x.state m) c := by
  refine Execution.stays (P := fun i => Registered (makings (x.history i)) (x.state i) c) h hm ?_
  intro i _ hi
  rw [Execution.history, makings_snoc]
  exact hi.move (move_of_step (x.steps i))

/-- In this step a close takes stock: it finds the machines that are registered. -/
structure TakesStock (k s : Nat) : Prop where
  input : x.input s = .proceed k
  call : (x.state s).calls[k]? = some .snapshotting
  state : x.state (s + 1) = (x.state s).setCall k (.draining (x.state s).registry.snapshot)

theorem TakesStock.next {x : Execution step (start config)} {s : Nat} (h : TakesStock x k s) :
    (x.state (s + 1)).calls[k]? = some (.draining (x.state s).registry.snapshot) := by
  rw [h.state, getElem?_setCall h.call, if_pos rfl]

theorem TakesStock.registry {x : Execution step (start config)} {s : Nat}
    (h : TakesStock x k s) : (x.state (s + 1)).registry = (x.state s).registry := by
  rw [h.state]
  rfl

theorem exists_takesStock (hk : (x.state n).calls[k]? = some call) (hd : call.isDraining = true) :
    ∃ s < n, TakesStock x k s := by
  have hstart : ¬ ∃ call, (x.state 0).calls[k]? = some call ∧ call.isDraining = true := by
    rintro ⟨call, hcall, -⟩
    rw [x.starts] at hcall
    cases hcall
  -- It did not drain at the start, so one step has made the difference.
  obtain ⟨s, -, hsn, hbefore, hafter⟩ := Execution.exists_last
    (P := fun i => ¬ ∃ call, (x.state i).calls[k]? = some call ∧ call.isDraining = true)
    hstart (fun h => h ⟨call, hk, hd⟩) (Nat.zero_le n)
  obtain ⟨call', hk', hd'⟩ := Classical.not_not.1 hafter
  have hn := hbefore s (Nat.zero_le s) (Nat.le_refl s)
  refine ⟨s, hsn, ?_⟩
  rcases call_of_move (move_of_step (x.steps s)) hk' with ⟨r, rfl⟩ | ⟨c, reply, deadline, rfl⟩ |
    ⟨old, f₁, hold, turn, hstate⟩ | ⟨old, made, hold, rfl⟩
  · cases r <;> cases hd'
  · cases hd'
  · rcases isDraining_of_turn turn hd' with hd | ⟨rfl, ha, rfl, rfl⟩
    · exact absurd ⟨old, hold, hd⟩ hn
    · exact ⟨ha, hold, hstate⟩
  · rw [Call.isDraining_deliverAll] at hd'
    exact absurd ⟨old, hold, hd'⟩ hn

def ticking (f : Fleet) : Execution step f where
  state m := { f with now := f.now + m }
  input _ := .elapse 1
  effects _ := []
  starts := rfl
  steps _ := rfl

theorem exists_ticking {inputs : List Action} {past : List Episode} {f : Fleet}
    (hr : replay step (start config) inputs = some (past, f)) :
    ∃ x : Execution step (start config),
      (∀ i < past.length, past[i]? = some ⟨x.state i, x.input i, x.effects i⟩) ∧
      (∀ i a, inputs[i]? = some a → x.input i = a) ∧
      ∀ i ≥ past.length, x.state i = { f with now := f.now + (i - past.length) } ∧
        x.input i = .elapse 1 := by
  obtain ⟨x, hx, hrest⟩ := Execution.exists_of_run (Run.of_replay hr) (ticking f)
  have hpast (i : Nat) (hi : i < past.length) :
      past[i]? = some ⟨x.state i, x.input i, x.effects i⟩ := by
    have hget := x.getElem?_history hi
    rwa [hx] at hget
  refine ⟨x, hpast, ?_, ?_⟩
  · intro i a ha
    rw [← map_input_of_replay hr, List.getElem?_map] at ha
    obtain ⟨y, hy, rfl⟩ := Option.map_eq_some_iff.1 ha
    rw [hpast i (List.getElem?_eq_some_iff.1 hy).1] at hy
    cases hy
    rfl
  · intro i hi
    obtain ⟨d, rfl⟩ := Nat.exists_eq_add_of_le hi
    obtain ⟨hstate, hinput, -⟩ := hrest d
    rw [hstate, hinput, Nat.add_sub_cancel_left]
    exact ⟨rfl, rfl⟩

end Executions

end MachineFleet.Fleet
