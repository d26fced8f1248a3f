import MachineFleet.Proofs.Fleet.Makers
import MachineFleet.Proofs.Fleet.Registry
import MachineFleet.Proofs.Lifecycle.Phases

namespace MachineFleet.Fleet

def Call.lists (c : Nat) : Call → Bool
  | relaying held => held.contains c
  | draining rest => rest.any (·.controller == c)
  | stopping entry _ _ _ rest => entry.controller == c || rest.any (·.controller == c)
  | _ => false

@[simp] theorem Call.lists_deliverAll (c : Nat) (effects : List Controller.Effect) (call : Call) :
    (call.deliverAll effects).lists c = call.lists c := by
  refine deliverAll_congr (lists c) (fun call r answer => ?_) call
  unfold deliver
  split <;> rfl

theorem Call.holds_eq (c : Nat) (call : Call) :
    call.holds c = (call.own? == some c || call.lists c) := by
  cases call <;> simp [holds, own?, lists]

def Call.hasRegistered : Call → Bool
  | announcing .. => true
  | leaving _ (.ok _) => true
  | finished (.started (.ok _)) => true
  | _ => false

theorem Call.hasRegistered_deliverAll (effects : List Controller.Effect) (call : Call) :
    (call.deliverAll effects).hasRegistered = call.hasRegistered := by
  refine deliverAll_congr hasRegistered (fun call r answer => ?_) call
  unfold deliver
  split <;> rfl

def Call.hasFailed : Call → Bool
  | leaving _ (.error _) => true
  | finished (.started (.error _)) => true
  | _ => false

theorem Call.hasFailed_deliverAll (effects : List Controller.Effect) (call : Call) :
    (call.deliverAll effects).hasFailed = call.hasFailed := by
  refine deliverAll_congr hasFailed (fun call r answer => ?_) call
  unfold deliver
  split <;> rfl

/-- Whether the registry knows a controller, or a call has found it there. -/
def Listed (f : Fleet) (c : Nat) : Prop :=
  (∃ id e, f.registry.get? id = some e ∧ e.controller = c) ∨
    ∃ call ∈ f.calls, Call.lists c call = true

theorem holds_iff {f : Fleet} {c : Nat} :
    f.holds c = true ↔ Listed f c ∨ ∃ call ∈ f.calls, Call.own? call = some c := by
  have hentry : f.registry.snapshot.any (·.controller == c) = true ↔
      ∃ id e, f.registry.get? id = some e ∧ e.controller = c := by
    simp only [List.any_eq_true, beq_iff_eq]
    constructor
    · rintro ⟨e, he, hc⟩
      exact ⟨e.id, e, Registry.mem_snapshot.1 he, hc⟩
    · rintro ⟨id, e, he, hc⟩
      exact ⟨e, Registry.mem_snapshot_of_get? he, hc⟩
  simp only [holds, Bool.or_eq_true, hentry, List.any_eq_true, Call.holds_eq, beq_iff_eq, Listed]
  constructor
  · rintro (h | ⟨call, hm, h | h⟩)
    · exact .inl (.inl h)
    · exact .inr ⟨call, hm, h⟩
    · exact .inl (.inr ⟨call, hm, h⟩)
  · rintro ((h | ⟨call, hm, h⟩) | ⟨call, hm, h⟩)
    · exact .inl h
    · exact .inr ⟨call, hm, .inr h⟩
    · exact .inr ⟨call, hm, .inl h⟩

section Listing

variable {f f' f₁ : Fleet} {a : Action} {effects : List Effect} {made : List Making} {k c : Nat}
  {old new : Call}

theorem hasRegistered_turn (h : Turn f k a old new f₁ effects) (hr : old.hasRegistered = true) :
    new.hasRegistered = true := by
  cases h with
  | leave c result => cases result <;> exact hr
  | abandon call hs => cases old <;> first | (cases hs; done) | cases hr
  | _ => first | rfl | cases hr

theorem hasFailed_turn (h : Turn f k a old new f₁ effects) (hr : old.hasFailed = true) :
    new.hasFailed = true := by
  cases h with
  | leave c result => cases result <;> exact hr
  | abandon call hs => cases old <;> first | (cases hs; done) | cases hr
  | _ => first | rfl | cases hr

theorem hasRegistered_of_turn (h : Turn f k a old new f₁ effects)
    (hr : new.hasRegistered = true) :
    old.hasRegistered = true ∨ ∃ c machine registry, old = .registering c machine ∧
      new = .announcing c machine ∧ f₁ = { f with registry } ∧
      f.registry.add machine.id c (!f.isOpen c) machine.address = .ok registry := by
  cases h with
  | registered c machine registry ha => exact .inr ⟨c, machine, registry, rfl, rfl, rfl, ha⟩
  | announced => exact .inl rfl
  | leave c result => cases result <;> exact .inl hr
  | _ => cases hr

theorem get?_setReady_some {r : Registry Nat} {id id' : String} {ready : Bool} {e : Entry Nat}
    (h : (r.setReady id' ready).get? id = some e) :
    ∃ e', r.get? id = some e' ∧ e'.controller = e.controller ∧ e'.address = e.address := by
  rw [Registry.get?_setReady] at h
  split at h
  · obtain ⟨e', he, rfl⟩ := Option.map_eq_some_iff.1 h
    exact ⟨e', he, rfl, rfl⟩
  · exact ⟨e, h, rfl, rfl⟩

theorem get?_remove_some {r : Registry Nat} {id id' : String} {e : Entry Nat}
    (h : (r.remove id').get? id = some e) : id ≠ id' ∧ r.get? id = some e := by
  rw [Registry.get?_remove] at h
  split at h
  · cases h
  · rename_i hne
    exact ⟨hne, h⟩

theorem get?_applyEvent_some {r : Registry Nat} {id : String} {event : FleetEvent} {e : Entry Nat}
    (h : (applyEvent r event).get? id = some e) :
    ∃ e', r.get? id = some e' ∧ e'.controller = e.controller ∧ e'.address = e.address := by
  cases event with
  | stopped id' => exact ⟨e, (get?_remove_some h).2, rfl, rfl⟩
  | ready machine => exact get?_setReady_some h
  | unready machine => exact get?_setReady_some h

theorem get?_turn {id : String} {e : Entry Nat} (h : Turn f k a old new f₁ effects)
    (he : f₁.registry.get? id = some e) :
    f.registry.get? id = some e ∨ ∃ machine, old = .registering e.controller machine ∧
      new = .announcing e.controller machine ∧ f.isOpen e.controller = true ∧ id = machine.id ∧
      e = ⟨id, e.controller, machine.address, false⟩ ∧ f₁.controllers = f.controllers := by
  cases h with
  | registered c machine registry ha =>
    obtain ⟨-, ho, -, rfl⟩ := Registry.eq_put_of_add ha
    rw [Registry.get?_put] at he
    split at he
    · rename_i hid
      cases he
      exact .inr ⟨machine, rfl, rfl, by simpa using ho, hid, by rw [hid], rfl⟩
    · exact .inl he
  | skipped => exact .inl (get?_remove_some he).2
  | stopped => exact .inl (get?_remove_some he).2
  | overdue => exact .inl (get?_remove_some he).2
  | _ => exact .inl he

theorem lists_turn (h : Turn f k a old new f₁ effects) (hl : new.lists c = true) :
    old.lists c = true ∨ ∃ id e, f.registry.get? id = some e ∧ e.controller = c := by
  have hsnapshot {e : Entry Nat} (he : e ∈ f.registry.snapshot) (hc : e.controller = c) :
      ∃ id e, f.registry.get? id = some e ∧ e.controller = c :=
    ⟨e.id, e, Registry.mem_snapshot.1 he, hc⟩
  cases h with
  | relay request entry pick he =>
    simp only [Call.lists, List.contains_eq_mem, List.mem_map, decide_eq_true_eq] at hl
    obtain ⟨e, he, hc⟩ := hl
    exact .inr (hsnapshot (List.mem_filter.1 he).1 hc)
  | snapshot =>
    simp only [Call.lists, List.any_eq_true, beq_iff_eq] at hl
    obtain ⟨e, he, hc⟩ := hl
    exact .inr (hsnapshot he hc)
  | stopSent id all entry he ho =>
    have hm := List.mem_of_find?_eq_some he
    simp only [Call.lists, Bool.or_eq_true, List.any_eq_true, beq_iff_eq, List.mem_filter] at hl ⊢
    rcases hl with hc | ⟨e, ⟨he, -⟩, hc⟩
    · exact .inl ⟨entry, hm, hc⟩
    · exact .inl ⟨e, he, hc⟩
  | skipped id all entry he ho =>
    simp only [Call.lists, List.any_eq_true, beq_iff_eq, List.mem_filter] at hl ⊢
    obtain ⟨e, ⟨he, -⟩, hc⟩ := hl
    exact .inl ⟨e, he, hc⟩
  | stopped =>
    simp only [Call.lists, Bool.or_eq_true] at hl ⊢
    exact .inl (.inr hl)
  | overdue =>
    simp only [Call.lists, Bool.or_eq_true] at hl ⊢
    exact .inl (.inr hl)
  | _ => cases hl

theorem listed_move (h : Move f a f' effects) (hl : Listed f' c) :
    Listed f c ∨ ∃ (k : Nat) (machine : Metadata), f.calls[k]? = some (.registering c machine) ∧
      f'.calls[k]? = some (.announcing c machine) := by
  cases h with
  | request r he =>
    rcases hl with hl | ⟨call, hm, hl⟩
    · exact .inl (.inl hl)
    · rcases List.mem_append.1 hm with hm | hm
      · exact .inl (.inr ⟨call, hm, hl⟩)
      · obtain rfl := List.mem_singleton.1 hm
        cases r <;> cases hl
  | created k hk =>
    rcases hl with hl | ⟨call, hm, hl⟩
    · exact .inl (.inl hl)
    · rcases List.mem_or_eq_of_mem_set hm with hm | rfl
      · exact .inl (.inr ⟨call, hm, hl⟩)
      · cases hl
  | turned k a old new f₁ effects hk ht =>
    have hk₁ : f₁.calls[k]? = some old := by rw [calls_turn ht, hk]
    rcases hl with ⟨id, e, he, rfl⟩ | ⟨call, hm, hl⟩
    · rcases get?_turn ht he with he | ⟨machine, rfl, rfl, -⟩
      · exact .inl (.inl ⟨id, e, he, rfl⟩)
      · exact .inr ⟨k, machine, hk, by rw [getElem?_setCall hk₁, if_pos rfl]⟩
    · rcases List.mem_or_eq_of_mem_set hm with hm | rfl
      · rw [calls_turn ht] at hm
        exact .inl (.inr ⟨call, hm, hl⟩)
      · rcases lists_turn ht hl with hl | hl
        · exact .inl (.inr ⟨old, List.mem_of_getElem? hk, hl⟩)
        · exact .inl (.inl hl)
  | worked c' a old new effects hc hm =>
    rcases hl with hl | ⟨call, hm, hl⟩
    · exact .inl (.inl hl)
    · obtain ⟨before, hb, rfl⟩ := List.mem_map.1 hm
      exact .inl (.inr ⟨before, hb, by simpa using hl⟩)
  | handled event rest hlo he =>
    rcases hl with ⟨id, e, he, rfl⟩ | hl
    · obtain ⟨e', he, hc, -⟩ := get?_applyEvent_some he
      exact .inl (.inl ⟨id, e', he, hc⟩)
    · exact .inl (.inr hl)
  | removed id' =>
    rcases hl with ⟨id, e, he, rfl⟩ | hl
    · exact .inl (.inl ⟨id, e, (get?_remove_some he).2, rfl⟩)
    · exact .inl (.inr hl)
  | readied id' ready =>
    rcases hl with ⟨id, e, he, rfl⟩ | hl
    · obtain ⟨e', he, hc, -⟩ := get?_setReady_some he
      exact .inl (.inl ⟨id, e', he, hc⟩)
    · exact .inl (.inr hl)
  | vanished =>
    rcases hl with ⟨id, e, he, rfl⟩ | hl
    · cases he
    · exact .inl (.inr hl)
  | _ => exact .inl hl

def MakerIs (made : List Making) (f : Fleet) (c : Nat) (p : Call → Bool) : Prop :=
  ∃ mk call, made[c]? = some mk ∧ f.calls[mk.call]? = some call ∧ p call = true

theorem MakerIs.move {p : Call → Bool} (h : MakerIs made f c p) (hm : Move f a f' effects)
    (hc : p .creating = false)
    (ht : ∀ {k a old new f₁ effects}, Turn f k a old new f₁ effects → p old = true → p new = true)
    (hd : ∀ call effects, p (Call.deliverAll effects call) = p call) :
    MakerIs (made ++ (making? f a).toList) f' c p := by
  obtain ⟨mk, call, hmk, hcall, hp⟩ := h
  obtain ⟨call', hcall', hp'⟩ := call_move (P := (p · = true)) hm hcall hp (by simp [hc]) ht
    (fun call effects h => by rwa [hd])
  refine ⟨mk, call', ?_, hcall', hp'⟩
  rw [List.getElem?_append_left (List.getElem?_eq_some_iff.1 hmk).1, hmk]

/-- The machine of a controller was put into the registry at some time. -/
def Registered (made : List Making) (f : Fleet) (c : Nat) : Prop :=
  MakerIs made f c Call.hasRegistered

theorem Registered.move (h : Registered made f c) (hm : Move f a f' effects) :
    Registered (made ++ (making? f a).toList) f' c :=
  MakerIs.move h hm rfl hasRegistered_turn fun call e => Call.hasRegistered_deliverAll e call

def Listing (made : List Making) (f : Fleet) : Prop := ∀ c, Listed f c → Registered made f c

theorem Listing.move (h : Listing made f) (hk : Makers made f) (hm : Move f a f' effects) :
    Listing (made ++ (making? f a).toList) f' := by
  intro c hl
  rcases listed_move hm hl with hl | ⟨k, machine, hr, ha⟩
  · exact (h c hl).move hm
  · obtain ⟨mk, hmk, rfl⟩ := hk.own k _ c hr rfl
    refine ⟨mk, _, ?_, ha, rfl⟩
    rw [List.getElem?_append_left (List.getElem?_eq_some_iff.1 hmk).1, hmk]

theorem Call.hasFailed_eq_false {call : Call} (h : call.hasRegistered = true) :
    call.hasFailed = false := by
  cases call with
  | leaving c result => cases result <;> first | rfl | cases h
  | finished outcome =>
    cases outcome with
    | started result => cases result <;> first | rfl | cases h
    | _ => rfl
  | _ => rfl

theorem not_hasFailed_of_registered (hr : Registered made f c) :
    ¬ MakerIs made f c Call.hasFailed := by
  rintro ⟨mk, call, hmk, hcall, hf⟩
  obtain ⟨mk', call', hmk', hcall', hr⟩ := hr
  rw [hmk] at hmk'
  cases hmk'
  rw [hcall] at hcall'
  cases hcall'
  cases hf.symm.trans (Call.hasFailed_eq_false hr)

end Listing

/-- What a controller does while the call that has made it stands where it stands. -/
def Bond (mk : Making) (c : Nat) (controller : Controller) : Call → Prop
  | .awaiting c' reply deadline answer =>
    c' = c ∧ reply = mk.reply ∧ deadline = mk.deadline ∧
      match answer with
      | none => controller.Fresh mk.reply
      | some (.started machine) => controller.Offers machine
      | some (.failed _) => controller.phase = .terminated
      | some _ => False
  | .expiring c' reply => c' = c ∧ reply = mk.reply
  | .registering c' machine => c' = c ∧ controller.Offers machine
  | .announcing c' _ => c' = c
  | .retiring c' _ => c' = c
  | .leaving c' _ => c' = c
  | .finished (.started _) => True
  | .abandoned => True
  | _ => False

def Bonds (made : List Making) (f : Fleet) : Prop :=
  ∀ c mk controller, made[c]? = some mk → f.controllers[c]? = some controller →
    ∃ call : Call, f.calls[mk.call]? = some call ∧ Bond mk c controller call

/-- All that is known of the calls and the controllers that they make. -/
structure Books (made : List Making) (f : Fleet) : Prop where
  makers : Makers made f
  numbers : Numbers made f
  listing : Listing made f
  bonds : Bonds made f
  begun : ∀ (c : Nat) (controller : Controller), f.controllers[c]? = some controller →
    Registered made f c → controller.phase.HasBegun
  retired : ∀ (c : Nat) (controller : Controller), f.controllers[c]? = some controller →
    .retire ∈ controller.mailbox → MakerIs made f c Call.hasFailed

section Bonds

variable {f f' f₁ : Fleet} {a : Action} {effects : List Effect} {made : List Making} {k c : Nat}
  {old new call : Call} {mk : Making} {controller : Controller}

theorem Bond.of_hasRegistered {controller' : Controller} (h : Bond mk c controller call)
    (hr : call.hasRegistered = true) : Bond mk c controller' call := by
  cases call with
  | announcing => exact h
  | leaving => exact h
  | finished outcome =>
    cases outcome with
    | started => trivial
    | _ => cases h
  | _ => cases hr

theorem Bond.turn (h : Bond mk c controller old) (ht : Turn f k a old new f₁ effects) :
    Bond mk c controller new := by
  cases ht with
  | takeStarted => exact ⟨h.1, h.2.2.2⟩
  | takeFailed => trivial
  | takeNothing => trivial
  | expire => exact ⟨h.1, h.2.1⟩
  | giveUp => exact h.1
  | refused => exact h.1
  | registered => exact h.1
  | announced => exact h
  | retired => exact h
  | leave => trivial
  | abandon => trivial
  | createFailed => trivial
  | _ => cases h

inductive Posting (f : Fleet) (c : Nat) : Call → Call → Message → Prop where
  | registered (machine : Metadata) :
      Posting f c (.announcing c machine) (.leaving c (.ok machine)) .registered
  | retire (e : Error) : Posting f c (.retiring c e) (.leaving c (.error e)) .retire
  | stop (all : List (Entry Nat)) (new : Call) (entry : Entry Nat) (he : entry ∈ all)
      (hc : entry.controller = c) : Posting f c (.draining all) new (.stop f.nextReply)

theorem controller_turn {controller' : Controller} (h : Turn f k a old new f₁ effects)
    (hc : f₁.controllers[c]? = some controller') :
    ∃ controller, f.controllers[c]? = some controller ∧
      (controller' = controller ∨
        ∃ m, controller' = posted controller m ∧ Posting f c old new m) := by
  have hpost {g : Fleet} {i : Nat} {m : Message} (hg : g.controllers = f.controllers)
      (hp : c = i → Posting f c old new m)
      (hc : (g.post i m).controllers[c]? = some controller') :
      ∃ controller, f.controllers[c]? = some controller ∧
        (controller' = controller ∨
          ∃ m, controller' = posted controller m ∧ Posting f c old new m) := by
    rw [getElem?_post, hg] at hc
    obtain ⟨controller, hf, rfl⟩ := Option.map_eq_some_iff.1 hc
    refine ⟨controller, hf, ?_⟩
    split
    · rename_i hi
      exact .inr ⟨m, rfl, hp hi.symm⟩
    · exact .inl rfl
  cases h with
  | announced c' machine =>
    refine hpost rfl (fun hi => ?_) hc
    exact hi ▸ .registered machine
  | retired c' e =>
    refine hpost rfl (fun hi => ?_) hc
    exact hi ▸ .retire e
  | stopSent id all entry he ho =>
    refine hpost (g := { f with nextReply := f.nextReply + 1 }) rfl (fun hi => ?_) hc
    exact .stop all _ entry (List.mem_of_find?_eq_some he) hi.symm
  | _ => exact ⟨controller', hc, .inl rfl⟩

theorem controller_move {controller' : Controller} (h : Move f a f' effects)
    (hc : f'.controllers[c]? = some controller') :
    (∃ controller, f.controllers[c]? = some controller ∧
      (controller' = controller ∨
        (∃ (k : Nat) (old new : Call) (m : Message), f.calls[k]? = some old ∧
          f'.calls[k]? = some new ∧ Posting f c old new m ∧ controller' = posted controller m) ∨
        ∃ did made, a = .controller c did ∧ f' = f.worked c controller' made ∧
          Controller.Move (f.surroundings c) controller did controller' made)) ∨
    c = f.controllers.length ∧ controller' =
      { Controller.new f.config.probe f.config.machine.shutdownTimeout with
        mailbox := [.start f.nextReply] } := by
  cases h with
  | created k hk =>
    rcases getElem?_concat_eq_some.1 hc with hf | ⟨hl, rfl⟩
    · exact .inl ⟨controller', hf, .inl rfl⟩
    · exact .inr ⟨hl, rfl⟩
  | turned k a old new f₁ effects hk ht =>
    have hk₁ : f₁.calls[k]? = some old := by rw [calls_turn ht, hk]
    obtain ⟨controller, hf, rfl | ⟨m, rfl, hp⟩⟩ := controller_turn ht hc
    · exact .inl ⟨controller', hf, .inl rfl⟩
    · refine .inl ⟨controller, hf, .inr (.inl ⟨k, old, new, m, hk, ?_, hp, rfl⟩)⟩
      rw [getElem?_setCall hk₁, if_pos rfl]
  | worked i did old new made hi hm =>
    rw [controllers_worked hi] at hc
    split at hc
    · rename_i he
      subst he
      cases hc
      exact .inl ⟨old, hi, .inr (.inr ⟨did, made, rfl, rfl, hm⟩)⟩
    · exact .inl ⟨controller', hc, .inl rfl⟩
  | _ => exact .inl ⟨controller', hc, .inl rfl⟩

/-- Controllers stay, and only go forward. -/
theorem controller_stays (h : Move f a f' effects) (hc : f.controllers[c]? = some controller) :
    ∃ controller', f'.controllers[c]? = some controller' ∧
      controller.phase.rank ≤ controller'.phase.rank := by
  have hlt : c < f.controllers.length := (List.getElem?_eq_some_iff.1 hc).1
  have hlen : f.controllers.length ≤ f'.controllers.length := by
    cases h with
    | created => simp
    | turned k a old new f₁ effects hk ht => exact Nat.le_of_eq (length_controllers_turn ht).symm
    | worked => simp [Fleet.worked]
    | _ => exact Nat.le_refl _
  have hc' := List.getElem?_eq_getElem (Nat.lt_of_lt_of_le hlt hlen)
  refine ⟨_, hc', ?_⟩
  rcases controller_move h hc' with ⟨before, hb, hch⟩ | ⟨rfl, -⟩
  · rw [hc] at hb
    cases hb
    rcases hch with hch | ⟨k, old, new, m, -, -, -, hch⟩ | ⟨did, made, -, -, hm⟩
    · exact Nat.le_of_eq (by rw [hch])
    · exact Nat.le_of_eq (by rw [hch, posted_phase])
    · exact Controller.rank_move hm
  · exact absurd hlt (Nat.lt_irrefl _)

theorem Books.turn (b : Books made f) (ht : Turn f k a old new f₁ effects)
    (hk : f.calls[k]? = some old) : Bonds made (f₁.setCall k new) := by
  intro c mk controller' hmk hc'
  obtain ⟨controller, hc, hpost⟩ := controller_turn ht hc'
  obtain ⟨call, hcall, hb⟩ := b.bonds c mk controller hmk hc
  have hk₁ : f₁.calls[k]? = some old := by rw [calls_turn ht, hk]
  rw [getElem?_setCall hk₁, calls_turn ht]
  -- Either this call has made the controller, or it has to be shown that it does not write to it.
  by_cases he : k = mk.call
  · subst he
    rw [hk] at hcall
    cases hcall
    refine ⟨new, if_pos rfl, ?_⟩
    have hn := hb.turn ht
    rcases hpost with rfl | ⟨m, rfl, hpost⟩
    · exact hn
    · cases hpost with
      | registered => rfl
      | retire => rfl
      | stop => cases hb
  · refine ⟨call, by rw [if_neg he, hcall], ?_⟩
    rcases hpost with rfl | ⟨m, rfl, hpost⟩
    · exact hb
    · -- Only the call of a controller writes to it as long as it is not registered.
      have hown (h : old.own? = some c) : False := by
        obtain ⟨mk', hmk', hk'⟩ := b.makers.own k old c hk h
        rw [hmk] at hmk'
        cases hmk'
        exact he hk'.symm
      cases hpost with
      | registered => exact (hown rfl).elim
      | retire => exact (hown rfl).elim
      | stop all _ entry hm hc =>
        have hl : (Call.draining all).lists c = true := by
          simpa [Call.lists] using ⟨entry, hm, hc⟩
        obtain ⟨mk', call', hmk', hcall', hr⟩ :=
          b.listing c (.inr ⟨_, List.mem_of_getElem? hk, hl⟩)
        rw [hmk] at hmk'
        cases hmk'
        rw [hcall] at hcall'
        cases hcall'
        exact hb.of_hasRegistered hr

/-- A controller answers only the call that has made it. -/
theorem Books.findSome?_answer? (b : Books made f) {i : Nat} {other new : Controller}
    {a : Controller.Action} {effects : List Controller.Effect} (hmk : made[c]? = some mk)
    (hi : f.controllers[i]? = some other)
    (hm : Controller.Move (f.surroundings i) other a new effects) (hne : i ≠ c) :
    effects.findSome? (answer? mk.reply) = none := by
  rw [List.findSome?_eq_none_iff]
  intro e he
  cases e with
  | answer reply answer =>
    rw [answer?, if_neg]
    rintro rfl
    -- An answer is owed to whoever has sent the request, and no number is used twice.
    obtain ⟨m, hr, ho⟩ := Controller.owes_of_answer hm he
    have hs := b.numbers.asked i other m hi ho
    cases m with
    | start reply =>
      cases hr
      obtain ⟨mk', hmk', hr⟩ := hs
      exact hne (index_eq_of_nodup_map b.numbers.distinct hmk' hmk hr)
    | stop reply =>
      cases hr
      exact hs.2 mk (List.mem_of_getElem? hmk) rfl
    | _ => cases hr
  | _ => rfl

theorem held_of_own (hcall : f.calls[k]? = some call) (ho : call.own? = some c) :
    (f.surroundings c).held = true :=
  holds_iff.2 (.inr ⟨call, List.mem_of_getElem? hcall, ho⟩)

theorem Bond.worked {new : Controller} {a : Controller.Action}
    {effects : List Controller.Effect} (hb : Bond mk c controller call)
    (hcall : f.calls[mk.call]? = some call)
    (hm : Controller.Move (f.surroundings c) controller a new effects) :
    Bond mk c new (call.deliverAll effects) := by
  cases call with
  | awaiting c' reply deadline answer =>
    obtain ⟨rfl, rfl, rfl, hb⟩ := hb
    rw [Call.deliverAll_awaiting]
    refine ⟨rfl, rfl, rfl, ?_⟩
    cases answer with
    | none =>
      rw [Option.none_or]
      rcases Controller.fresh_move hm hb with ⟨hf, rfl⟩ | ⟨e, -, rfl, hp⟩ |
        ⟨machine, -, ⟨-, rfl, ho⟩ | ⟨hw, -⟩⟩
      · exact hf
      · simpa [answer?] using hp
      · simpa [answer?] using ho
      -- The call still waits, so its answer does not go astray.
      · have ha : (f.surroundings c').awaits mk.reply = true :=
          List.any_eq_true.2 ⟨_, List.mem_of_getElem? hcall, by simp [Call.awaits]⟩
        cases hw.symm.trans ha
    | some answer =>
      rw [Option.some_or]
      cases answer with
      | started machine => exact Controller.offers_move hm hb (held_of_own hcall rfl)
      | failed e => exact Controller.terminated_move hm hb
      | _ => exact hb
  | registering c' machine =>
    obtain ⟨rfl, hb⟩ := hb
    rw [Call.deliverAll_of_deliver fun _ _ => rfl]
    exact ⟨rfl, Controller.offers_move hm hb (held_of_own hcall rfl)⟩
  | finished outcome =>
    rw [Call.deliverAll_of_deliver fun _ _ => rfl]
    cases outcome <;> exact hb
  | stopping => cases hb
  | _ =>
    rw [Call.deliverAll_of_deliver fun _ _ => rfl]
    exact hb

theorem Books.deliverAll_of_other (b : Books made f) {i : Nat} {other new : Controller}
    {a : Controller.Action} {effects : List Controller.Effect} (hmk : made[c]? = some mk)
    (hb : Bond mk c controller call) (hi : f.controllers[i]? = some other)
    (hm : Controller.Move (f.surroundings i) other a new effects) (hne : i ≠ c) :
    call.deliverAll effects = call := by
  cases call with
  | awaiting c' reply deadline answer =>
    obtain ⟨rfl, rfl, rfl, hb⟩ := hb
    rw [Call.deliverAll_awaiting, b.findSome?_answer? hmk hi hm hne, Option.or_none]
  | stopping => cases hb
  | _ => exact Call.deliverAll_of_deliver fun _ _ => rfl

theorem Books.bonds_move (b : Books made f) (hm : Move f a f' effects) :
    Bonds (made ++ (making? f a).toList) f' := by
  have hsame {g : Fleet} (hg : Bonds made g) : Bonds (made ++ (none : Option Making).toList) g := by
    rwa [Option.toList_none, List.append_nil]
  cases hm with
  | request r he =>
    refine hsame fun c mk controller hmk hc => ?_
    obtain ⟨call, hcall, hb⟩ := b.bonds c mk controller hmk hc
    exact ⟨call, getElem?_concat_eq_some.2 (.inl hcall), hb⟩
  | created k hk =>
    intro c mk controller hmk hc
    have hlt : k < f.calls.length := (List.getElem?_eq_some_iff.1 hk).1
    have hl := b.makers.length
    rcases getElem?_concat_eq_some.1 hmk with hmk | ⟨rfl, rfl⟩
    · have hc : f.controllers[c]? = some controller :=
        (getElem?_concat_eq_some.1 hc).resolve_right fun h => by grind
      obtain ⟨call, hcall, hb⟩ := b.bonds c mk controller hmk hc
      have hne : k ≠ mk.call := by
        rintro rfl
        rw [hk] at hcall
        cases hcall
        cases hb
      exact ⟨call, by rw [List.getElem?_set_ne hne, hcall], hb⟩
    · have hc := (getElem?_concat_eq_some.1 hc).resolve_left (by simp [hl])
      obtain ⟨-, rfl⟩ := hc
      exact ⟨_, List.getElem?_set_self hlt, hl.symm, rfl, rfl, rfl, rfl, .inl ⟨rfl, rfl⟩⟩
  | turned k a old new f₁ effects hk ht =>
    rw [making?_turn ht]
    exact hsame (b.turn ht hk)
  | worked i a old new effects hi hm =>
    refine hsame fun c mk controller hmk hc => ?_
    rw [controllers_worked hi] at hc
    split at hc
    · rename_i he
      subst he
      cases hc
      obtain ⟨call, hcall, hb⟩ := b.bonds i mk old hmk hi
      exact ⟨_, by rw [calls_worked, hcall]; rfl, hb.worked hcall hm⟩
    · rename_i hne
      obtain ⟨call, hcall, hb⟩ := b.bonds c mk controller hmk hc
      refine ⟨call, ?_, hb⟩
      rw [calls_worked, hcall, Option.map_some, b.deliverAll_of_other hmk hb hi hm hne]
  | _ => exact hsame b.bonds

theorem Books.registered_of_move (b : Books made f) (hm : Move f a f' effects)
    (hr : Registered (made ++ (making? f a).toList) f' c) :
    Registered made f c ∨ ∃ (k : Nat) (machine : Metadata) (registry : Registry Nat),
      f.calls[k]? = some (.registering c machine) ∧
      f.registry.add machine.id c (!f.isOpen c) machine.address = .ok registry ∧
      f' = { f with registry }.setCall k (.announcing c machine) := by
  obtain ⟨mk, call, hmk, hcall, hp⟩ := hr
  have hsame (hmk : (made ++ (none : Option Making).toList)[c]? = some mk)
      (hcall : f.calls[mk.call]? = some call) : Registered made f c := by
    rw [Option.toList_none, List.append_nil] at hmk
    exact ⟨mk, call, hmk, hcall, hp⟩
  cases hm with
  | request r he =>
    rcases getElem?_concat_eq_some.1 hcall with hcall | ⟨-, rfl⟩
    · exact .inl (hsame hmk hcall)
    · cases r <;> cases hp
  | created k hk =>
    have hcall : f.calls[mk.call]? = some call := by
      rw [List.getElem?_set] at hcall
      split at hcall
      · split at hcall
        · cases hcall
          cases hp
        · cases hcall
      · exact hcall
    rcases getElem?_concat_eq_some.1 hmk with hmk | ⟨-, rfl⟩
    · exact .inl ⟨mk, call, hmk, hcall, hp⟩
    · rw [hk] at hcall
      cases hcall
      cases hp
  | turned k a old new f₁ effects hk ht =>
    have hk₁ : f₁.calls[k]? = some old := by rw [calls_turn ht, hk]
    rw [making?_turn ht] at hmk
    rw [getElem?_setCall hk₁, calls_turn ht] at hcall
    split at hcall
    · rename_i he
      subst he
      cases hcall
      rcases hasRegistered_of_turn ht hp with hp | ⟨c', machine, registry, rfl, rfl, rfl, ha⟩
      · rw [Option.toList_none, List.append_nil] at hmk
        exact .inl ⟨mk, old, hmk, hk, hp⟩
      · rw [Option.toList_none, List.append_nil] at hmk
        obtain rfl : c' = c := by
          obtain ⟨mk', hmk', hk'⟩ := b.makers.own _ _ c' hk rfl
          exact index_eq_of_nodup_map b.makers.apart hmk' hmk hk'
        exact .inr ⟨_, machine, registry, hk, ha, rfl⟩
    · exact .inl (hsame hmk hcall)
  | worked i did old new made' hi hm =>
    rw [calls_worked] at hcall
    obtain ⟨before, hb, rfl⟩ := Option.map_eq_some_iff.1 hcall
    rw [Call.hasRegistered_deliverAll] at hp
    rw [show making? f (.controller i did) = none from rfl, Option.toList_none,
      List.append_nil] at hmk
    exact .inl ⟨mk, before, hmk, hb, hp⟩
  | _ => exact .inl (hsame hmk hcall)

theorem Books.begun_move (b : Books made f) (hm : Move f a f' effects)
    {controller' : Controller} (hc : f'.controllers[c]? = some controller')
    (hr : Registered (made ++ (making? f a).toList) f' c) : controller'.phase.HasBegun := by
  rcases b.registered_of_move hm hr with hr | ⟨k, machine, registry, hk, ha, rfl⟩
  · rcases controller_move hm hc with ⟨controller, hf, hch⟩ | ⟨rfl, -⟩
    · have hb := b.begun c controller hf hr
      rcases hch with rfl | ⟨k, old, new, m, -, -, -, rfl⟩ | ⟨did, made, -, -, hm⟩
      · exact hb
      · simpa using hb
      · exact Nat.le_trans hb (Controller.rank_move hm)
    · obtain ⟨mk, call, hmk, -⟩ := hr
      have hlt := (List.getElem?_eq_some_iff.1 hmk).1
      exact absurd b.makers.length (Nat.ne_of_gt hlt)
  · obtain ⟨mk, hmk, rfl⟩ := b.makers.own k _ c hk rfl
    obtain ⟨call, hcall, hb⟩ := b.bonds c mk controller' hmk hc
    rw [hk] at hcall
    cases hcall
    -- The registry takes in only controllers whose mailbox is open, and these run their machines.
    have ho : controller'.isOpen = true := by
      simpa [isOpen, show f.controllers[c]? = some controller' from hc] using
        (Registry.eq_put_of_add ha).2.1
    rw [(hb.2 ho).1]
    exact Nat.le_refl 2

theorem Books.retired_move (b : Books made f) (hm : Move f a f' effects)
    {controller' : Controller} (hc : f'.controllers[c]? = some controller')
    (hr : .retire ∈ controller'.mailbox) :
    MakerIs (made ++ (making? f a).toList) f' c Call.hasFailed := by
  have hkeep (h : MakerIs made f c Call.hasFailed) :
      MakerIs (made ++ (making? f a).toList) f' c Call.hasFailed :=
    h.move hm rfl hasFailed_turn fun call e => Call.hasFailed_deliverAll e call
  rcases controller_move hm hc with ⟨controller, hf, hch⟩ | ⟨rfl, rfl⟩
  · rcases hch with rfl | ⟨k, old, new, m, hk, hk', hp, rfl⟩ | ⟨did, made, -, -, hm⟩
    · exact hkeep (b.retired c _ hf hr)
    · rcases mem_posted_mailbox hr with hr | rfl
      · exact hkeep (b.retired c _ hf hr)
      · cases hp with
        -- A call retires its own controller, and only once it has failed.
        | retire e =>
          obtain ⟨mk, hmk, rfl⟩ := b.makers.own k _ c hk rfl
          refine ⟨mk, _, ?_, hk', rfl⟩
          rw [List.getElem?_append_left (List.getElem?_eq_some_iff.1 hmk).1, hmk]
    · rcases Controller.mailbox_move hm hr with hr | ⟨failure, hr⟩ | ⟨p, change, -, hr⟩
      · exact hkeep (b.retired c _ hf hr)
      · cases hr
      · cases change <;> cases hr
  · simp at hr

theorem Books.move (b : Books made f) (hm : Move f a f' effects) :
    Books (made ++ (making? f a).toList) f' where
  makers := b.makers.move hm
  numbers := b.numbers.move b.makers.length hm
  listing := b.listing.move b.makers hm
  bonds := b.bonds_move hm
  begun _ _ hc hr := b.begun_move hm hc hr
  retired _ _ hc hr := b.retired_move hm hc hr

theorem books_start (config : FleetConfig) : Books [] (start config) where
  makers := ⟨rfl, by simp, by simp, by simp [start]⟩
  numbers := ⟨by simp, by simp, by simp [start], by simp [start]⟩
  listing := by
    rintro c (⟨id, e, he, -⟩ | ⟨call, hm, -⟩)
    · cases he
    · cases hm
  bonds := by
    intro c mk controller hmk
    cases hmk
  begun := by
    intro c controller hc
    cases hc
  retired := by
    intro c controller hc
    cases hc

theorem Books.exists_of_registered (b : Books made f) (hr : Registered made f c) :
    ∃ controller, f.controllers[c]? = some controller ∧ controller.phase.HasBegun := by
  have hlt : c < f.controllers.length := by
    obtain ⟨mk, call, hmk, -⟩ := hr
    rw [← b.makers.length]
    exact (List.getElem?_eq_some_iff.1 hmk).1
  have hc := List.getElem?_eq_getElem hlt
  exact ⟨_, hc, b.begun c _ hc hr⟩

theorem makings_snoc (history : List Episode) (f : Fleet) (a : Action) (effects : List Effect) :
    makings (history ++ [⟨f, a, effects⟩]) = makings history ++ (making? f a).toList :=
  filterMap_concat _ _ _

/-- The books are kept in every run, whatever happens in it. -/
theorem books_of_run {config : FleetConfig} {history : List Episode}
    (run : Run step (start config) history f) : Books (makings history) f := by
  refine run.invariant (P := fun history f => Books (makings history) f) (books_start config) ?_
  intro history f a f' effects b h
  rw [makings_snoc]
  exact b.move (move_of_step h)

end Bonds

end MachineFleet.Fleet
