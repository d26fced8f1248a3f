import MachineFleet.Proofs.Fleet.Bonds

namespace MachineFleet.Fleet

def startEnd? (c : Nat) (f : Fleet) : Action → Option (Instant × Except Error Metadata)
  | .controller i (.driverStarted result) => if i = c then some (f.now, result) else none
  | _ => none

def startEnds (history : List Episode) (c : Nat) : List (Instant × Except Error Metadata) :=
  history.filterMap fun x => startEnd? c x.before x.input

/-- The deadline of a start has passed, and the driver had not answered before it. -/
def Overdue (mk : Making) (ends : List (Instant × Except Error Metadata)) (now : Instant) : Prop :=
  mk.deadline ≤ now ∧ ∀ x ∈ ends, mk.deadline ≤ x.1

def Refused (history : List Episode) (k c : Nat) (machine : Metadata) (e : Error) : Prop :=
  ∃ x ∈ history, x.input = .proceed k ∧
    x.before.registry.add machine.id c (!x.before.isOpen c) machine.address = .error e

/-- Why a call gives up a machine that the driver has not refused to start. -/
def GivenUp (config : FleetConfig) (history : List Episode) (now : Instant) (mk : Making) (c : Nat)
    (e : Error) : Prop :=
  e = .startTimeout config.startTimeout ∧ Overdue mk (startEnds history c) now ∨
    ∃ t machine, startEnds history c = [(t, .ok machine)] ∧ Refused history mk.call c machine e

/-- What has led a call to where it stands. -/
def Cause (config : FleetConfig) (history : List Episode) (now : Instant) (mk : Making) (c : Nat) :
    Call → Prop
  | .awaiting _ _ _ none => startEnds history c = []
  | .awaiting _ _ _ (some (.started machine)) => ∃ t, startEnds history c = [(t, .ok machine)]
  | .awaiting _ _ _ (some (.failed e)) => ∃ t, startEnds history c = [(t, .error e)]
  | .expiring .. => Overdue mk (startEnds history c) now
  | .registering _ machine => ∃ t, startEnds history c = [(t, .ok machine)]
  | .retiring _ e => GivenUp config history now mk c e
  | .leaving _ (.error e) => GivenUp config history now mk c e
  | .finished (.started (.error e)) =>
    (∃ t, startEnds history c = [(t, .error e)]) ∨ GivenUp config history now mk c e
  | _ => True

def AnsweredOnce (history : List Episode) (f : Fleet) (c : Nat) : Prop :=
  startEnds history c = [] ∨ ∃ t result controller, startEnds history c = [(t, result)] ∧
    f.controllers[c]? = some controller ∧ controller.phase.HasBegun

/-- Every call to start a machine has got where it stands for a reason. -/
structure Causes (config : FleetConfig) (history : List Episode) (f : Fleet) : Prop where
  once : ∀ c, AnsweredOnce history f c
  cause : ∀ (c : Nat) (mk : Making) (call : Call), (makings history)[c]? = some mk →
    f.calls[mk.call]? = some call → Cause config history f.now mk c call
  unmade : ∀ (k : Nat) (e : Error), f.calls[k]? = some (.finished (.started (.error e))) →
    (∀ mk ∈ makings history, mk.call ≠ k) → ∃ x ∈ history, x.input = .create k (.error e)

section Causes

variable {config : FleetConfig} {history : List Episode} {f f' f₁ : Fleet} {a : Action}
  {effects : List Effect} {k c : Nat} {old new call : Call} {mk : Making} {controller : Controller}
  {e : Error} {machine : Metadata}

theorem startEnds_snoc (history : List Episode) (f : Fleet) (a : Action) (effects : List Effect)
    (c : Nat) : startEnds (history ++ [⟨f, a, effects⟩]) c =
      startEnds history c ++ (startEnd? c f a).toList :=
  filterMap_concat _ _ _

theorem now_move (h : Move f a f' effects) : f.now ≤ f'.now := by
  cases h with
  | turned k a old new f₁ effects hk ht => cases ht <;> exact Nat.le_refl _
  | elapsed d => exact Nat.le_add_right ..
  | _ => exact Nat.le_refl _

theorem Refused.mono {later : List Episode} (h : Refused history k c machine e) :
    Refused (history ++ later) k c machine e := by
  obtain ⟨x, hx, h⟩ := h
  exact ⟨x, List.mem_append_left _ hx, h⟩

theorem answered_move {x : Instant × Except Error Metadata} (h : Move f a f' effects)
    (hx : startEnd? c f a = some x) : x.1 = f.now ∧
      ∃ before after, f.controllers[c]? = some before ∧ f'.controllers[c]? = some after ∧
        before.phase.rank = 1 ∧ after.phase.HasBegun := by
  cases a with
  | controller i did =>
    cases did with
    | driverStarted result =>
      simp only [startEnd?] at hx
      split at hx
      · rename_i hi
        subst hi
        cases hx
        obtain ⟨before, after, made, hc, rfl, -, hm⟩ := move_of_controller h
        refine ⟨rfl, before, after, hc, by rw [controllers_worked hc, if_pos rfl], ?_⟩
        cases hm <;> simp [*, Controller.Phase.rank, Controller.Phase.HasBegun]
      · cases hx
    | _ => cases hx
  | _ => cases hx

theorem AnsweredOnce.move (h : AnsweredOnce history f c) (hm : Move f a f' effects) :
    AnsweredOnce (history ++ [⟨f, a, effects⟩]) f' c := by
  rw [AnsweredOnce, startEnds_snoc]
  cases hx : startEnd? c f a with
  | none =>
    simp only [Option.toList_none, List.append_nil]
    refine h.imp id fun ⟨t, result, controller, he, hc, hb⟩ => ?_
    obtain ⟨controller', hc', hr⟩ := controller_stays hm hc
    exact ⟨t, result, controller', he, hc', Nat.le_trans hb hr⟩
  | some x =>
    obtain ⟨ht, before, after, hc, hf, hb, ha⟩ := answered_move hm hx
    -- The controller waited for the driver, so the driver had not answered before.
    rcases h with h | ⟨t, result, controller, -, hc', hb'⟩
    · exact .inr ⟨x.1, x.2, after, by simp [h], hf, ha⟩
    · rw [hc] at hc'
      cases hc'
      exact absurd hb' (by simp [Controller.Phase.HasBegun, hb])

theorem AnsweredOnce.eq {x : Instant × Except Error Metadata} (h : AnsweredOnce history f c)
    (hm : Move f a f' effects) (hx : startEnds history c = [x]) :
    startEnds (history ++ [⟨f, a, effects⟩]) c = [x] := by
  rw [startEnds_snoc, hx]
  cases hy : startEnd? c f a with
  | none => rfl
  | some y =>
    obtain ⟨-, before, after, hc, -, hb, -⟩ := answered_move hm hy
    rcases h with h | ⟨t, result, controller, -, hc', hb'⟩
    · cases hx.symm.trans h
    · rw [hc] at hc'
      cases hc'
      exact absurd hb' (by simp [Controller.Phase.HasBegun, hb])

theorem Overdue.move (h : Overdue mk (startEnds history c) f.now) (hm : Move f a f' effects) :
    Overdue mk (startEnds (history ++ [⟨f, a, effects⟩]) c) f'.now := by
  refine ⟨Nat.le_trans h.1 (now_move hm), fun x hx => ?_⟩
  rw [startEnds_snoc] at hx
  rcases List.mem_append.1 hx with hx | hx
  · exact h.2 x hx
  · -- An answer that comes now comes after the deadline.
    rw [(answered_move hm (Option.mem_toList.1 hx)).1]
    exact h.1

theorem GivenUp.move (h : GivenUp config history f.now mk c e) (ho : AnsweredOnce history f c)
    (hm : Move f a f' effects) :
    GivenUp config (history ++ [⟨f, a, effects⟩]) f'.now mk c e := by
  rcases h with ⟨he, hd⟩ | ⟨t, machine, hs, hr⟩
  · exact .inl ⟨he, hd.move hm⟩
  · exact .inr ⟨t, machine, ho.eq hm hs, hr.mono⟩

theorem Cause.move (h : Cause config history f.now mk c call) (ho : AnsweredOnce history f c)
    (hm : Move f a f' effects)
    (hn : startEnd? c f a = none ∨ ∀ i reply deadline, call ≠ .awaiting i reply deadline none) :
    Cause config (history ++ [⟨f, a, effects⟩]) f'.now mk c call := by
  cases call with
  | awaiting i reply deadline answer =>
    cases answer with
    | none =>
      have hx := hn.resolve_right fun hn => hn i reply deadline rfl
      show startEnds _ c = []
      rw [startEnds_snoc, hx, show startEnds history c = [] from h]
      rfl
    | some answer =>
      cases answer with
      | started machine =>
        obtain ⟨t, hs⟩ := h
        exact ⟨t, ho.eq hm hs⟩
      | failed e =>
        obtain ⟨t, hs⟩ := h
        exact ⟨t, ho.eq hm hs⟩
      | _ => trivial
  | expiring => exact Overdue.move h hm
  | registering i machine =>
    obtain ⟨t, hs⟩ := h
    exact ⟨t, ho.eq hm hs⟩
  | retiring i e => exact GivenUp.move h ho hm
  | leaving i result =>
    cases result with
    | error e => exact GivenUp.move h ho hm
    | ok machine => trivial
  | finished outcome =>
    cases outcome with
    | started result =>
      cases result with
      | error e =>
        refine Or.imp ?_ (fun h => GivenUp.move h ho hm) h
        exact fun ⟨t, hs⟩ => ⟨t, ho.eq hm hs⟩
      | ok machine => trivial
    | _ => trivial
  | _ => trivial

theorem Cause.turn (h : Cause config history f.now mk c old) (ho : AnsweredOnce history f c)
    (hb : Bond mk c controller old) (hconfig : f.config = config)
    (hk : f.calls[mk.call]? = some old) (ht : Turn f mk.call a old new f₁ effects) :
    Cause config (history ++ [⟨f, a, effects⟩]) (f₁.setCall mk.call new).now mk c new := by
  have hm := Move.turned mk.call a old new f₁ effects hk ht
  cases ht with
  | takeStarted i reply deadline machine =>
    obtain ⟨t, hs⟩ := h
    exact ⟨t, ho.eq hm hs⟩
  | takeFailed i reply deadline e =>
    obtain ⟨t, hs⟩ := h
    exact .inl ⟨t, ho.eq hm hs⟩
  | takeNothing i reply deadline answer hs hf =>
    -- A controller that has been asked to start a machine never lets the request drop.
    cases answer with
    | started machine => exact absurd rfl (hs machine)
    | failed e => exact absurd rfl (hf e)
    | _ => exact hb.2.2.2.elim
  | expire i reply deadline hd =>
    have hnone : startEnds history c = [] := h
    have hdue : Overdue mk (startEnds history c) f.now := by
      refine ⟨?_, by simp [hnone]⟩
      rw [← hb.2.2.1]
      exact hd
    exact hdue.move hm
  | giveUp i reply => exact .inl ⟨by rw [hconfig], Overdue.move h hm⟩
  | refused i machine e ha =>
    obtain ⟨t, hs⟩ := h
    obtain rfl : i = c := hb.1
    exact .inr ⟨t, machine, ho.eq hm hs, _, List.mem_append_right _ (.head _), rfl, ha⟩
  | retired i e => exact GivenUp.move h ho hm
  | leave i result =>
    cases result with
    | error e => exact .inr (GivenUp.move h ho hm)
    | ok machine => trivial
  | registered => trivial
  | announced => trivial
  | abandon => trivial
  | _ => cases hb

theorem Cause.worked {did : Controller.Action} {after : Controller}
    {made : List Controller.Effect} (h : Cause config history f.now mk c call)
    (ho : AnsweredOnce history f c) (hb : Bond mk c controller call)
    (hcall : f.calls[mk.call]? = some call) (hc : f.controllers[c]? = some controller)
    (hm : Controller.Move (f.surroundings c) controller did after made) :
    Cause config (history ++ [⟨f, .controller c did, made.map (.controller c)⟩])
      (f.worked c after made).now mk c (call.deliverAll made) := by
  have hmove := Move.worked c did controller after made hc hm
  have hwait : (∃ i reply deadline, call = .awaiting i reply deadline none) ∨
      ∀ i reply deadline, call ≠ .awaiting i reply deadline none := by
    by_cases hw : ∃ i reply deadline, call = .awaiting i reply deadline none
    · exact .inl hw
    · exact .inr fun i reply deadline he => hw ⟨i, reply, deadline, he⟩
  -- Only a call that waits without an answer takes one from the controller.
  rcases hwait with ⟨i, reply, deadline, rfl⟩ | hwait
  · obtain ⟨rfl, rfl, rfl, hf⟩ := hb
    have hnone : startEnds history i = [] := h
    have hfound (answer : Answer) :
        [Controller.Effect.answer mk.reply answer].findSome? (answer? mk.reply) = some answer := by
      simp [answer?]
    rw [Call.deliverAll_awaiting, Option.none_or]
    rcases Controller.fresh_move hm hf with ⟨hf', rfl⟩ | ⟨e, rfl, rfl, -⟩ |
      ⟨machine, rfl, ⟨-, rfl, -⟩ | ⟨hw, -⟩⟩
    · have hx : startEnd? i f (.controller i did) = none := by
        rw [Option.eq_none_iff_forall_ne_some]
        intro x hx
        obtain ⟨-, before, after', -, hafter, -, hbegun⟩ := answered_move hmove hx
        rw [controllers_worked hc, if_pos rfl] at hafter
        cases hafter
        rcases hf' with ⟨-, -, ⟨hp, -⟩ | ⟨hp, -⟩⟩ <;>
          exact absurd hbegun (by simp [hp, Controller.Phase.HasBegun, Controller.Phase.rank])
      exact Cause.move h ho hmove (.inl hx)
    · rw [hfound]
      exact ⟨f.now, by rw [startEnds_snoc, hnone]; simp [startEnd?]⟩
    · rw [hfound]
      exact ⟨f.now, by rw [startEnds_snoc, hnone]; simp [startEnd?]⟩
    · have ha : (f.surroundings i).awaits mk.reply = true :=
        List.any_eq_true.2 ⟨_, List.mem_of_getElem? hcall, by simp [Call.awaits]⟩
      cases hw.symm.trans ha
  · have hsame : call.deliverAll made = call := by
      cases call with
      | awaiting i reply deadline answer =>
        cases answer with
        | none => exact absurd rfl (hwait i reply deadline)
        | some answer => rw [Call.deliverAll_awaiting, Option.some_or]
      | stopping => cases hb
      | _ => exact Call.deliverAll_of_deliver fun _ _ => rfl
    rw [hsame]
    exact h.move ho hmove (.inr hwait)

theorem Call.eq_of_deliverAll {made : List Controller.Effect} {outcome : Outcome}
    (h : call.deliverAll made = .finished outcome) : call = .finished outcome := by
  cases call with
  | awaiting => rw [Call.deliverAll_awaiting] at h; cases h
  | stopping => rw [Call.deliverAll_stopping] at h; cases h
  | _ => exact (Call.deliverAll_of_deliver fun _ _ => rfl).symm.trans h

theorem Causes.cause_move (h : Causes config history f) (b : Books (makings history) f)
    (hconfig : f.config = config) (hm : Move f a f' effects)
    (hmk : (makings history ++ (making? f a).toList)[c]? = some mk)
    (hcall : f'.calls[mk.call]? = some call) :
    Cause config (history ++ [⟨f, a, effects⟩]) f'.now mk c call := by
  have hold (hmk : (makings history ++ (none : Option Making).toList)[c]? = some mk)
      (hcall : f.calls[mk.call]? = some call) (hx : startEnd? c f a = none) :
      Cause config (history ++ [⟨f, a, effects⟩]) f'.now mk c call := by
    rw [Option.toList_none, List.append_nil] at hmk
    exact (h.cause c mk call hmk hcall).move (h.once c) hm (.inl hx)
  have hbond (hmk : (makings history)[c]? = some mk) {call : Call}
      (hcall : f.calls[mk.call]? = some call) : ∃ controller,
        f.controllers[c]? = some controller ∧ Bond mk c controller call := by
    have hlt : c < f.controllers.length := by
      rw [← b.makers.length]
      exact (List.getElem?_eq_some_iff.1 hmk).1
    obtain ⟨call', hcall', hb⟩ := b.bonds c mk _ hmk (List.getElem?_eq_getElem hlt)
    rw [hcall] at hcall'
    cases hcall'
    exact ⟨_, List.getElem?_eq_getElem hlt, hb⟩
  cases hm with
  | request r he =>
    refine hold hmk ((getElem?_concat_eq_some.1 hcall).resolve_right ?_) rfl
    rintro ⟨hl, -⟩
    have hmem := List.mem_of_getElem? hmk
    rw [show making? f (.request r) = none from rfl, Option.toList_none, List.append_nil] at hmem
    obtain ⟨call', hk, -⟩ := b.makers.past mk hmem
    rw [hl] at hk
    simp at hk
  | created k hk =>
    rcases getElem?_concat_eq_some.1 hmk with hmk' | ⟨rfl, rfl⟩
    · have hne : k ≠ mk.call := by
        rintro rfl
        obtain ⟨call', hk', hn⟩ := b.makers.past mk (List.mem_of_getElem? hmk')
        rw [hk] at hk'
        cases hk'
        cases hn
      rw [List.getElem?_set_ne hne] at hcall
      exact (h.cause c mk call hmk' hcall).move (h.once c) (.created k hk) (.inl rfl)
    -- No driver has answered the new controller, since it did not exist before.
    · rw [List.getElem?_set_self (List.getElem?_eq_some_iff.1 hk).1] at hcall
      cases hcall
      show startEnds _ _ = []
      rw [startEnds_snoc]
      rcases h.once (makings history).length with hs | ⟨t, result, controller, -, hc, -⟩
      · rw [hs]
        rfl
      · rw [b.makers.length] at hc
        simp at hc
  | turned k a old new f₁ effects hk ht =>
    have hk₁ : f₁.calls[k]? = some old := by rw [calls_turn ht, hk]
    rw [making?_turn ht] at hmk
    rw [getElem?_setCall hk₁, calls_turn ht] at hcall
    split at hcall
    · rename_i he
      subst he
      cases hcall
      rw [Option.toList_none, List.append_nil] at hmk
      obtain ⟨controller, -, hb⟩ := hbond hmk hk
      exact (h.cause c mk old hmk hk).turn (h.once c) hb hconfig hk ht
    · exact hold hmk hcall (by cases ht <;> rfl)
  | worked i did other after made hi hm =>
    rw [show making? f (.controller i did) = none from rfl, Option.toList_none,
      List.append_nil] at hmk
    rw [calls_worked] at hcall
    obtain ⟨before, hbefore, rfl⟩ := Option.map_eq_some_iff.1 hcall
    obtain ⟨controller, hc, hb⟩ := hbond hmk hbefore
    by_cases hic : i = c
    · subst hic
      rw [hi] at hc
      cases hc
      exact (h.cause i mk before hmk hbefore).worked (h.once i) hb hbefore hi hm
    · rw [b.deliverAll_of_other hmk hb hi hm hic]
      refine (h.cause c mk before hmk hbefore).move (h.once c)
        (.worked i did other after made hi hm) (.inl ?_)
      cases did <;> simp [startEnd?, hic]
  | _ => exact hold hmk hcall rfl

theorem Causes.unmade_move (h : Causes config history f) (b : Books (makings history) f)
    (hm : Move f a f' effects) (hk : f'.calls[k]? = some (.finished (.started (.error e))))
    (hn : ∀ mk ∈ makings history ++ (making? f a).toList, mk.call ≠ k) :
    ∃ x ∈ history ++ [(⟨f, a, effects⟩ : Episode)], x.input = .create k (.error e) := by
  have hold (hk : f.calls[k]? = some (.finished (.started (.error e)))) :
      ∃ x ∈ history ++ [(⟨f, a, effects⟩ : Episode)], x.input = .create k (.error e) := by
    obtain ⟨x, hx, hi⟩ := h.unmade k e hk fun mk hmk => hn mk (List.mem_append_left _ hmk)
    exact ⟨x, List.mem_append_left _ hx, hi⟩
  cases hm with
  | request r he =>
    rcases getElem?_concat_eq_some.1 hk with hk | ⟨-, hr⟩
    · exact hold hk
    · cases r <;> cases hr
  | created i hi =>
    rw [List.getElem?_set] at hk
    split at hk
    · split at hk <;> cases hk
    · exact hold hk
  | turned i a old new f₁ effects hi ht =>
    have hi₁ : f₁.calls[i]? = some old := by rw [calls_turn ht, hi]
    rw [getElem?_setCall hi₁, calls_turn ht] at hk
    split at hk
    · rename_i he
      subst he
      cases hk
      -- Every other way to fail goes through a controller, which the call would have made.
      have hown {c : Nat} (ho : old.own? = some c) : False := by
        obtain ⟨mk, hmk, hc⟩ := b.makers.own i old c hi ho
        exact hn mk (List.mem_append_left _ (List.mem_of_getElem? hmk)) hc
      cases ht with
      | createFailed => exact ⟨_, List.mem_append_right _ (.head _), rfl⟩
      | takeFailed => exact (hown rfl).elim
      | takeNothing => exact (hown rfl).elim
      | leave => exact (hown rfl).elim
    · exact hold hk
  | worked i did other after made hi hm =>
    rw [calls_worked] at hk
    obtain ⟨before, hb, hd⟩ := Option.map_eq_some_iff.1 hk
    rw [Call.eq_of_deliverAll hd] at hb
    exact hold hb
  | _ => exact hold hk

theorem config_of_run (run : Run step (start config) history f) : f.config = config := by
  refine run.invariant (P := fun _ f => f.config = config) rfl ?_
  intro history f a f' effects hc h
  exact (config_move (move_of_step h)).trans hc

theorem causes_of_run (run : Run step (start config) history f) : Causes config history f := by
  induction run with
  | nil => exact ⟨fun c => .inl rfl, by simp [makings], by simp [start]⟩
  | @snoc history f f' a effects run h ih =>
    have hm := move_of_step h
    have books := books_of_run run
    refine ⟨fun c => (ih.once c).move hm, ?_, ?_⟩
    · intro c mk call hmk hcall
      rw [makings_snoc] at hmk
      exact ih.cause_move books (config_of_run run) hm hmk hcall
    · intro k e hk hn
      rw [makings_snoc] at hn
      exact ih.unmade_move books hm hk hn

end Causes

end MachineFleet.Fleet
