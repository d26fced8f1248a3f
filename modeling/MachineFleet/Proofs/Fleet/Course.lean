import MachineFleet.Proofs.Fleet.Bonds
import MachineFleet.Proofs.Lifecycle.Teardown

namespace MachineFleet.Fleet

def controllerAt (f : Fleet) (c : Nat) : Controller :=
  (f.controllers[c]?).getD (.new f.config.probe f.config.machine.shutdownTimeout)

def Effect.of? (c : Nat) : Effect → Option Controller.Effect
  | .controller i effect => if i = c then some effect else none
  | _ => none

def Effect.sentTo? (c : Nat) : Effect → Option Message
  | .sent i m => if i = c then some m else none
  | _ => none

def Episode.courseOf (c : Nat) (x : Episode) : List Controller.Episode :=
  match x.input with
  | .controller i did =>
    if i = c then
      [⟨x.before.controllerAt c, .act (x.before.surroundings c) did, x.effects.filterMap (·.of? c)⟩]
    else []
  | _ => (x.effects.filterMap (·.sentTo? c)).map fun m => ⟨x.before.controllerAt c, .post m, []⟩

def course (history : List Episode) (c : Nat) : List Controller.Episode :=
  history.flatMap (·.courseOf c)

section Course

variable {config : FleetConfig} {history : List Episode} {f f' f₁ g : Fleet} {a : Action}
  {effects : List Effect} {k c : Nat} {old new : Call} {controller : Controller}

@[simp] theorem filterMap_of? (made : List Controller.Effect) :
    (made.map (Effect.controller c)).filterMap (·.of? c) = made := by
  induction made with
  | nil => rfl
  | cons effect rest ih => simp [Effect.of?]

theorem controllerAt_eq (hc : f.controllers[c]? = some controller) :
    f.controllerAt c = controller := by
  rw [controllerAt, hc, Option.getD_some]

theorem controllerAt_congr (hs : g.config = f.config) (hc : g.controllers = f.controllers) :
    g.controllerAt c = f.controllerAt c := by
  rw [controllerAt, controllerAt, hs, hc]

theorem controllerAt_post (i : Nat) (m : Message) :
    (f.post i m).controllerAt c =
      if i = c ∧ f.isOpen c = true then
        { f.controllerAt c with mailbox := (f.controllerAt c).mailbox ++ [m] }
      else f.controllerAt c := by
  have hconfig : (f.post i m).config = f.config := rfl
  cases hc : f.controllers[c]? with
  | none => simp [controllerAt, getElem?_post, isOpen, hc, hconfig]
  | some controller =>
    by_cases hi : i = c
    · by_cases ho : controller.isOpen = true <;>
        simp [controllerAt, getElem?_post, isOpen, hc, hi, ho, posted_eq]
    · simp [controllerAt, getElem?_post, hc, hi]

theorem run_post {m : Message} {i : Nat} (hs : g.config = f.config)
    (hc : g.controllers = (f.post i m).controllers) :
    Run Controller.feed (f.controllerAt c)
      (((f.sentEffects i m).filterMap (·.sentTo? c)).map fun m =>
        ⟨f.controllerAt c, .post m, []⟩) (g.controllerAt c) := by
  rw [controllerAt_congr (f := f.post i m) hs hc, controllerAt_post, sentEffects]
  -- A closed mailbox takes nothing, and a message to another controller is no part of this course.
  by_cases ho : f.isOpen i = true
  · by_cases hi : i = c
    · subst hi
      have hopen : (f.controllerAt i).isOpen = true := by
        unfold isOpen at ho
        split at ho
        · rw [controllerAt_eq ‹_›]
          exact ho
        · cases ho
      simp only [ho, ↓reduceIte, and_self, List.filterMap_cons, Effect.sentTo?, List.filterMap_nil,
        List.map_cons, List.map_nil]
      exact Run.one (by simp [Controller.feed, Controller.post?, hopen])
    · simpa [ho, hi, Effect.sentTo?] using Run.nil
  · have hn : ¬ (i = c ∧ f.isOpen c = true) := by
      rintro ⟨rfl, h⟩
      exact ho h
    rw [if_neg hn, if_neg ho]
    exact .nil

theorem run_of_turn (ht : Turn f k a old new f₁ effects) :
    Run Controller.feed (f.controllerAt c) (Episode.courseOf c ⟨f, a, effects⟩)
      ((f₁.setCall k new).controllerAt c) := by
  have hsame {g : Fleet} (hs : g.config = f.config) (hc : g.controllers = f.controllers) :
      Run Controller.feed (f.controllerAt c) [] (g.controllerAt c) := by
    rw [controllerAt_congr hs hc]
    exact .nil
  cases ht with
  | announced c' machine => exact run_post rfl rfl
  | retired c' e => exact run_post rfl rfl
  | stopSent id all entry he ho =>
    rw [← sentEffects_of_isOpen (f := f) (m := .stop f.nextReply) rfl ho]
    exact run_post rfl rfl
  | _ => exact hsame rfl rfl

/-- A step of the fleet is a part of the course of each of its controllers. -/
theorem run_of_move (hm : Move f a f' effects) :
    Run Controller.feed (f.controllerAt c) (Episode.courseOf c ⟨f, a, effects⟩)
      (f'.controllerAt c) := by
  cases hm with
  | created k hk =>
    -- The new controller begins its course with the request to start.
    by_cases hc : c = f.controllers.length
    · subst hc
      have hnew : f.controllerAt f.controllers.length =
          .new f.config.probe f.config.machine.shutdownTimeout := by simp [controllerAt]
      simp only [Episode.courseOf, Effect.sentTo?, ↓reduceIte, List.filterMap_cons,
        List.filterMap_nil, List.map_cons, List.map_nil, hnew]
      refine Run.one ?_
      simp [Controller.feed, Controller.post?, Controller.new, controllerAt]
    · have hold (l : List Controller) (x : Controller) (hl : c ≠ l.length) :
          (l ++ [x])[c]? = l[c]? := by
        rcases Nat.lt_or_gt_of_ne hl with h | h
        · exact List.getElem?_append_left h
        · rw [List.getElem?_eq_none (by simp; omega), List.getElem?_eq_none (Nat.le_of_lt h)]
      simpa [Episode.courseOf, Effect.sentTo?, Ne.symm hc, controllerAt, hold _ _ hc] using Run.nil
  | turned k a old new f₁ effects hk ht => exact run_of_turn ht
  | worked i did old new made hi hm =>
    by_cases hic : i = c
    · subst hic
      have hnew : (f.worked i new made).controllerAt i = new :=
        controllerAt_eq (by rw [controllers_worked hi, if_pos rfl])
      simp only [Episode.courseOf, ↓reduceIte, filterMap_of?, hnew, controllerAt_eq hi]
      exact Run.one (Controller.step_of_move hm)
    · have hold : (f.worked i new made).controllerAt c = f.controllerAt c := by
        rw [controllerAt, controllers_worked hi, if_neg hic]
        rfl
      simpa [Episode.courseOf, hic, hold] using Run.nil
  | _ => exact .nil

theorem exists_did {x : Episode} {did : Controller.Action} (hx : x ∈ history)
    (hi : x.input = .controller c did) : ∃ y ∈ course history c, y.did did := by
  refine ⟨⟨x.before.controllerAt c, .act (x.before.surroundings c) did,
    x.effects.filterMap (·.of? c)⟩, List.mem_flatMap.2 ⟨x, hx, ?_⟩, _, rfl⟩
  simp [Episode.courseOf, hi]

/-- Every controller follows its course. -/
theorem run_course (run : Run step (start config) history f) (c : Nat) :
    Run Controller.feed (.new config.probe config.machine.shutdownTimeout) (course history c)
      (f.controllerAt c) := by
  induction run with
  | nil => exact .nil
  | @snoc history f f' a effects run h ih =>
    rw [course, List.flatMap_append]
    exact ih.trans (by simpa using run_of_move (move_of_step h))

end Course

end MachineFleet.Fleet
