import MachineFleet.Readiness

namespace MachineFleet

def Transition.isReady : Transition → Bool
  | becameReady => true
  | becameUnready => false

namespace ReadinessTracker

def after (t : ReadinessTracker) (outcomes : List Signal) : ReadinessTracker :=
  outcomes.foldl (fun t s => (t.observe s).1) t

theorem after_concat (t : ReadinessTracker) (outcomes : List Signal) (s : Signal) :
    t.after (outcomes ++ [s]) = ((t.after outcomes).observe s).1 := by
  simp [after]

theorem isReady_observe (t : ReadinessTracker) (s : Signal) :
    (t.observe s).1.isReady = ((t.observe s).2.map (·.isReady)).getD t.isReady := by
  obtain ⟨state, consecutive, success, failure⟩ := t
  cases s <;> cases state <;> simp only [observe] <;> first | rfl | (split <;> rfl)

/-- A change turns the readiness over. -/
theorem isReady_of_change {t : ReadinessTracker} {s : Signal} {change : Transition}
    (h : (t.observe s).2 = some change) : change.isReady = !t.isReady := by
  obtain ⟨state, consecutive, success, failure⟩ := t
  cases s <;> cases state <;> simp only [observe] at h
  · split at h
    · cases h
      rfl
    · cases h
  · cases h
  · cases h
  · split at h
    · cases h
      rfl
    · cases h

end ReadinessTracker

end MachineFleet
