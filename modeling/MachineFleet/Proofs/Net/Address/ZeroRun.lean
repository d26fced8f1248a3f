import MachineFleet.Net.Address.Printer

namespace MachineFleet.Ipv6

variable {groups front gs : List UInt16} {g : UInt16} {run other best : Nat × Nat} {length : Nat}

def IsZeroRun (groups : List UInt16) (run : Nat × Nat) : Prop :=
  ∀ i < run.2, groups[run.1 + i]? = some 0

theorem isZeroRun_empty (groups : List UInt16) (start : Nat) : IsZeroRun groups (start, 0) :=
  fun i hi => absurd hi (Nat.not_lt_zero i)

theorem end_le_length (h : IsZeroRun groups run) (hrun : 0 < run.2) :
    run.1 + run.2 ≤ groups.length := by
  obtain ⟨hlt, -⟩ := List.getElem?_eq_some_iff.1 (h (run.2 - 1) (by omega))
  omega

theorem IsZeroRun.append (h : IsZeroRun front run) (gs : List UInt16) :
    IsZeroRun (front ++ gs) run := by
  intro i hi
  obtain ⟨hlt, -⟩ := List.getElem?_eq_some_iff.1 (h i hi)
  rw [List.getElem?_append_left hlt, h i hi]

theorem IsZeroRun.of_append (h : IsZeroRun (front ++ gs) run)
    (hend : run.1 + run.2 ≤ front.length) : IsZeroRun front run := by
  intro i hi
  rw [← h i hi, List.getElem?_append_left (by omega)]

/-- The first run is to be left out rather than the second one: it is longer, or as long and not
later. -/
def Precedes (run other : Nat × Nat) : Prop :=
  other.2 < run.2 ∨ other.2 = run.2 ∧ run.1 ≤ other.1

structure IsFirstLongest (groups : List UInt16) (run : Nat × Nat) : Prop where
  zeros : IsZeroRun groups run
  precedes : ∀ other, IsZeroRun groups other → Precedes run other

/-- What is known after the groups in front: the last `length` of them are zeros and the one before
these is not, and `best` is the first longest run of zeros before. -/
structure Scanned (front : List UInt16) (length : Nat) (best : Nat × Nat) : Prop where
  length_le : length ≤ front.length
  zeros : IsZeroRun front (front.length - length, length)
  begins : ∀ i, i + 1 = front.length - length → front[i]? ≠ some 0
  best_zeros : IsZeroRun front best
  best_before : best.1 + best.2 ≤ front.length - length
  best_precedes : ∀ other, IsZeroRun front other → other.1 + other.2 ≤ front.length - length →
    Precedes best other

def settle (index length : Nat) (best : Nat × Nat) : Nat × Nat :=
  if best.2 < length then (index - length, length) else best

theorem settle_cases (index length : Nat) (best : Nat × Nat) :
    best.2 < length ∧ settle index length best = (index - length, length) ∨
      length ≤ best.2 ∧ settle index length best = best := by
  unfold settle
  split
  · exact .inl ⟨‹_›, rfl⟩
  · exact .inr ⟨by omega, rfl⟩

theorem scanned_nil : Scanned [] 0 (0, 0) where
  length_le := Nat.le_refl 0
  zeros := isZeroRun_empty _ _
  begins i hi := by simp at hi
  best_zeros := isZeroRun_empty _ _
  best_before := Nat.le_refl 0
  best_precedes other hother hend := .inr (by simp at hend; simp [hend])

namespace Scanned

theorem settle_end_le (h : Scanned front length best) :
    (settle front.length length best).1 + (settle front.length length best).2 ≤ front.length := by
  have hle := h.length_le
  have hbefore := h.best_before
  rcases settle_cases front.length length best with ⟨-, heq⟩ | ⟨-, heq⟩ <;> rw [heq]
  · omega
  · omega

theorem isFirstLongest (h : Scanned front length best) :
    IsFirstLongest front (settle front.length length best) where
  zeros := by
    rcases settle_cases front.length length best with ⟨-, heq⟩ | ⟨-, heq⟩ <;> rw [heq]
    · exact h.zeros
    · exact h.best_zeros
  precedes other hother := by
    have hle := h.length_le
    have hbefore := h.best_before
    by_cases hend : other.1 + other.2 ≤ front.length - length
    · have hbest := h.best_precedes other hother hend
      rcases settle_cases front.length length best with ⟨hlong, heq⟩ | ⟨hlong, heq⟩ <;>
        rw [heq] <;> unfold Precedes at * <;> omega
    · -- A run that reaches into the zeros at the end begins with them at the earliest.
      have hstart : front.length - length ≤ other.1 := by
        refine Nat.le_of_not_lt fun hlt => ?_
        refine h.begins (front.length - length - 1) (by omega) ?_
        have hzero := hother (front.length - length - 1 - other.1) (by omega)
        rwa [Nat.add_sub_cancel' (by omega)] at hzero
      have hlength : other.2 ≤ length := by
        by_cases hpos : 0 < other.2
        · have hfits := end_le_length hother hpos
          omega
        · omega
      rcases settle_cases front.length length best with ⟨hlong, heq⟩ | ⟨hlong, heq⟩ <;>
        rw [heq] <;> unfold Precedes <;> omega

theorem concat_zero (h : Scanned front length best) : Scanned (front ++ [0]) (length + 1) best := by
  have hle := h.length_le
  have hstart : (front ++ [0]).length - (length + 1) = front.length - length := by simp
  constructor
  case length_le => simpa using hle
  case zeros =>
    rw [hstart]
    intro i hi
    rcases Nat.lt_succ_iff_lt_or_eq.1 hi with hi | rfl
    · exact h.zeros.append [0] i hi
    · simp [Nat.sub_add_cancel hle]
  case begins =>
    rw [hstart]
    intro i hi
    rw [List.getElem?_append_left (by omega)]
    exact h.begins i hi
  case best_zeros => exact h.best_zeros.append [0]
  case best_before =>
    rw [hstart]
    exact h.best_before
  case best_precedes =>
    rw [hstart]
    intro other hother hend
    exact h.best_precedes other (hother.of_append (by omega)) hend

theorem concat_ne_zero (h : Scanned front length best) (hg : g ≠ 0) :
    Scanned (front ++ [g]) 0 (settle front.length length best) := by
  have hsettled := h.settle_end_le
  have hlength : (front ++ [g]).length = front.length + 1 := by simp
  constructor
  case length_le => exact Nat.zero_le _
  case zeros => exact isZeroRun_empty _ _
  case begins =>
    intro i hi
    obtain rfl : i = front.length := by omega
    simpa using hg
  case best_zeros => exact h.isFirstLongest.zeros.append [g]
  case best_before => omega
  case best_precedes =>
    intro other hother hend
    by_cases hin : other.1 + other.2 ≤ front.length
    · exact h.isFirstLongest.precedes other (hother.of_append hin)
    · -- The run ends after the new group, so it is empty, as that is no zero.
      have hempty : other.2 = 0 := by
        refine Nat.eq_zero_of_not_pos fun hpos => ?_
        have hzero := hother (front.length - other.1) (by omega)
        rw [Nat.add_sub_cancel' (by omega)] at hzero
        simp [hg] at hzero
      unfold Precedes
      omega

theorem longestRun (h : Scanned front length best) (gs : List UInt16) :
    IsFirstLongest (front ++ gs) (longestRun front.length length best gs) := by
  induction gs generalizing front length best with
  | nil =>
    rw [List.append_nil]
    exact h.isFirstLongest
  | cons g gs ih =>
    have hcons : front ++ g :: gs = (front ++ [g]) ++ gs := by simp
    have hindex : front.length + 1 = (front ++ [g]).length := by simp
    rw [Ipv6.longestRun, hcons, hindex]
    split
    · rename_i hg
      subst hg
      exact ih h.concat_zero
    · rename_i hg
      exact ih (h.concat_ne_zero hg)

end Scanned

/-- The run that is left out of the text is the first longest one. -/
theorem isFirstLongest_longestRun (groups : List UInt16) :
    IsFirstLongest groups (longestRun 0 0 (0, 0) groups) :=
  scanned_nil.longestRun groups

end MachineFleet.Ipv6
