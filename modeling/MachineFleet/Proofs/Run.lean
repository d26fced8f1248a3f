/-!
Runs of systems that go step by step. A step takes an input and gives the next state and its
effects; a run is any sequence of inputs that the system takes, with all that happened on the way.
-/
namespace MachineFleet

variable {σ ι ε : Type}

structure Happening (σ ι ε : Type) where
  before : σ
  input : ι
  effects : List ε

/-- The steps of a history, one after the other, lead from a start to a state. -/
inductive Run (step : σ → ι → Option (σ × List ε)) (start : σ) :
    List (Happening σ ι ε) → σ → Prop where
  | nil : Run step start [] start
  | snoc {history : List (Happening σ ι ε)} {s s' : σ} {i : ι} {effects : List ε} :
      Run step start history s → step s i = some (s', effects) →
      Run step start (history ++ [⟨s, i, effects⟩]) s'

def replay (step : σ → ι → Option (σ × List ε)) (s : σ) :
    List ι → Option (List (Happening σ ι ε) × σ)
  | [] => some ([], s)
  | i :: rest => do
    let (s', effects) ← step s i
    let (history, last) ← replay step s' rest
    return (⟨s, i, effects⟩ :: history, last)

variable {step : σ → ι → Option (σ × List ε)} {start s s' : σ}
  {past later : List (Happening σ ι ε)}

theorem Run.trans (first : Run step start past s) (second : Run step s later s') :
    Run step start (past ++ later) s' := by
  -- On the later part, since a run grows at its end.
  induction second with
  | nil => simpa using first
  | snoc _ h ih =>
    rw [← List.append_assoc]
    exact ih.snoc h

theorem Run.one {i : ι} {effects : List ε} (h : step s i = some (s', effects)) :
    Run step s [⟨s, i, effects⟩] s' := by
  simpa using Run.nil.snoc h

theorem Run.of_replay {inputs : List ι} (h : replay step s inputs = some (past, s')) :
    Run step s past s' := by
  induction inputs generalizing s past with
  | nil =>
    cases h
    exact .nil
  | cons i rest ih =>
    simp only [replay, Option.bind_eq_bind, Option.bind_eq_some_iff, Prod.exists] at h
    obtain ⟨t, effects, ht, later, last, hl, he⟩ := h
    cases he
    exact (Run.one ht).trans (ih hl)

theorem map_input_of_replay {inputs : List ι} (h : replay step s inputs = some (past, s')) :
    past.map (·.input) = inputs := by
  induction inputs generalizing s past with
  | nil =>
    cases h
    rfl
  | cons i rest ih =>
    simp only [replay, Option.bind_eq_bind, Option.bind_eq_some_iff, Prod.exists] at h
    obtain ⟨t, effects, -, later, last, hl, he⟩ := h
    cases he
    rw [List.map_cons, ih hl]

theorem mem_inputs_of_replay {inputs : List ι} {i : ι}
    (h : replay step s inputs = some (past, s')) : i ∈ inputs ↔ ∃ x ∈ past, x.input = i := by
  rw [← map_input_of_replay h, List.mem_map]

theorem last_of_replay {β : Type} {inputs : List ι} (h : replay step s inputs = some (past, s'))
    (g : σ → β) {b : β} (hb : (replay step s inputs).map (fun r => g r.2) = some b) : g s' = b := by
  rw [h] at hb
  exact Option.some.inj hb

theorem history_of_replay {β : Type} {inputs : List ι} (h : replay step s inputs = some (past, s'))
    (g : List (Happening σ ι ε) → β) {b : β}
    (hb : (replay step s inputs).map (fun r => g r.1) = some b) : g past = b := by
  rw [h] at hb
  exact Option.some.inj hb

theorem Run.of_append (run : Run step start (past ++ later) s) :
    ∃ t, Run step start past t ∧ Run step t later s := by
  generalize hall : past ++ later = all at run
  -- On the run: its last step is the last of the later part, if that one is not empty.
  induction run generalizing later with
  | nil =>
    obtain ⟨rfl, rfl⟩ := List.append_eq_nil_iff.1 hall
    exact ⟨start, .nil, .nil⟩
  | snoc run h ih =>
    rcases List.eq_nil_or_concat later with rfl | ⟨rest, x, rfl⟩
    · rw [List.append_nil] at hall
      exact ⟨_, hall ▸ run.snoc h, .nil⟩
    · rw [List.concat_eq_append, ← List.append_assoc] at hall
      obtain ⟨rfl, he⟩ := List.append_inj' hall rfl
      cases he
      obtain ⟨t, hpast, hlater⟩ := ih rfl
      rw [List.concat_eq_append]
      exact ⟨t, hpast, hlater.snoc h⟩

theorem Run.of_prefix {earlier : List (Happening σ ι ε)} (run : Run step start past s)
    (hp : earlier <+: past) : ∃ t, Run step start earlier t := by
  obtain ⟨later, rfl⟩ := hp
  obtain ⟨t, h, -⟩ := run.of_append
  exact ⟨t, h⟩

theorem Run.of_concat {x : Happening σ ι ε} (run : Run step start (past ++ [x]) s) :
    Run step start past x.before ∧ step x.before x.input = some (s, x.effects) := by
  generalize hall : past ++ [x] = all at run
  cases run with
  | nil => simp at hall
  | snoc run h =>
    obtain ⟨rfl, he⟩ := List.append_inj' hall rfl
    cases he
    exact ⟨run, h⟩

theorem Run.of_append_cons {x : Happening σ ι ε} (run : Run step start (past ++ x :: later) s) :
    ∃ t, Run step start past x.before ∧ step x.before x.input = some (t, x.effects) ∧
      Run step t later s := by
  rw [← List.singleton_append, ← List.append_assoc] at run
  obtain ⟨t, hfirst, hrest⟩ := run.of_append
  obtain ⟨hpast, h⟩ := hfirst.of_concat
  exact ⟨t, hpast, h, hrest⟩

theorem Run.split {x : Happening σ ι ε} (run : Run step start past s) (hx : x ∈ past) :
    ∃ earlier later t, past = earlier ++ x :: later ∧ Run step start earlier x.before ∧
      step x.before x.input = some (t, x.effects) ∧ Run step t later s := by
  obtain ⟨earlier, later, rfl⟩ := List.append_of_mem hx
  obtain ⟨t, hfirst, h, hrest⟩ := run.of_append_cons
  exact ⟨earlier, later, t, rfl, hfirst, h, hrest⟩

theorem Run.of_mem {x : Happening σ ι ε} (run : Run step start past s) (hx : x ∈ past) :
    ∃ earlier, earlier <+: past ∧ Run step start earlier x.before ∧
      ∃ t, step x.before x.input = some (t, x.effects) := by
  obtain ⟨earlier, later, t, rfl, hrun, h, -⟩ := run.split hx
  exact ⟨earlier, List.prefix_append .., hrun, t, h⟩

theorem Run.invariant {P : List (Happening σ ι ε) → σ → Prop} (run : Run step start past s)
    (init : P [] start)
    (keep : ∀ history s i s' effects, P history s → step s i = some (s', effects) →
      P (history ++ [⟨s, i, effects⟩]) s') : P past s := by
  induction run with
  | nil => exact init
  | snoc _ h ih => exact keep _ _ _ _ _ ih h

structure Execution (step : σ → ι → Option (σ × List ε)) (start : σ) where
  state : Nat → σ
  input : Nat → ι
  effects : Nat → List ε
  starts : state 0 = start
  steps (n : Nat) : step (state n) (input n) = some (state (n + 1), effects n)

namespace Execution

variable (x : Execution step start)

def history : Nat → List (Happening σ ι ε)
  | 0 => []
  | n + 1 => history n ++ [⟨x.state n, x.input n, x.effects n⟩]

theorem run (n : Nat) : Run step start (x.history n) (x.state n) := by
  induction n with
  | zero =>
    rw [x.starts]
    exact .nil
  | succ n ih => exact ih.snoc (x.steps n)

theorem mem_history {n : Nat} {e : Happening σ ι ε} :
    e ∈ x.history n ↔ ∃ i < n, e = ⟨x.state i, x.input i, x.effects i⟩ := by
  induction n with
  | zero => simp [history]
  | succ n ih =>
    rw [history, List.mem_append, ih, List.mem_singleton]
    constructor
    · rintro (⟨i, hi, rfl⟩ | rfl)
      · exact ⟨i, Nat.lt_succ_of_lt hi, rfl⟩
      · exact ⟨n, Nat.lt_succ_self n, rfl⟩
    · rintro ⟨i, hi, rfl⟩
      rcases Nat.lt_succ_iff_lt_or_eq.1 hi with hi | rfl
      · exact .inl ⟨i, hi, rfl⟩
      · exact .inr rfl

theorem getElem?_history {n i : Nat} (hi : i < n) :
    (x.history n)[i]? = some ⟨x.state i, x.input i, x.effects i⟩ := by
  have hlength (n : Nat) : (x.history n).length = n := by
    induction n with
    | zero => rfl
    | succ n ih => rw [history, List.length_append, ih, List.length_singleton]
  induction n with
  | zero => cases hi
  | succ n ih =>
    rw [history]
    rcases Nat.lt_succ_iff_lt_or_eq.1 hi with hi | rfl
    · rw [List.getElem?_append_left (by rw [hlength]; exact hi), ih hi]
    · have hlast := List.getElem?_concat_length
        (l := x.history i) (a := ⟨x.state i, x.input i, x.effects i⟩)
      rwa [hlength] at hlast

theorem stays {P : Nat → Prop} {n m : Nat} (hn : P n) (hm : n ≤ m)
    (keep : ∀ i ≥ n, P i → P (i + 1)) : P m := by
  obtain ⟨d, rfl⟩ := Nat.exists_eq_add_of_le hm
  induction d with
  | zero => exact hn
  | succ d ih => exact keep (n + d) (Nat.le_add_right n d) (ih (Nat.le_add_right n d))

/-- What holds at some time and no longer later on ceases to hold with one step. -/
theorem exists_last {P : Nat → Prop} {n m : Nat} (hn : P n) (hm : ¬ P m) (hle : n ≤ m) :
    ∃ i, n ≤ i ∧ i < m ∧ (∀ j, n ≤ j → j ≤ i → P j) ∧ ¬ P (i + 1) := by
  -- On the time that it takes: either the first step ends it, or it goes on after that.
  induction h : m - n generalizing n with
  | zero =>
    have heq : n = m := by omega
    exact absurd (heq ▸ hn) hm
  | succ d ih =>
    have hlt : n < m := by omega
    by_cases hnext : P (n + 1)
    · obtain ⟨i, hni, him, hall, hlast⟩ := ih hnext (by omega) (by omega)
      refine ⟨i, by omega, him, ?_, hlast⟩
      intro j hj hji
      rcases Nat.eq_or_lt_of_le hj with rfl | hj
      · exact hn
      · exact hall j hj hji
    · refine ⟨n, Nat.le_refl n, hlt, ?_, hnext⟩
      intro j hj hjn
      have heq : j = n := by omega
      exact heq ▸ hn

/-- A step of a kind is made at some time if one can be made at all times. -/
def WeaklyFair (kind : ι → Prop) : Prop :=
  ∀ n, (∀ m ≥ n, ∃ i, kind i ∧ (step (x.state m) i).isSome) → ∃ m ≥ n, kind (x.input m)

/-- A goal is reached if until then a step that brings it nearer can always be made, and no other
step takes it away. -/
theorem WeaklyFair.reaches {kind : ι → Prop} (hf : x.WeaklyFair kind) (goal : σ → Prop)
    (rank : σ → Nat) {n : Nat}
    (can : ∀ m ≥ n, ¬ goal (x.state m) → ∃ i, kind i ∧ (step (x.state m) i).isSome)
    (le : ∀ m ≥ n, ¬ goal (x.state m) → rank (x.state (m + 1)) ≤ rank (x.state m))
    (lt : ∀ m ≥ n, ¬ goal (x.state m) → kind (x.input m) →
      rank (x.state (m + 1)) < rank (x.state m)) : ∃ m ≥ n, goal (x.state m) := by
  -- On the rank, for all times at once.
  induction hr : rank (x.state n) using Nat.strongRecOn generalizing n with
  | ind r ih =>
    -- If the goal is never reached, steps of the kind are always possible, and the rank falls on.
    by_cases hg : ∃ m ≥ n, goal (x.state m)
    · exact hg
    have hn (m : Nat) (hm : m ≥ n) : ¬ goal (x.state m) := fun h => hg ⟨m, hm, h⟩
    obtain ⟨m, hm, hk⟩ := hf n fun m hm => can m hm (hn m hm)
    have hrank : rank (x.state m) ≤ rank (x.state n) :=
      stays (P := fun i => rank (x.state i) ≤ rank (x.state n)) (Nat.le_refl _) hm
        fun i hi h => Nat.le_trans (le i hi (hn i hi)) h
    have hlt : rank (x.state (m + 1)) < r := by
      rw [← hr]
      exact Nat.lt_of_lt_of_le (lt m hm (hn m hm) hk) hrank
    have hlater {i : Nat} (hi : i ≥ m + 1) : i ≥ n := by omega
    obtain ⟨i, hi, h⟩ := ih _ hlt (fun i hi => can i (hlater hi)) (fun i hi => le i (hlater hi))
      (fun i hi => lt i (hlater hi)) rfl
    exact ⟨i, hlater hi, h⟩

def forever {i : ι} {effects : List ε} (h : step s i = some (s, effects)) : Execution step s where
  state _ := s
  input _ := i
  effects _ := effects
  starts := rfl
  steps _ := h

def cons {i : ι} {effects : List ε} (h : step s i = some (s', effects)) (x : Execution step s') :
    Execution step s where
  state
    | 0 => s
    | n + 1 => x.state n
  input
    | 0 => i
    | n + 1 => x.input n
  effects
    | 0 => effects
    | n + 1 => x.effects n
  starts := rfl
  steps
    | 0 => by
      show step s i = some (x.state 0, effects)
      rw [x.starts]
      exact h
    | n + 1 => x.steps n

theorem exists_of_run (run : Run step start past s) (x : Execution step s) :
    ∃ y : Execution step start, y.history past.length = past ∧
      ∀ n, y.state (past.length + n) = x.state n ∧ y.input (past.length + n) = x.input n ∧
        y.effects (past.length + n) = x.effects n := by
  -- On the run: its last step becomes the first step of what follows.
  induction run with
  | nil => exact ⟨x, rfl, fun n => by simp⟩
  | @snoc past s s' i effects run h ih =>
    obtain ⟨y, hy, hrest⟩ := ih (cons h x)
    refine ⟨y, ?_, fun n => ?_⟩
    · obtain ⟨hs, hi, he⟩ := hrest 0
      rw [Nat.add_zero] at hs hi he
      rw [List.length_append, List.length_singleton, history, hy, hs, hi, he]
      rfl
    · rw [List.length_append, List.length_singleton, Nat.add_assoc, Nat.add_comm 1 n]
      exact hrest (n + 1)

/-- A run after which nothing happens any more, and no step of a kind can be made, is the beginning
of an execution that is fair to it. -/
theorem exists_fair_of_run {kind : ι → Prop} {i : ι} {effects : List ε}
    (run : Run step start past s) (hidle : step s i = some (s, effects))
    (hblocked : ∀ j, kind j → step s j = none) :
    ∃ y : Execution step start, y.history past.length = past ∧ y.WeaklyFair kind := by
  obtain ⟨y, hy, hrest⟩ := exists_of_run run (forever hidle)
  refine ⟨y, hy, fun n hcan => ?_⟩
  obtain ⟨j, hj, hstep⟩ := hcan (past.length + n) (Nat.le_add_left n past.length)
  have hstate : y.state (past.length + n) = s := (hrest n).1
  rw [hstate, hblocked j hj] at hstep
  cases hstep

end Execution

end MachineFleet
