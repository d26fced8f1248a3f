import Mathlib.Data.List.Induction
import MachineFleet.Proofs.Data.Lists
import MachineFleet.Proofs.Readiness

namespace MachineFleet

def Readiness.flip : Readiness → Readiness
  | unready => ready
  | ready => unready

def Readiness.opposing : Readiness → Signal
  | unready => .ready
  | ready => .unready

def Transition.to : Readiness → Transition
  | .unready => becameUnready
  | .ready => becameReady

def Readiness.changeTo (before after : Readiness) : Option Transition :=
  if before = after then none else some (.to after)

def alternation (n : Nat) : List Transition :=
  (List.range n).map fun i => if i % 2 = 0 then .becameReady else .becameUnready

/-- How many checks in a row have had this outcome last. -/
def endRun (x : Signal) (outcomes : List Signal) : Nat :=
  (outcomes.reverse.takeWhile (· == x)).length

/-- At some point as many checks in a row were ready as are needed, and from then on never as many
in a row unready as refute it. -/
def Confirms (needed refuting : Nat) (outcomes : List Signal) : Prop :=
  ∃ before after, outcomes = before ++ List.replicate needed .ready ++ after ∧
    ¬ List.replicate refuting .unready <:+: after

section Runs

variable {x y : Signal} {outcomes before after : List Signal} {n needed refuting : Nat}

theorem alternation_succ (n : Nat) :
    alternation (n + 1) =
      alternation n ++ [if n % 2 = 0 then .becameReady else .becameUnready] := by
  simp [alternation, List.range_succ]

theorem endRun_concat (x y : Signal) (outcomes : List Signal) :
    endRun x (outcomes ++ [y]) = if y = x then endRun x outcomes + 1 else 0 := by
  simp only [endRun, List.reverse_append, List.reverse_singleton, List.singleton_append,
    List.takeWhile_cons, beq_iff_eq]
  split <;> rfl

theorem endRun_concat_self (x : Signal) (outcomes : List Signal) :
    endRun x (outcomes ++ [x]) = endRun x outcomes + 1 := by
  rw [endRun_concat, if_pos rfl]

theorem endRun_concat_of_ne (h : y ≠ x) : endRun x (outcomes ++ [y]) = 0 := by
  rw [endRun_concat, if_neg h]

theorem replicate_suffix_iff : List.replicate n x <:+ outcomes ↔ n ≤ endRun x outcomes := by
  induction outcomes using List.reverseRecOn generalizing n with
  | nil => simp [endRun]
  | append_singleton outcomes y ih =>
    cases n with
    | zero => simp
    | succ n =>
      have hlast (t : List Signal) :
          List.replicate n x ++ [x] = t ++ [y] ↔ List.replicate n x = t ∧ x = y := by
        rw [List.append_singleton_inj]
      rw [endRun_concat, List.replicate_succ', List.suffix_concat_iff]
      simp only [hlast, List.append_eq_nil_iff, List.cons_ne_self, and_false, false_or]
      by_cases hy : y = x
      · subst hy
        simpa using ih
      · simp [hy, Ne.symm hy]

theorem eq_of_replicate_suffix_concat (hn : 0 < n)
    (h : List.replicate n x <:+ outcomes ++ [y]) : y = x := by
  by_contra hne
  have hle : n ≤ endRun x (outcomes ++ [y]) := replicate_suffix_iff.1 h
  rw [endRun_concat_of_ne hne] at hle
  omega

theorem endRun_append_cons_of_ne (h : y ≠ x) :
    endRun x (before ++ y :: after) = endRun x after := by
  induction after using List.reverseRecOn with
  | nil => exact endRun_concat_of_ne h
  | append_singleton after z ih =>
    rw [← List.cons_append, ← List.append_assoc, endRun_concat, endRun_concat, ih]

theorem confirms_concat_ready (hr : 0 < refuting) :
    Confirms needed refuting (outcomes ++ [.ready]) ↔
      Confirms needed refuting outcomes ∨ needed ≤ endRun .ready (outcomes ++ [.ready]) := by
  rw [← replicate_suffix_iff]
  constructor
  · rintro ⟨before, after, ho, hafter⟩
    rcases List.eq_nil_or_concat after with rfl | ⟨rest, x, rfl⟩
    · right
      rw [ho, List.append_nil]
      exact List.suffix_append ..
    · left
      rw [List.concat_eq_append, ← List.append_assoc] at ho
      obtain ⟨rfl, -⟩ := List.append_singleton_inj.1 ho
      refine ⟨before, rest, rfl, fun h => hafter ?_⟩
      rw [List.concat_eq_append]
      exact h.trans (List.infix_append' [] rest [x])
  · rintro (⟨before, after, rfl, hafter⟩ | ⟨before, hbefore⟩)
    · refine ⟨before, after ++ [.ready], by simp, fun h => ?_⟩
      rcases List.infix_concat_iff.1 h with h | h
      · cases eq_of_replicate_suffix_concat hr h
      · exact hafter h
    · refine ⟨before, [], by rw [List.append_nil, hbefore], fun h => ?_⟩
      have hlength := h.length_le
      rw [List.length_replicate, List.length_nil] at hlength
      omega

theorem confirms_concat_unready (hn : 0 < needed) :
    Confirms needed refuting (outcomes ++ [.unready]) ↔
      Confirms needed refuting outcomes ∧
        endRun .unready (outcomes ++ [.unready]) < refuting := by
  rw [← Nat.not_le, ← replicate_suffix_iff]
  constructor
  · rintro ⟨before, after, ho, hafter⟩
    rcases List.eq_nil_or_concat after with rfl | ⟨rest, x, rfl⟩
    · -- The last check would be ready.
      rw [List.append_nil] at ho
      have hend : List.replicate needed .ready <:+ outcomes ++ [.unready] :=
        ⟨before, ho.symm⟩
      cases eq_of_replicate_suffix_concat hn hend
    rw [List.concat_eq_append] at ho hafter
    have hrest := ho
    rw [← List.append_assoc] at hrest
    obtain ⟨rfl, rfl⟩ := List.append_singleton_inj.1 hrest
    refine ⟨⟨before, rest, rfl, fun h => hafter (h.trans (List.infix_append' [] rest _))⟩, ?_⟩
    intro hend
    -- All that refutes would come after the ready checks.
    obtain ⟨m, rfl⟩ := Nat.exists_eq_succ_of_ne_zero (Nat.ne_of_gt hn)
    have hcons : before ++ List.replicate (m + 1) .ready ++ (rest ++ [.unready]) =
        before ++ List.replicate m .ready ++ .ready :: (rest ++ [.unready]) := by
      simp [List.replicate_succ']
    have hrun : refuting ≤ endRun .unready (rest ++ [.unready]) := by
      rw [ho, hcons, replicate_suffix_iff, endRun_append_cons_of_ne (by decide)] at hend
      exact hend
    exact hafter (replicate_suffix_iff.2 hrun).isInfix
  · rintro ⟨⟨before, after, rfl, hafter⟩, hend⟩
    refine ⟨before, after ++ [.unready], by simp, fun h => ?_⟩
    rcases List.infix_concat_iff.1 h with h | h
    · refine hend (h.trans ?_)
      rw [List.append_assoc]
      exact List.suffix_append ..
    · exact hafter h

end Runs

namespace ReadinessTracker

def threshold (t : ReadinessTracker) : Nat :=
  match t.state with
  | .unready => t.successThreshold
  | .ready => t.failureThreshold

variable {t : ReadinessTracker} {outcomes : List Signal} {x : Signal}

/-- An outcome agrees with the judgement, is counted against it, or turns it over. -/
theorem observe_cases (t : ReadinessTracker) (x : Signal) :
    (x ≠ t.state.opposing ∧ t.observe x = ({ t with consecutive := 0 }, none)) ∨
    (x = t.state.opposing ∧ t.consecutive + 1 < t.threshold ∧
      t.observe x = ({ t with consecutive := t.consecutive + 1 }, none)) ∨
    (x = t.state.opposing ∧ t.threshold ≤ t.consecutive + 1 ∧
      t.observe x =
        ({ t with state := t.state.flip, consecutive := 0 }, some (.to t.state.flip))) := by
  obtain ⟨state, consecutive, success, failure⟩ := t
  cases state <;> cases x
  · rcases Nat.lt_or_ge (consecutive + 1) success with h | h
    · exact .inr (.inl ⟨rfl, h, by simp [observe, Nat.not_le.2 h]⟩)
    · exact .inr (.inr ⟨rfl, h, by simp [observe, h, Readiness.flip, Transition.to]⟩)
  · exact .inl ⟨by simp [Readiness.opposing], rfl⟩
  · exact .inl ⟨by simp [Readiness.opposing], rfl⟩
  · rcases Nat.lt_or_ge (consecutive + 1) failure with h | h
    · exact .inr (.inl ⟨rfl, h, by simp [observe, Nat.not_le.2 h]⟩)
    · exact .inr (.inr ⟨rfl, h, by simp [observe, h, Readiness.flip, Transition.to]⟩)

theorem observe_snd (t : ReadinessTracker) (x : Signal) :
    (t.observe x).2 = t.state.changeTo (t.observe x).1.state := by
  rcases t.observe_cases x with ⟨-, h⟩ | ⟨-, -, h⟩ | ⟨-, -, h⟩
  · simp [h, Readiness.changeTo]
  · simp [h, Readiness.changeTo]
  · rw [h]
    cases hs : t.state <;> simp [Readiness.changeTo, Readiness.flip]

theorem thresholds_after (t : ReadinessTracker) (outcomes : List Signal) :
    (t.after outcomes).successThreshold = t.successThreshold ∧
      (t.after outcomes).failureThreshold = t.failureThreshold := by
  induction outcomes using List.reverseRecOn with
  | nil => exact ⟨rfl, rfl⟩
  | append_singleton outcomes x ih =>
    rw [after_concat]
    rcases (t.after outcomes).observe_cases x with ⟨-, h⟩ | ⟨-, -, h⟩ | ⟨-, -, h⟩ <;>
      rw [h] <;> exact ih

/-- The judgement and the counter are what the checks so far make them. -/
structure Reflects (t : ReadinessTracker) (outcomes : List Signal) : Prop where
  success_pos : 0 < t.successThreshold
  failure_pos : 0 < t.failureThreshold
  state : t.state = .ready ↔ Confirms t.successThreshold t.failureThreshold outcomes
  consecutive : t.consecutive = endRun t.state.opposing outcomes
  lt : t.consecutive < t.threshold

theorem Reflects.threshold_pos (h : Reflects t outcomes) : 0 < t.threshold := by
  unfold threshold
  cases t.state
  · exact h.success_pos
  · exact h.failure_pos

theorem Reflects.endRun_opposing (h : Reflects t outcomes) :
    endRun t.state.opposing (outcomes ++ [t.state.opposing]) = t.consecutive + 1 := by
  rw [endRun_concat_self, h.consecutive]

theorem Reflects.confirms_of_ne (h : Reflects t outcomes) (hne : x ≠ t.state.opposing) :
    Confirms t.successThreshold t.failureThreshold (outcomes ++ [x]) ↔ t.state = .ready := by
  cases hs : t.state with
  | unready =>
    obtain rfl : x = .unready := by
      rw [hs] at hne
      cases x
      · exact absurd rfl hne
      · rfl
    rw [confirms_concat_unready h.success_pos, ← h.state, hs]
    simp
  | ready =>
    obtain rfl : x = .ready := by
      rw [hs] at hne
      cases x
      · rfl
      · exact absurd rfl hne
    rw [confirms_concat_ready h.failure_pos, ← h.state, hs]
    simp

theorem Reflects.confirms_opposing (h : Reflects t outcomes) :
    Confirms t.successThreshold t.failureThreshold (outcomes ++ [t.state.opposing]) ↔
      (t.state = .ready ↔ t.consecutive + 1 < t.threshold) := by
  have hcount := h.endRun_opposing
  cases hs : t.state with
  | unready =>
    simp only [hs, Readiness.opposing] at hcount
    simp only [Readiness.opposing, threshold, hs]
    rw [confirms_concat_ready h.failure_pos, ← h.state, hs, hcount]
    simp
  | ready =>
    simp only [hs, Readiness.opposing] at hcount
    simp only [Readiness.opposing, threshold, hs]
    rw [confirms_concat_unready h.success_pos, ← h.state, hs, hcount]
    simp

theorem Reflects.observe (h : Reflects t outcomes) (x : Signal) :
    Reflects (t.observe x).1 (outcomes ++ [x]) := by
  rcases t.observe_cases x with ⟨hne, he⟩ | ⟨rfl, hlt, he⟩ | ⟨rfl, hle, he⟩ <;> rw [he]
  · exact ⟨h.success_pos, h.failure_pos, (h.confirms_of_ne hne).symm,
      (endRun_concat_of_ne hne).symm, h.threshold_pos⟩
  · refine ⟨h.success_pos, h.failure_pos, ?_, h.endRun_opposing.symm, hlt⟩
    rw [h.confirms_opposing]
    simp [hlt]
  · have hflip : t.state.opposing ≠ t.state.flip.opposing := by
      cases t.state <;> nofun
    refine ⟨h.success_pos, h.failure_pos, ?_, (endRun_concat_of_ne hflip).symm, ?_⟩
    · rw [h.confirms_opposing]
      cases t.state <;> simp [Readiness.flip, Nat.not_lt.2 hle]
    · cases hs : t.state
      · simpa [threshold, Readiness.flip, hs] using h.failure_pos
      · simpa [threshold, Readiness.flip, hs] using h.success_pos

theorem reflects_after (success failure : Nat) (outcomes : List Signal) :
    Reflects ((new success failure).after outcomes) outcomes := by
  induction outcomes using List.reverseRecOn with
  | nil =>
    refine ⟨Nat.le_max_left .., Nat.le_max_left .., ⟨nofun, ?_⟩, rfl, Nat.le_max_left ..⟩
    rintro ⟨front, rest, hnil, -⟩
    have hlength := congrArg List.length hnil
    have hpos : 0 < max 1 success := Nat.le_max_left ..
    simp only [after, new, List.foldl_nil, List.length_nil, List.length_append,
      List.length_replicate] at hlength
    omega
  | append_singleton outcomes x ih =>
    rw [after_concat]
    exact ih.observe x

theorem state_after_take (t : ReadinessTracker) {i : Nat}
    (hi : outcomes.length ≤ i + (t.after outcomes).consecutive) :
    (t.after (outcomes.take i)).state = (t.after outcomes).state := by
  induction outcomes using List.reverseRecOn with
  | nil => rw [List.take_nil]
  | append_singleton outcomes x ih =>
    rcases Nat.lt_or_ge outcomes.length i with hlt | hge
    · rw [List.take_of_length_le (by simp; omega)]
    · rw [List.take_append_of_le_length hge]
      rw [after_concat, List.length_append, List.length_singleton] at hi
      rw [after_concat]
      -- The last outcome was counted, for else nothing would be in the counter.
      rcases (t.after outcomes).observe_cases x with ⟨-, he⟩ | ⟨-, -, he⟩ | ⟨-, -, he⟩
      · simp only [he] at hi
        omega
      · simp only [he] at hi ⊢
        exact ih (by omega)
      · simp only [he] at hi
        omega

theorem observeAll_concat (t : ReadinessTracker) (outcomes : List Signal) (x : Signal) :
    t.observeAll (outcomes ++ [x]) = t.observeAll outcomes ++ [(t.after outcomes).observe x] := by
  induction outcomes generalizing t with
  | nil => rfl
  | cons y rest ih => rw [List.cons_append, observeAll, ih, observeAll, List.cons_append]; rfl

theorem length_observeAll (t : ReadinessTracker) (outcomes : List Signal) :
    (t.observeAll outcomes).length = outcomes.length := by
  induction outcomes generalizing t with
  | nil => rfl
  | cons x rest ih => rw [observeAll, List.length_cons, ih, List.length_cons]

theorem change_at (t : ReadinessTracker) {i : Nat} (hi : i < outcomes.length) :
    (t.observeAll outcomes)[i]?.map (·.2) =
      some ((t.after (outcomes.take i)).state.changeTo (t.after (outcomes.take (i + 1))).state) := by
  induction outcomes using List.reverseRecOn with
  | nil => cases hi
  | append_singleton outcomes x ih =>
    rw [observeAll_concat]
    rw [List.length_append, List.length_singleton] at hi
    rcases Nat.lt_or_eq_of_le (Nat.le_of_lt_succ hi) with hlt | rfl
    · rw [List.getElem?_append_left (by rwa [length_observeAll]), ih hlt,
        List.take_append_of_le_length (Nat.le_of_lt hlt), List.take_append_of_le_length hlt]
    · rw [← length_observeAll t, List.getElem?_concat_length, length_observeAll, List.take_left',
        List.take_of_length_le (by simp), after_concat, Option.map_some, observe_snd]
      rfl

theorem changes_eq_alternation (success failure : Nat) (outcomes : List Signal) :
    ∃ n, ((new success failure).observeAll outcomes).filterMap (·.2) = alternation n ∧
      (((new success failure).after outcomes).state = .ready ↔ n % 2 = 1) := by
  induction outcomes using List.reverseRecOn with
  | nil => exact ⟨0, rfl, by simp [after, new]⟩
  | append_singleton outcomes x ih =>
    obtain ⟨n, hn, hstate⟩ := ih
    rw [observeAll_concat, filterMap_concat, hn, after_concat, observe_snd]
    generalize ((new success failure).after outcomes).state = before at *
    generalize (((new success failure).after outcomes).observe x).1.state = next
    by_cases he : before = next
    · exact ⟨n, by simp [Readiness.changeTo, he], he ▸ hstate⟩
    · have hchange : before.changeTo next = some (.to next) := if_neg he
      refine ⟨n + 1, ?_, ?_⟩
      · rw [hchange, alternation_succ]
        cases next <;> cases before <;> simp_all [Transition.to]
      · cases next <;> cases before <;> simp_all <;> omega

/-- A machine is judged ready exactly if its checks confirm it: at some point as many of them in a
row were ready as the threshold asks for, and from then on never as many in a row unready as the
other one asks for. Changes are told exactly where the judgement changes, and undo one another in
turn. The counter holds the length of the last run of outcomes against the judgement, all since the
last change; it stays below the threshold and therefore within 32 bits. -/
theorem judgement_of_outcomes (success failure : UInt32) (outcomes : List Signal) :
    let fresh := new success.toNat failure.toNat
    let t := fresh.after outcomes
    (t.state = .ready ↔ Confirms (max 1 success.toNat) (max 1 failure.toNat) outcomes) ∧
    (∀ i < outcomes.length, (fresh.observeAll outcomes)[i]?.map (·.2) =
      some ((fresh.after (outcomes.take i)).state.changeTo
        (fresh.after (outcomes.take (i + 1))).state)) ∧
    (∃ n, (fresh.observeAll outcomes).filterMap (·.2) = alternation n) ∧
    t.consecutive = endRun t.state.opposing outcomes ∧
    (∀ i, outcomes.length ≤ i + t.consecutive →
      (fresh.after (outcomes.take i)).state = t.state) ∧
    (t.state = .unready → t.consecutive < max 1 success.toNat) ∧
    (t.state = .ready → t.consecutive < max 1 failure.toNat) ∧
    t.consecutive + 1 < UInt32.size := by
  intro fresh t
  have h : Reflects t outcomes := reflects_after success.toNat failure.toNat outcomes
  have hsuccess : t.successThreshold = max 1 success.toNat := (thresholds_after fresh outcomes).1
  have hfailure : t.failureThreshold = max 1 failure.toNat := (thresholds_after fresh outcomes).2
  obtain ⟨n, hn, -⟩ := changes_eq_alternation success.toNat failure.toNat outcomes
  have hunready (hs : t.state = .unready) : t.consecutive < max 1 success.toNat := by
    simpa only [threshold, hs, hsuccess] using h.lt
  have hready (hs : t.state = .ready) : t.consecutive < max 1 failure.toNat := by
    simpa only [threshold, hs, hfailure] using h.lt
  refine ⟨?_, fun i hi => change_at fresh hi, ⟨n, hn⟩, h.consecutive,
    fun i hi => state_after_take fresh hi, hunready, hready, ?_⟩
  · have hstate := h.state
    rwa [hsuccess, hfailure] at hstate
  · have hs := success.toNat_lt
    have hf := failure.toNat_lt
    have hsize : UInt32.size = 2 ^ 32 := rfl
    cases hstate : t.state with
    | unready =>
      have hlt := hunready hstate
      omega
    | ready =>
      have hlt := hready hstate
      omega

end ReadinessTracker

end MachineFleet
