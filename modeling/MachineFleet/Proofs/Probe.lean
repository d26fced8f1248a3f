import MachineFleet.Probe
import MachineFleet.Proofs.Data.Outcome

namespace MachineFleet.Probe

variable {p p' : Probe} {reachable : Bool} {report : Option Message}

@[simp] theorem reply?_report (machine : Metadata) (change : Transition) :
    (Probe.report machine change).reply? = none := by
  cases change <;> rfl

/-- An outcome that changes nothing is passed over in silence. A change is reported, or judging
ends with it. -/
theorem judge?_cases (h : p.judge? reachable = some (p', report)) :
    ∃ tracker outcome rest, p.tracker = some tracker ∧ p.outcomes = outcome :: rest ∧
      (((tracker.observe outcome).2 = none ∧ report = none ∧
          p' = { p with tracker := some (tracker.observe outcome).1, outcomes := rest }) ∨
        ∃ change, (tracker.observe outcome).2 = some change ∧
          ((reachable = true ∧ report = some (Probe.report p.machine change) ∧
              p' = { p with tracker := some (tracker.observe outcome).1, outcomes := rest }) ∨
            reachable = false ∧ report = none ∧
              p' = { p with tracker := none, outcomes := [] })) := by
  unfold judge? at h
  split at h
  · rename_i tracker outcome rest ht ho
    refine ⟨tracker, outcome, rest, ht, ho, ?_⟩
    split at h
    · rename_i tracker' hob
      cases h
      exact .inl ⟨by rw [hob], rfl, by rw [hob]⟩
    · rename_i tracker' change hob
      refine .inr ⟨change, by rw [hob], ?_⟩
      split at h
      · rename_i hr
        cases h
        exact .inl ⟨hr, rfl, by rw [hob]⟩
      · rename_i hr
        cases h
        exact .inr ⟨by simpa using hr, rfl, rfl⟩
  · cases h

theorem exists_change {m : Message} (h : p.judge? reachable = some (p', some m)) :
    ∃ change, m = Probe.report p.machine change := by
  obtain ⟨tracker, outcome, rest, -, -, ⟨-, he, -⟩ | ⟨change, -, ⟨-, he, -⟩ | ⟨-, he, -⟩⟩⟩ :=
    judge?_cases h
  · cases he
  · cases he
    exact ⟨change, rfl⟩
  · cases he

theorem tick?_eq {now : Instant} (h : p.tick? now = some p') :
    ∃ ticker, p' = { p with ticker } := by
  obtain ⟨ticker, -, rfl⟩ := Option.map_eq_some_iff.1 h
  exact ⟨ticker, rfl⟩

theorem finish?_eq {outcome : Signal} (h : p.finish? outcome = some p') :
    ∃ ticker, p' =
      { p with ticker, outcomes := if p.tracker.isSome then p.outcomes ++ [outcome] else [] } := by
  obtain ⟨ticker, -, rfl⟩ := Option.map_eq_some_iff.1 h
  exact ⟨ticker, rfl⟩

theorem machine_tick? {now : Instant} (h : p.tick? now = some p') : p'.machine = p.machine := by
  obtain ⟨ticker, rfl⟩ := tick?_eq h
  rfl

theorem machine_finish? {outcome : Signal} (h : p.finish? outcome = some p') :
    p'.machine = p.machine := by
  obtain ⟨ticker, rfl⟩ := finish?_eq h
  rfl

theorem machine_judge? (h : p.judge? reachable = some (p', report)) : p'.machine = p.machine := by
  obtain ⟨tracker, outcome, rest, -, -, ⟨-, -, rfl⟩ | ⟨change, -, ⟨-, -, rfl⟩ | ⟨-, -, rfl⟩⟩⟩ :=
    judge?_cases h <;> rfl

theorem url_tick? {now : Instant} (h : p.tick? now = some p') : p'.url = p.url := by
  obtain ⟨ticker, rfl⟩ := tick?_eq h
  rfl

theorem url_finish? {outcome : Signal} (h : p.finish? outcome = some p') : p'.url = p.url := by
  obtain ⟨ticker, rfl⟩ := finish?_eq h
  rfl

theorem url_judge? (h : p.judge? reachable = some (p', report)) : p'.url = p.url := by
  obtain ⟨tracker, outcome, rest, -, -, ⟨-, -, rfl⟩ | ⟨change, -, ⟨-, -, rfl⟩ | ⟨-, -, rfl⟩⟩⟩ :=
    judge?_cases h <;> rfl

theorem isFiring_tick? {now : Instant} (h : p.tick? now = some p') :
    p.ticker.isFiring = false ∧ p'.ticker.isFiring = true := by
  obtain ⟨ticker, hf, rfl⟩ := Option.map_eq_some_iff.1 h
  unfold Ticker.fire? at hf
  split at hf
  · rename_i due hs
    split at hf
    · cases hf
      exact ⟨by simp [Ticker.isFiring, hs], rfl⟩
    · cases hf
  · cases hf

theorem isFiring_finish? {outcome : Signal} (h : p.finish? outcome = some p') :
    p.ticker.isFiring = true ∧ p'.ticker.isFiring = false := by
  obtain ⟨ticker, hf, rfl⟩ := Option.map_eq_some_iff.1 h
  unfold Ticker.finish? at hf
  split at hf
  · rename_i next hs
    cases hf
    exact ⟨by simp [Ticker.isFiring, hs], rfl⟩
  · cases hf

theorem ticker_judge? (h : p.judge? reachable = some (p', report)) : p'.ticker = p.ticker := by
  obtain ⟨tracker, outcome, rest, -, -, ⟨-, -, rfl⟩ | ⟨change, -, ⟨-, -, rfl⟩ | ⟨-, -, rfl⟩⟩⟩ :=
    judge?_cases h <;> rfl

section Spawn

variable {spec : ProbeSpec} {machine : Metadata} {now : Instant}

/-- A new probe asks the URL that was read, waits for its first check, and has come to nothing
yet. -/
theorem spawn_eq_ok (h : Probe.spawn spec machine now = .ok p) :
    spec.url = .ok p.url ∧ p.machine = machine ∧ p.ticker.isFiring = false ∧ p.outcomes = [] ∧
      p.tracker = some (.new spec.successThreshold.toNat spec.failureThreshold.toNat) := by
  obtain ⟨url, hurl, h⟩ := bind_eq_ok.1 h
  obtain ⟨idle, hidle, h⟩ := bind_eq_ok.1 h
  obtain ⟨ticker, hticker, h⟩ := bind_eq_ok.1 h
  cases h
  refine ⟨hurl, rfl, ?_, rfl, rfl⟩
  unfold Ticker.new at hidle
  split at hidle
  · cases hidle
    cases hticker
    rfl
  · cases hidle

end Spawn

end MachineFleet.Probe
