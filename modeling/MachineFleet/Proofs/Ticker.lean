import MachineFleet.Proofs.Run
import MachineFleet.Ticker
import Mathlib.Data.List.Induction
import Mathlib.Order.MinMax

/-!
When a ticker makes its calls, however long they take. The clock waits for whatever is due, so a
call is made as soon as it is due and the one before has ended. Every call keeps to a schedule that
is never ahead of an even one.
-/
namespace MachineFleet

theorem Ticker.fire?_cases {ticker ticker' : Ticker} {now : Instant}
    (h : ticker.fire? now = some ticker') :
    ∃ due, ticker.state = .running (.waiting due) ∧ due ≤ now ∧ ticker' =
      { ticker with state := .running (.firing (Ticker.following ticker.period due now)) } := by
  unfold Ticker.fire? at h
  split at h
  · rename_i due hs
    split at h
    · rename_i hdue
      cases h
      exact ⟨due, hs, hdue, rfl⟩
    · cases h
  · cases h

theorem Ticker.finish?_cases {ticker ticker' : Ticker} (h : ticker.finish? = some ticker') :
    ∃ next, ticker.state = .running (.firing next) ∧
      ticker' = { ticker with state := .running (.waiting next) } := by
  unfold Ticker.finish? at h
  split at h
  · rename_i next hs
    cases h
    exact ⟨next, hs, rfl⟩
  · cases h

structure ClockedTicker where
  ticker : Ticker
  now : Instant
  callEnd : Instant

namespace ClockedTicker

inductive Input where
  | wait (time : Duration)
  | fire (length : Duration)
  | finish
  | stop
  deriving DecidableEq

structure Call where
  time : Instant
  length : Duration
  deriving DecidableEq

def due? (s : ClockedTicker) : Option Instant :=
  if s.ticker.isFiring then some s.callEnd else s.ticker.due?

/-- One step, if it can be made. Time does not pass over anything that is due. -/
def step (s : ClockedTicker) : Input → Option (ClockedTicker × List Call)
  | .wait time =>
    if s.due?.all (s.now + time ≤ ·) then some ({ s with now := s.now + time }, []) else none
  | .fire length => (s.ticker.fire? s.now).map fun ticker =>
    ({ s with ticker, callEnd := s.now + length }, [⟨s.now, length⟩])
  | .finish =>
    if s.callEnd ≤ s.now then s.ticker.finish?.map fun ticker => ({ s with ticker }, []) else none
  | .stop => some ({ s with ticker := s.ticker.stop }, [])

def calls (history : List (Happening ClockedTicker Input Call)) : List Call :=
  history.flatMap (·.effects)

@[simp] theorem calls_append (history later : List (Happening ClockedTicker Input Call)) :
    calls (history ++ later) = calls history ++ calls later := List.flatMap_append

@[simp] theorem calls_singleton (x : Happening ClockedTicker Input Call) :
    calls [x] = x.effects := by
  simp [calls]

def freeAt (made : List Call) : Instant :=
  (made.getLast?.map fun c => c.time + c.length).getD 0

@[simp] theorem freeAt_concat (made : List Call) (c : Call) :
    freeAt (made ++ [c]) = c.time + c.length := by
  simp [freeAt]

/-- The calls so far, and when the next one is due. A call is made as soon as it is due and the one
before it has ended. -/
inductive Scheduled (first : Instant) (period : Duration) : List Call → Instant → Prop where
  | nil : Scheduled first period [] first
  | concat {made : List Call} {due : Instant} (c : Call) (h : Scheduled first period made due)
      (hc : c.time = max due (freeAt made)) :
      Scheduled first period (made ++ [c]) (Ticker.following period due c.time)

section Scheduled

variable {first due t : Instant} {period : Duration} {made : List Call} {b c : Call} {k : Nat}

theorem following_le (period : Duration) (h : due ≤ t) :
    Ticker.following period due t ≤ t + period := by
  unfold Ticker.following
  split
  · exact le_rfl
  · exact Nat.add_le_add_right h period

theorem add_period_le_following : due + period ≤ Ticker.following period due t := by
  unfold Ticker.following
  split
  · rename_i hlate
    have hle : due ≤ t := (Nat.le_add_right due Ticker.grace).trans hlate.le
    exact Nat.add_le_add_right hle period
  · exact le_rfl

theorem le_following_add_grace (period : Duration) (due t : Instant) :
    t + period ≤ Ticker.following period due t + Ticker.grace := by
  unfold Ticker.following
  split
  · exact Nat.le_add_right ..
  · rename_i hlate
    calc t + period
        ≤ due + Ticker.grace + period := Nat.add_le_add_right (not_lt.1 hlate) period
      _ = due + period + Ticker.grace := Nat.add_right_comm ..

theorem following_self : Ticker.following period due due = due + period := by
  rw [Ticker.following, if_neg (Nat.le_add_right due Ticker.grace).not_gt]

theorem Scheduled.take (h : Scheduled first period made due) (hc : made[k]? = some c) :
    ∃ due, Scheduled first period (made.take k) due ∧
      c.time = max due (freeAt (made.take k)) := by
  induction h with
  | nil => cases hc
  | @concat made due last h hlast ih =>
    rcases Nat.lt_or_ge k made.length with hlt | hge
    · rw [List.getElem?_append_left hlt] at hc
      rw [List.take_append_of_le_length hlt.le]
      exact ih hc
    · -- It is the last call, and the schedule before it is what is asked for.
      have hk : k = made.length := by
        have hbound := (List.getElem?_eq_some_iff.1 hc).1
        simp only [List.length_append, List.length_singleton] at hbound
        omega
      subst hk
      rw [List.getElem?_concat_length] at hc
      cases hc
      rw [List.take_left]
      exact ⟨due, h, hlast⟩

theorem Scheduled.succ (h : Scheduled first period made due) (hb : made[k]? = some b)
    (hc : made[k + 1]? = some c) :
    ∃ due, Scheduled first period (made.take k) due ∧ due ≤ b.time ∧
      c.time = max (Ticker.following period due b.time) (b.time + b.length) := by
  obtain ⟨next, hnext, hctime⟩ := h.take hc
  have htake : made.take (k + 1) = made.take k ++ [b] := by
    rw [List.take_add_one, hb]
    rfl
  rw [htake] at hnext hctime
  rw [freeAt_concat] at hctime
  -- The schedule up to the second call ends with the first one.
  generalize hall : made.take k ++ [b] = all at hnext
  cases hnext with
  | nil => simp at hall
  | @concat before due last hbefore hlast =>
    obtain ⟨rfl, he⟩ := List.append_inj' hall rfl
    cases he
    exact ⟨due, hbefore, hlast ▸ le_max_left .., hctime⟩

theorem Scheduled.le_due (h : Scheduled first period made due) :
    first + made.length * period ≤ due := by
  induction h with
  | nil => simp
  | @concat made due c h hc ih =>
    calc first + (made ++ [c]).length * period
        = first + made.length * period + period := by
          rw [List.length_append, List.length_singleton, Nat.succ_mul, Nat.add_assoc]
      _ ≤ due + period := Nat.add_le_add_right ih period
      _ ≤ Ticker.following period due c.time := add_period_le_following

theorem Scheduled.le_time (h : Scheduled first period made due) (hc : made[k]? = some c) :
    first + k * period ≤ c.time := by
  obtain ⟨due, hdue, htime⟩ := h.take hc
  have hlength : (made.take k).length = k := by
    rw [List.length_take]
    exact min_eq_left (List.getElem?_eq_some_iff.1 hc).1.le
  calc first + k * period
      = first + (made.take k).length * period := by rw [hlength]
    _ ≤ due := hdue.le_due
    _ ≤ c.time := htime ▸ le_max_left ..

/-- A call begins once the one before has ended, a period after that one up to the grace, and no
later than it has to. -/
theorem Scheduled.gap (h : Scheduled first period made due) (hb : made[k]? = some b)
    (hc : made[k + 1]? = some c) :
    b.time + b.length ≤ c.time ∧ b.time + period ≤ c.time + Ticker.grace ∧
      c.time ≤ b.time + max period b.length := by
  obtain ⟨due, -, hdue, htime⟩ := h.succ hb hc
  have hlate := le_following_add_grace period due b.time
  have hearly := following_le period hdue
  refine ⟨htime ▸ le_max_right .., ?_, ?_⟩
  · exact hlate.trans (Nat.add_le_add_right (htime ▸ le_max_left ..) _)
  · rw [htime, ← Nat.add_max_add_left]
    exact max_le_max hearly le_rfl

/-- As long as no call takes longer than a period, the schedule is even. -/
theorem Scheduled.due_eq (h : Scheduled first period made due)
    (hshort : ∀ b ∈ made, b.length ≤ period) :
    due = first + made.length * period ∧ freeAt made ≤ due := by
  induction h with
  | nil => simp [freeAt]
  | @concat made due c h hc ih =>
    obtain ⟨hdue, hfree⟩ := ih fun b hb => hshort b (List.mem_append_left _ hb)
    have hctime : c.time = due := hc.trans (max_eq_left hfree)
    have hclength := hshort c (by simp)
    rw [hctime, following_self, freeAt_concat, hctime]
    refine ⟨?_, Nat.add_le_add_left hclength due⟩
    rw [hdue, List.length_append, List.length_singleton, Nat.succ_mul, Nat.add_assoc]

theorem Scheduled.time_eq (h : Scheduled first period made due) (hc : made[k]? = some c)
    (hshort : ∀ b ∈ made.take k, b.length ≤ period) : c.time = first + k * period := by
  obtain ⟨due, hdue, htime⟩ := h.take hc
  obtain ⟨heven, hfree⟩ := hdue.due_eq hshort
  have hlength : (made.take k).length = k := by
    rw [List.length_take]
    exact min_eq_left (List.getElem?_eq_some_iff.1 hc).1.le
  rw [htime, max_eq_left hfree, heven, hlength]

theorem countP_le_of_getElem? {α : Type} {p : α → Bool} {l : List α} {n : Nat}
    (h : ∀ k x, l[k]? = some x → p x = true → k < n) : l.countP p ≤ n := by
  have hdrop : (l.drop n).countP p = 0 := by
    rw [List.countP_eq_zero]
    intro x hx hp
    obtain ⟨k, hk⟩ := List.mem_iff_getElem?.1 hx
    rw [List.getElem?_drop] at hk
    have := h (n + k) x hk hp
    omega
  calc l.countP p
      = (l.take n).countP p + (l.drop n).countP p := by
        rw [← List.countP_append, List.take_append_drop]
    _ = (l.take n).countP p := by rw [hdrop, Nat.add_zero]
    _ ≤ (l.take n).length := List.countP_le_length
    _ ≤ n := List.length_take_le n l

/-- The calls that have begun by some time are no more than there are periods until then. -/
theorem Scheduled.countP_le (h : Scheduled first period made due) (hp : 0 < period) (t : Instant) :
    made.countP (·.time ≤ t) ≤ (t - first) / period + 1 := by
  refine countP_le_of_getElem? fun k c hc htime => ?_
  have hle : first + k * period ≤ t := (h.le_time hc).trans (by simpa using htime)
  exact Nat.lt_succ_of_le ((Nat.le_div_iff_mul_le hp).2 (Nat.le_sub_of_add_le' hle))

theorem Scheduled.countP_eq_zero (h : Scheduled first period made due) (ht : t < first) :
    made.countP (·.time ≤ t) = 0 := by
  refine Nat.le_zero.1 (countP_le_of_getElem? fun k c hc htime => ?_)
  have hle : first + k * period ≤ t := (h.le_time hc).trans (by simpa using htime)
  exact absurd ((Nat.le_add_right ..).trans hle) ht.not_ge

end Scheduled

section Runs

variable {first t : Instant} {period : Duration}
  {history : List (Happening ClockedTicker Input Call)} {s s' : ClockedTicker}
  {made : List Call} {i : Input} {effects : List Call}

structure OnSchedule (first : Instant) (period : Duration) (made : List Call)
    (s : ClockedTicker) : Prop where
  period_eq : s.ticker.period = period
  scheduled : ∃ due, Scheduled first period made due
  waiting : ∀ due, s.ticker.state = .running (.waiting due) →
    Scheduled first period made due ∧ freeAt made ≤ s.now ∧ s.now ≤ max due (freeAt made)
  firing : ∀ next, s.ticker.state = .running (.firing next) →
    Scheduled first period made next ∧ made ≠ [] ∧ s.callEnd = freeAt made ∧ s.now ≤ s.callEnd
  not_idle : s.ticker.state ≠ .idle

theorem due?_waiting {due : Instant} (h : s.ticker.state = .running (.waiting due)) :
    s.due? = some due := by
  simp [due?, Ticker.isFiring, Ticker.due?, h]

theorem due?_firing {next : Instant} (h : s.ticker.state = .running (.firing next)) :
    s.due? = some s.callEnd := by
  simp [due?, Ticker.isFiring, h]

theorem OnSchedule.step (o : OnSchedule first period made s)
    (h : s.step i = some (s', effects)) : OnSchedule first period (made ++ effects) s' := by
  cases i with
  | wait time =>
    simp only [ClockedTicker.step] at h
    split at h
    · rename_i hall
      cases h
      rw [List.append_nil]
      refine ⟨o.period_eq, o.scheduled, fun due hs => ?_, fun next hs => ?_, o.not_idle⟩
      · obtain ⟨hsched, hfree, -⟩ := o.waiting due hs
        have hle : s.now + time ≤ due := by simpa [due?_waiting (s := s) hs] using hall
        exact ⟨hsched, Nat.le_add_right_of_le hfree, hle.trans (le_max_left ..)⟩
      · obtain ⟨hsched, hne, hend, -⟩ := o.firing next hs
        have hle : s.now + time ≤ s.callEnd := by simpa [due?_firing (s := s) hs] using hall
        exact ⟨hsched, hne, hend, hle⟩
    · cases h
  | fire length =>
    simp only [ClockedTicker.step, Option.map_eq_some_iff] at h
    obtain ⟨ticker, hfire, he⟩ := h
    obtain ⟨due, hs, hdue, rfl⟩ := Ticker.fire?_cases hfire
    cases he
    obtain ⟨hsched, hfree, hnow⟩ := o.waiting due hs
    -- The clock has waited for the call, so it comes neither early nor late.
    have htime : s.now = max due (freeAt made) := le_antisymm hnow (max_le hdue hfree)
    have hnext := hsched.concat ⟨s.now, length⟩ htime
    rw [← o.period_eq] at hnext
    refine ⟨o.period_eq, ⟨_, o.period_eq ▸ hnext⟩, nofun, fun next hs' => ?_, nofun⟩
    cases hs'
    exact ⟨o.period_eq ▸ hnext, by simp, (freeAt_concat made ⟨s.now, length⟩).symm,
      Nat.le_add_right ..⟩
  | finish =>
    simp only [ClockedTicker.step] at h
    split at h
    · rename_i hend
      simp only [Option.map_eq_some_iff] at h
      obtain ⟨ticker, hfinish, he⟩ := h
      obtain ⟨next, hs, rfl⟩ := Ticker.finish?_cases hfinish
      cases he
      rw [List.append_nil]
      obtain ⟨hsched, hne, hcall, hnow⟩ := o.firing next hs
      refine ⟨o.period_eq, o.scheduled, fun due hs' => ?_, nofun, nofun⟩
      cases hs'
      exact ⟨hsched, hcall ▸ hend, (hcall ▸ hnow).trans (le_max_right ..)⟩
    · cases h
  | stop =>
    cases h
    rw [List.append_nil]
    exact ⟨o.period_eq, o.scheduled, nofun, nofun, nofun⟩

theorem onSchedule_of_run {start : ClockedTicker} (o : OnSchedule first period [] start)
    (run : Run step start history s) : OnSchedule first period (calls history) s := by
  refine run.invariant (P := fun history s => OnSchedule first period (calls history) s) o ?_
  intro history s i s' effects ho h
  rw [calls_append, calls_singleton]
  exact ho.step h

theorem calls_of_stopped {start : ClockedTicker} (hs : start.ticker.state = .stopped)
    (run : Run step start history s) : calls history = [] := by
  refine (run.invariant
    (P := fun history s => s.ticker.state = .stopped ∧ calls history = []) ⟨hs, rfl⟩ ?_).2
  rintro history s i s' effects ⟨hs, hcalls⟩ h
  rw [calls_append, calls_singleton, hcalls, List.nil_append]
  cases i with
  | wait time =>
    simp only [ClockedTicker.step] at h
    split at h
    · cases h
      exact ⟨hs, rfl⟩
    · cases h
  | fire length =>
    simp only [ClockedTicker.step, Option.map_eq_some_iff] at h
    obtain ⟨ticker, hfire, -⟩ := h
    obtain ⟨due, hwaiting, -⟩ := Ticker.fire?_cases hfire
    cases hs.symm.trans hwaiting
  | finish =>
    simp only [ClockedTicker.step] at h
    split at h
    · simp only [Option.map_eq_some_iff] at h
      obtain ⟨ticker, hfinish, -⟩ := h
      obtain ⟨next, hfiring, -⟩ := Ticker.finish?_cases hfinish
      cases hs.symm.trans hfiring
    · cases h
  | stop =>
    cases h
    exact ⟨rfl, rfl⟩

/-- A running ticker never misses its time: the clock has not passed the next call. -/
theorem OnSchedule.now_le (o : OnSchedule first period made s) (hr : s.ticker.isRunning = true) :
    (made = [] → s.now ≤ first) ∧
      ∀ c ∈ made.getLast?, s.now ≤ c.time + max period c.length := by
  have hbound {due : Instant} (hsched : Scheduled first period made due)
      (hnow : s.now ≤ max due (freeAt made)) : (made = [] → s.now ≤ first) ∧
        ∀ c ∈ made.getLast?, s.now ≤ c.time + max period c.length := by
    cases hsched with
    | nil => exact ⟨fun _ => by simpa [freeAt] using hnow, by simp⟩
    | @concat before due c h hc =>
      refine ⟨by simp, fun b hb => ?_⟩
      obtain rfl : c = b := by simpa using hb
      have hearly := following_le period (hc ▸ le_max_left .. : due ≤ c.time)
      rw [freeAt_concat] at hnow
      calc s.now
          ≤ max (Ticker.following period due c.time) (c.time + c.length) := hnow
        _ ≤ max (c.time + period) (c.time + c.length) := max_le_max hearly le_rfl
        _ = c.time + max period c.length := Nat.add_max_add_left ..
  cases hs : s.ticker.state with
  | idle => exact absurd hs o.not_idle
  | stopped => simp [Ticker.isRunning, hs] at hr
  | running loop =>
    cases loop with
    | waiting due =>
      obtain ⟨hsched, -, hnow⟩ := o.waiting due hs
      exact hbound hsched hnow
    | firing next =>
      obtain ⟨hsched, -, hend, hnow⟩ := o.firing next hs
      exact hbound hsched ((hnow.trans_eq hend).trans (le_max_right ..))

theorem run_wait {due : Instant} (hd : s.due? = some due) (hle : s.now ≤ due) :
    Run step s [⟨s, .wait (due - s.now), []⟩] { s with now := due } := by
  have h : s.step (.wait (due - s.now)) = some ({ s with now := due }, []) := by
    simp [step, hd, Nat.add_sub_cancel' hle]
  exact .one h

theorem OnSchedule.exists_call (o : OnSchedule first period made s)
    (hr : s.ticker.isRunning = true) (length : Duration) :
    ∃ later s', Run ClockedTicker.step s later s' ∧ (calls later).map (·.length) = [length] ∧
      s'.ticker.isRunning = true := by
  -- From a ticker that waits, the next call is made once it is due.
  have hfire {s : ClockedTicker} {due : Instant}
      (hs : s.ticker.state = .running (.waiting due)) :
      ∃ later s', Run ClockedTicker.step s later s' ∧ (calls later).map (·.length) = [length] ∧
        s'.ticker.isRunning = true := by
    have hcall {s : ClockedTicker} (hs : s.ticker.state = .running (.waiting due))
        (hle : due ≤ s.now) : ∃ s', s.step (.fire length) = some (s', [⟨s.now, length⟩]) ∧
          s'.ticker.isRunning = true := by
      refine ⟨{ s with
        ticker := { s.ticker with
          state := .running (.firing (Ticker.following s.ticker.period due s.now)) }
        callEnd := s.now + length }, ?_, rfl⟩
      simp [ClockedTicker.step, Ticker.fire?, hs, hle]
    rcases Nat.le_total due s.now with hle | hge
    · obtain ⟨s', h, hr'⟩ := hcall hs hle
      exact ⟨_, s', .one h, rfl, hr'⟩
    · have hwait := run_wait (due?_waiting hs) hge
      obtain ⟨s', h, hr'⟩ := hcall (s := { s with now := due }) hs le_rfl
      exact ⟨_, s', hwait.trans (.one h), rfl, hr'⟩
  cases hs : s.ticker.state with
  | idle => exact absurd hs o.not_idle
  | stopped => simp [Ticker.isRunning, hs] at hr
  | running loop =>
    cases loop with
    | waiting due => exact hfire hs
    | firing next =>
      obtain ⟨-, -, -, hnow⟩ := o.firing next hs
      have hwait := run_wait (due?_firing hs) hnow
      have hfinish : ({ s with now := s.callEnd } : ClockedTicker).step .finish = some
          ({ s with
            now := s.callEnd
            ticker := { s.ticker with state := .running (.waiting next) } }, []) := by
        simp [ClockedTicker.step, Ticker.finish?, hs]
      obtain ⟨later, s', hlater, hlength, hr'⟩ :=
        hfire (s := { s with
          now := s.callEnd
          ticker := { s.ticker with state := .running (.waiting next) } }) rfl
      exact ⟨_, s', (hwait.trans (.one hfinish)).trans hlater, by simpa [calls] using hlength,
        hr'⟩

theorem exists_run_of_lengths {start : ClockedTicker} (o : OnSchedule first period [] start)
    (hr : start.ticker.isRunning = true) (lengths : List Duration) :
    ∃ history s, Run step start history s ∧ (calls history).map (·.length) = lengths ∧
      s.ticker.isRunning = true := by
  -- On the calls from the last one back, since a run grows at its end.
  induction lengths using List.reverseRecOn with
  | nil => exact ⟨[], start, .nil, rfl, hr⟩
  | append_singleton lengths length ih =>
    obtain ⟨history, s, run, hlengths, hrunning⟩ := ih
    obtain ⟨later, s', hlater, hlength, hrunning'⟩ :=
      (onSchedule_of_run o run).exists_call hrunning length
    exact ⟨_, s', run.trans hlater, by simp [hlengths, hlength], hrunning'⟩

theorem exists_started (hp : 0 < period) (initialDelay : Duration) (begun : Instant) :
    ∃ ticker started, Ticker.new period initialDelay = .ok ticker ∧
      ticker.start begun = .ok started ∧ started.isRunning = true ∧
      OnSchedule (begun + initialDelay) period [] ⟨started, begun, begun⟩ := by
  refine ⟨⟨initialDelay, period, hp, .idle⟩,
    ⟨initialDelay, period, hp, .running (.waiting (begun + initialDelay))⟩, ?_, rfl, rfl, ?_⟩
  · rw [Ticker.new, dif_pos hp]
  · refine ⟨rfl, ⟨_, .nil⟩, fun due hd => ?_, nofun, nofun⟩
    cases hd
    exact ⟨.nil, Nat.zero_le _, (Nat.le_add_right ..).trans (le_max_left ..)⟩

theorem calls_of_stop {x : Happening ClockedTicker Input Call} {start : ClockedTicker}
    {earlier later : List (Happening ClockedTicker Input Call)} (hx : x.input = .stop)
    (run : Run step start (earlier ++ x :: later) s) : calls later = [] := by
  obtain ⟨t, -, h, hlater⟩ := run.of_append_cons
  obtain ⟨before, input, effects⟩ := x
  obtain rfl : input = .stop := hx
  cases h
  exact calls_of_stopped rfl hlater

/-- Whatever its period and its delay, a ticker can be started, and its calls may take any times.
The first one is made after the delay; each waits for the end of the one before and comes no sooner
than a period after it, up to the grace, but as soon as it can; none is ahead of the even schedule,
so there are no more than periods until then, and as long as none takes longer than a period all are
exactly on it. The clock never passes the next call of a running ticker, and a stopped one makes
none. -/
theorem calls_keep_pace (hp : 0 < period) (initialDelay : Duration) (begun : Instant) :
    ∃ ticker started, Ticker.new period initialDelay = .ok ticker ∧
      ticker.start begun = .ok started ∧
      (∀ lengths, ∃ history s, Run step ⟨started, begun, begun⟩ history s ∧
        (calls history).map (·.length) = lengths) ∧
      ∀ history s, Run step ⟨started, begun, begun⟩ history s →
        (∀ c, (calls history)[0]? = some c → c.time = begun + initialDelay) ∧
        (∀ k b c, (calls history)[k]? = some b → (calls history)[k + 1]? = some c →
          b.time + b.length ≤ c.time ∧ b.time + period ≤ c.time + Duration.ofMillis 5 ∧
          c.time ≤ b.time + max period b.length) ∧
        (∀ k c, (calls history)[k]? = some c → begun + initialDelay + k * period ≤ c.time) ∧
        (∀ t, (t < begun + initialDelay → (calls history).countP (·.time ≤ t) = 0) ∧
          (calls history).countP (·.time ≤ t) ≤ (t - (begun + initialDelay)) / period + 1) ∧
        (∀ k c, (calls history)[k]? = some c →
          (∀ b ∈ (calls history).take k, b.length ≤ period) →
          c.time = begun + initialDelay + k * period) ∧
        (s.ticker.isRunning = true → (calls history = [] → s.now ≤ begun + initialDelay) ∧
          ∀ c ∈ (calls history).getLast?, s.now ≤ c.time + max period c.length) ∧
        ∀ earlier x later, history = earlier ++ x :: later → x.input = .stop →
          calls later = [] := by
  obtain ⟨ticker, started, hnew, hstart, hrunning, o⟩ := exists_started hp initialDelay begun
  refine ⟨ticker, started, hnew, hstart, fun lengths => ?_, fun history s run => ?_⟩
  · obtain ⟨history, s, run, hlengths, -⟩ := exists_run_of_lengths o hrunning lengths
    exact ⟨history, s, run, hlengths⟩
  have hs := onSchedule_of_run o run
  obtain ⟨due, hdue⟩ := hs.scheduled
  refine ⟨fun c hc => ?_, fun k b c hb hc => hdue.gap hb hc, fun k c hc => hdue.le_time hc,
    fun t => ⟨hdue.countP_eq_zero, hdue.countP_le hp t⟩,
    fun k c hc hshort => hdue.time_eq hc hshort, hs.now_le, ?_⟩
  · have hfirst := hdue.time_eq hc (by simp)
    rwa [Nat.zero_mul, Nat.add_zero] at hfirst
  · rintro earlier x later rfl hx
    exact calls_of_stop hx run

def justStarted : ClockedTicker where
  ticker := ⟨Duration.ofMillis 1, Duration.ofMillis 3, by decide, .running (.waiting 1000000)⟩
  now := 0
  callEnd := 0

/-- A call that takes more than two periods, and those that it has kept waiting. -/
def lateCalls : List Input :=
  let ms := Duration.ofMillis
  [.wait (ms 1), .fire (ms 7), .wait (ms 7), .finish, .fire 0, .finish, .fire 0, .finish,
    .wait (ms 2), .fire 0, .stop]

/-- Calls that come a little late are caught up with at once, within the bounds. -/
theorem late_calls_are_caught_up :
    0 < Duration.ofMillis 3 ∧ ∃ history s, Run step justStarted history s ∧
      history.map (·.input) = lateCalls ∧
      (calls history).map (·.time) = [1000000, 8000000, 8000000, 10000000] ∧
      (calls history).countP (·.time ≤ 8000000) ≤ 3 ∧
      ∀ k c, (calls history)[k]? = some c → 1000000 + k * 3000000 ≤ c.time := by
  have hp : 0 < Duration.ofMillis 3 := by decide
  obtain ⟨ticker, started, hnew, hstart, -, hall⟩ :=
    calls_keep_pace hp (Duration.ofMillis 1) 0
  cases hnew
  cases hstart
  obtain ⟨⟨history, s⟩, hr⟩ : ∃ r, replay step justStarted lateCalls = some r :=
    Option.isSome_iff_exists.1 (by decide +kernel)
  have run := Run.of_replay hr
  obtain ⟨-, -, hahead, hfew, -⟩ := hall history s run
  exact ⟨hp, history, s, run, map_input_of_replay hr,
    history_of_replay hr (fun h => (calls h).map (·.time)) (by decide +kernel),
    (hfew 8000000).2, hahead⟩

end Runs

end ClockedTicker

end MachineFleet
