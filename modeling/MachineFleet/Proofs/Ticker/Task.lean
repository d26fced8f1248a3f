import MachineFleet.Proofs.Ticker

/-!
A ticker and the task that makes its calls. The owner has no more than a handle: with it the task
can be told to stop, and the task looks for that first whenever it has a turn, which may come late.
Whatever the owner does and whenever the task has its turns, the ticker runs once, and nothing is
called or completed after it was stopped or dropped.
-/
namespace MachineFleet

namespace Ticker

def startInPlace (t : Ticker) (now : Instant) : Except Error Unit × Ticker :=
  let taken := { t with state := .stopped }
  match t.state with
  | .idle => (.ok (), { taken with state := .running (.waiting (now + t.initialDelay)) })
  | .running loop =>
    (.error (.invalidArgument .tickerRunning), { taken with state := .running loop })
  | .stopped => (.error (.invalidArgument .tickerStopped), taken)

def begun (t : Ticker) (now : Instant) : Ticker :=
  match t.start now with
  | .ok started => started
  | .error _ => t

structure Task where
  own : Ticker
  callEnd : Instant
  told : Bool
  ended : Bool
  deriving DecidableEq

inductive Effect where
  | accepted
  | refused (error : Error)
  | called
  | completed
  deriving DecidableEq

namespace Task

def spawn (t : Ticker) : Task where
  own := t
  callEnd := 0
  told := false
  ended := false

def tell (task : Task) : Task := { task with told := true }

/-- A turn of the task, up to the next call or the end of one. Whether it was told to stop counts
before anything that is due. A call takes some length of time. -/
def turn (task : Task) (now : Instant) (length : Duration) : Task × List Effect :=
  if task.ended then (task, [])
  else if task.told then ({ task with ended := true }, [])
  else
    let own := task.own.begun now
    match own.fire? now, own.finish? with
    | some next, _ => ({ task with own := next, callEnd := now + length }, [.called])
    | none, some next =>
      if task.callEnd ≤ now then ({ task with own := next }, [.completed])
      else ({ task with own }, [])
    | none, none => ({ task with own }, [])

end Task

end Ticker

structure OwnedTicker where
  handle : Option Ticker
  tasks : List Ticker.Task
  now : Instant

namespace OwnedTicker

open Ticker (Task Effect)

inductive Input where
  | start
  | stop
  | drop
  | wait (time : Duration)
  | turn (task : Nat) (length : Duration)
  deriving DecidableEq

def fresh (t : Ticker) (now : Instant) : OwnedTicker := ⟨some t, [], now⟩

def stopped (s : OwnedTicker) (t : Ticker) : OwnedTicker :=
  { s with
    handle := some t.stop
    tasks := if t.isRunning then s.tasks.modifyHead Task.tell else s.tasks }

def step (s : OwnedTicker) : Input → Option (OwnedTicker × List Effect)
  | .start => s.handle.map fun t =>
    match t.startInPlace s.now with
    | (.ok (), started) =>
      ({ s with handle := some started, tasks := .spawn t :: s.tasks }, [.accepted])
    | (.error e, kept) => ({ s with handle := some kept }, [.refused e])
  | .stop => s.handle.map fun t => (s.stopped t, [])
  | .drop => s.handle.map fun t => ({ s.stopped t with handle := none }, [])
  | .wait time => some ({ s with now := s.now + time }, [])
  | .turn i length => s.tasks[i]?.map fun task =>
    ({ s with tasks := s.tasks.set i (task.turn s.now length).1 }, (task.turn s.now length).2)

end OwnedTicker

namespace Ticker

variable {t : Ticker} {now : Instant} {loop : Loop}

theorem startInPlace_eq (t : Ticker) (now : Instant) :
    t.startInPlace now = match t.start now with
      | .ok started => (.ok (), started)
      | .error e => (.error e, t) := by
  obtain ⟨initialDelay, period, hp, state⟩ := t
  cases state <;> rfl

theorem startInPlace_of_idle (h : t.state = .idle) :
    t.startInPlace now = (.ok (), t.begun now) := by
  rw [startInPlace_eq, begun, start, h]

theorem startInPlace_of_running (h : t.state = .running loop) :
    t.startInPlace now = (.error (.invalidArgument .tickerRunning), t) := by
  rw [startInPlace_eq, start, h]

theorem startInPlace_of_stopped (h : t.state = .stopped) :
    t.startInPlace now = (.error (.invalidArgument .tickerStopped), t) := by
  rw [startInPlace_eq, start, h]

theorem state_of_new {period initialDelay : Duration} (h : new period initialDelay = .ok t) :
    t.state = .idle := by
  unfold new at h
  split at h
  · cases h
    rfl
  · cases h

theorem begun_of_running (h : t.state = .running loop) : t.begun now = t := by
  rw [begun, start, h]

theorem begun_of_idle (h : t.state = .idle) :
    t.begun now = { t with state := .running (.waiting (now + t.initialDelay)) } := by
  rw [begun, start, h]

theorem isRunning_of_idle (h : t.state = .idle) : t.isRunning = false := by
  rw [isRunning, h]

theorem isRunning_of_running (h : t.state = .running loop) : t.isRunning = true := by
  rw [isRunning, h]

theorem isRunning_of_stopped (h : t.state = .stopped) : t.isRunning = false := by
  rw [isRunning, h]

@[simp] theorem stop_begun (t : Ticker) (now : Instant) : (t.begun now).stop = t.stop := by
  cases hs : t.state with
  | idle => rw [begun_of_idle hs, stop, stop]
  | running loop => rw [begun_of_running hs]
  | stopped => rw [begun, start, hs]

theorem exists_loop_of_begun (h : t.state ≠ .stopped) (now : Instant) :
    ∃ loop, (t.begun now).state = .running loop := by
  cases hs : t.state with
  | idle => exact ⟨_, by rw [begun_of_idle hs]⟩
  | running loop => exact ⟨loop, by rw [begun_of_running hs, hs]⟩
  | stopped => exact absurd hs h

namespace Task

variable {task : Task}

structure IsAtWork (task : Task) : Prop where
  untold : task.told = false
  unended : task.ended = false
  unstopped : task.own.state ≠ .stopped

theorem isAtWork_spawn (h : t.state = .idle) : (spawn t).IsAtWork :=
  ⟨rfl, rfl, by simp [spawn, h]⟩

theorem turn_of_told (h : task.told = true) (now : Instant) (length : Duration) :
    (task.turn now length).1.told = true ∧ (task.turn now length).2 = [] := by
  unfold turn
  split
  · exact ⟨h, rfl⟩
  · exact ⟨h, rfl⟩

theorem stop_turn (task : Task) (now : Instant) (length : Duration) :
    (task.turn now length).1.own.stop = task.own.stop := by
  have hbegun := stop_begun task.own now
  unfold turn
  split
  · rfl
  split
  · rfl
  dsimp only
  split
  · rename_i next hfire
    obtain ⟨due, -, -, rfl⟩ := fire?_cases hfire
    exact hbegun
  · rename_i next hfinish
    obtain ⟨after, -, rfl⟩ := finish?_cases hfinish
    split <;> exact hbegun
  · exact hbegun

theorem IsAtWork.turn_of_due {due : Instant} (w : task.IsAtWork) (length : Duration)
    (hs : (task.own.begun now).state = .running (.waiting due)) (hdue : due ≤ now) :
    ∃ own next, (task.own.begun now).fire? now = some own ∧ own.state = .running (.firing next) ∧
      task.turn now length = ({ task with own, callEnd := now + length }, [.called]) := by
  have hfire : (task.own.begun now).fire? now = some { task.own.begun now with
      state := .running (.firing (following (task.own.begun now).period due now)) } := by
    rw [fire?, hs]
    exact if_pos hdue
  refine ⟨_, _, hfire, rfl, ?_⟩
  simp [turn, w.untold, w.unended, hfire]

theorem IsAtWork.turn_of_not_due {due : Instant} (w : task.IsAtWork) (length : Duration)
    (hs : (task.own.begun now).state = .running (.waiting due)) (hdue : ¬ due ≤ now) :
    task.turn now length = ({ task with own := task.own.begun now }, []) := by
  simp [turn, w.untold, w.unended, fire?, finish?, hs, hdue]

theorem IsAtWork.turn_of_ended {next : Instant} (w : task.IsAtWork) (length : Duration)
    (hs : (task.own.begun now).state = .running (.firing next)) (hend : task.callEnd ≤ now) :
    task.turn now length =
      ({ task with own := { task.own.begun now with state := .running (.waiting next) } },
        [.completed]) := by
  simp [turn, w.untold, w.unended, fire?, finish?, hs, hend]

theorem IsAtWork.turn_of_not_ended {next : Instant} (w : task.IsAtWork) (length : Duration)
    (hs : (task.own.begun now).state = .running (.firing next)) (hend : ¬ task.callEnd ≤ now) :
    task.turn now length = ({ task with own := task.own.begun now }, []) := by
  simp [turn, w.untold, w.unended, fire?, finish?, hs, hend]

theorem IsAtWork.turn (w : task.IsAtWork) (now : Instant) (length : Duration) :
    (task.turn now length).1.IsAtWork ∧ .accepted ∉ (task.turn now length).2 := by
  obtain ⟨loop, hs⟩ := exists_loop_of_begun w.unstopped now
  have hbegun : (task.own.begun now).state ≠ .stopped := by simp [hs]
  cases loop with
  | waiting due =>
    by_cases hdue : due ≤ now
    · obtain ⟨own, next, -, hown, h⟩ := w.turn_of_due length hs hdue
      rw [h]
      exact ⟨⟨w.untold, w.unended, by simp [hown]⟩, by simp⟩
    · rw [w.turn_of_not_due length hs hdue]
      exact ⟨⟨w.untold, w.unended, hbegun⟩, by simp⟩
  | firing next =>
    by_cases hend : task.callEnd ≤ now
    · rw [w.turn_of_ended length hs hend]
      exact ⟨⟨w.untold, w.unended, by simp⟩, by simp⟩
    · rw [w.turn_of_not_ended length hs hend]
      exact ⟨⟨w.untold, w.unended, hbegun⟩, by simp⟩

end Task

end Ticker

namespace OwnedTicker

open Ticker (Task Effect)

section Runs

variable {s s' : OwnedTicker} {t : Ticker} {i : Input} {effects : List Effect}
  {history later : List (Happening OwnedTicker Input Effect)}

def wasStarted (history : List (Happening OwnedTicker Input Effect)) : Bool :=
  history.any (·.effects.contains .accepted)

def wasDone (i : Input) (history : List (Happening OwnedTicker Input Effect)) : Bool :=
  history.any fun x => decide (x.input = i)

@[simp] theorem wasStarted_concat (history : List (Happening OwnedTicker Input Effect))
    (x : Happening OwnedTicker Input Effect) :
    wasStarted (history ++ [x]) = (wasStarted history || x.effects.contains .accepted) := by
  simp [wasStarted]

@[simp] theorem wasDone_concat (i : Input) (history : List (Happening OwnedTicker Input Effect))
    (x : Happening OwnedTicker Input Effect) :
    wasDone i (history ++ [x]) = (wasDone i history || decide (x.input = i)) := by
  simp [wasDone]

/-- Where the handle and the tasks of a ticker stand, by whether it was started, stopped and
dropped. -/
inductive Stage : (handle : Option Ticker) → (tasks : List Task) →
    (started stopped dropped : Bool) → Prop where
  | idle {t : Ticker} (state : t.state = .idle) : Stage (some t) [] false false false
  | running {t : Ticker} {loop : Ticker.Loop} {task : Task} (state : t.state = .running loop)
      (work : task.IsAtWork) (same : task.own.stop = t.stop) :
      Stage (some t) [task] true false false
  | stopped {t : Ticker} {tasks : List Task} {started : Bool} (state : t.state = .stopped)
      (told : ∀ task ∈ tasks, task.told = true) : Stage (some t) tasks started true false
  | dropped {tasks : List Task} {started stopped : Bool}
      (told : ∀ task ∈ tasks, task.told = true) : Stage none tasks started stopped true

section Stage

variable {handle : Option Ticker} {tasks : List Task} {now : Instant} {index : Nat}
  {length time : Duration} {started stopped dropped : Bool}

theorem Stage.told_of_stop (h : Stage (some t) tasks started stopped dropped) (now : Instant) :
    ∀ task ∈ (OwnedTicker.stopped ⟨some t, tasks, now⟩ t).tasks, task.told = true := by
  cases h with
  | idle state => simp [OwnedTicker.stopped]
  | running state work same =>
    simp [OwnedTicker.stopped, Ticker.isRunning_of_running state, Task.tell]
  | stopped state told => simpa [OwnedTicker.stopped, Ticker.isRunning_of_stopped state] using told

theorem told_of_turn (told : ∀ task ∈ tasks, task.told = true)
    (h : step ⟨handle, tasks, now⟩ (.turn index length) = some (s', effects)) :
    s'.handle = handle ∧ (∀ task ∈ s'.tasks, task.told = true) ∧ effects = [] := by
  simp only [step, Option.map_eq_some_iff] at h
  obtain ⟨task, htask, he⟩ := h
  obtain ⟨htold, hnone⟩ := Task.turn_of_told (told task (List.mem_of_getElem? htask)) now length
  cases he
  refine ⟨rfl, ?_, hnone⟩
  intro other hother
  rcases List.mem_or_eq_of_mem_set hother with hmem | rfl
  · exact told other hmem
  · exact htold

theorem step_turn_only {task : Task}
    (h : step ⟨handle, [task], now⟩ (.turn index length) = some (s', effects)) :
    index = 0 ∧ s' = ⟨handle, [(task.turn now length).1], now⟩ ∧
      effects = (task.turn now length).2 := by
  simp only [step, Option.map_eq_some_iff] at h
  obtain ⟨task', htask, he⟩ := h
  cases index with
  | zero =>
    cases htask
    cases he
    exact ⟨rfl, rfl, rfl⟩
  | succ index => cases htask

theorem Stage.step (h : Stage handle tasks started stopped dropped)
    (hi : step ⟨handle, tasks, now⟩ i = some (s', effects)) :
    Stage s'.handle s'.tasks (started || effects.contains .accepted)
      (stopped || decide (i = .stop)) (dropped || decide (i = .drop)) := by
  cases i with
  | start =>
    cases h with
    | @idle t state =>
      simp only [OwnedTicker.step, Option.map_some, Ticker.startInPlace_of_idle state] at hi
      cases hi
      exact .running (by rw [Ticker.begun_of_idle state]) (Task.isAtWork_spawn state)
        (Ticker.stop_begun t now).symm
    | running state work same =>
      simp only [OwnedTicker.step, Option.map_some, Ticker.startInPlace_of_running state] at hi
      cases hi
      exact .running state work same
    | stopped state told =>
      simp only [OwnedTicker.step, Option.map_some, Ticker.startInPlace_of_stopped state] at hi
      cases hi
      exact .stopped state told
    | dropped told => cases hi
  | stop =>
    cases handle with
    | none => cases hi
    | some t =>
      have told := h.told_of_stop now
      cases hi
      cases h <;> exact .stopped rfl told
  | drop =>
    cases handle with
    | none => cases hi
    | some t =>
      have told := h.told_of_stop now
      cases hi
      cases h <;> exact .dropped told
  | wait time =>
    cases hi
    simpa using h
  | turn index length =>
    cases h with
    | idle state => cases hi
    | @running t loop task state work same =>
      obtain ⟨rfl, rfl, rfl⟩ := step_turn_only hi
      obtain ⟨hwork, hnone⟩ := work.turn now length
      have hsame := (Task.stop_turn task now length).trans same
      have hc : (task.turn now length).2.contains .accepted = false := by
        simpa using hnone
      rw [hc]
      exact .running state hwork hsame
    | stopped state told =>
      obtain ⟨hhandle, htold, rfl⟩ := told_of_turn told hi
      rw [hhandle]
      simpa using Stage.stopped state htold
    | dropped told =>
      obtain ⟨hhandle, htold, rfl⟩ := told_of_turn told hi
      rw [hhandle]
      simpa using Stage.dropped htold

theorem stage_of_run (hidle : t.state = .idle)
    (run : Run OwnedTicker.step (fresh t now) history s) :
    Stage s.handle s.tasks (wasStarted history) (wasDone .stop history)
      (wasDone .drop history) := by
  refine run.invariant
    (P := fun history s => Stage s.handle s.tasks (wasStarted history) (wasDone .stop history)
      (wasDone .drop history)) (.idle hidle) ?_
  intro history s i s' effects hs h
  rw [wasStarted_concat, wasDone_concat, wasDone_concat]
  exact hs.step h

/-- Only the first start is accepted, unless the ticker was stopped before. Any other is refused and
changes nothing. -/
theorem Stage.start (h : Stage handle tasks started stopped dropped)
    (hi : OwnedTicker.step ⟨handle, tasks, now⟩ .start = some (s', effects)) :
    (effects = [.accepted] ↔ started = false ∧ stopped = false) ∧
      (effects ≠ [.accepted] → s' = ⟨handle, tasks, now⟩ ∧ effects =
        [.refused (.invalidArgument (if stopped then .tickerStopped else .tickerRunning))]) := by
  cases h with
  | idle state =>
    simp only [OwnedTicker.step, Option.map_some, Ticker.startInPlace_of_idle state] at hi
    cases hi
    exact ⟨by simp, fun hne => absurd rfl hne⟩
  | running state work same =>
    simp only [OwnedTicker.step, Option.map_some, Ticker.startInPlace_of_running state] at hi
    cases hi
    exact ⟨by simp, fun _ => ⟨rfl, rfl⟩⟩
  | stopped state told =>
    simp only [OwnedTicker.step, Option.map_some, Ticker.startInPlace_of_stopped state] at hi
    cases hi
    exact ⟨by simp, fun _ => ⟨rfl, rfl⟩⟩
  | dropped told => cases hi

theorem Stage.isRunning (h : Stage (some t) tasks started stopped dropped) :
    t.isRunning = (started && !stopped) := by
  cases h with
  | idle state => simp [Ticker.isRunning_of_idle state]
  | running state work same => simp [Ticker.isRunning_of_running state]
  | stopped state told => simp [Ticker.isRunning_of_stopped state]

theorem Stage.isSome_handle (h : Stage handle tasks started stopped dropped) :
    handle.isSome = !dropped := by
  cases h <;> rfl

theorem Stage.told (h : Stage handle tasks started stopped dropped)
    (hover : stopped = true ∨ dropped = true) : ∀ task ∈ tasks, task.told = true := by
  cases h with
  | idle => simp at hover
  | running => simp at hover
  | stopped _ told => exact told
  | dropped told => exact told

theorem Stage.quiet (h : Stage handle tasks started stopped dropped)
    (hover : stopped = true ∨ dropped = true)
    (hi : OwnedTicker.step ⟨handle, tasks, now⟩ i = some (s', effects)) :
    .called ∉ effects ∧ .completed ∉ effects := by
  cases i with
  | start =>
    obtain ⟨haccepted, hrefused⟩ := h.start hi
    by_cases he : effects = [.accepted]
    · rw [he]
      decide
    · obtain ⟨-, he⟩ := hrefused he
      rw [he]
      simp
  | stop =>
    simp only [OwnedTicker.step, Option.map_eq_some_iff] at hi
    obtain ⟨t, -, he⟩ := hi
    cases he
    simp
  | drop =>
    simp only [OwnedTicker.step, Option.map_eq_some_iff] at hi
    obtain ⟨t, -, he⟩ := hi
    cases he
    simp
  | wait time =>
    cases hi
    simp
  | turn index length =>
    obtain ⟨-, -, rfl⟩ := told_of_turn (h.told hover) hi
    simp

def whole (s : OwnedTicker) : Option Ticker :=
  s.handle.map fun t =>
    if t.isRunning then (s.tasks.head?.map (·.own.begun s.now)).getD t else t

/-- What one ticker does when it is given such an input. -/
inductive Moves (now : Instant) : Option Ticker → Input → List Effect → Option Ticker → Prop where
  | accept {t started : Ticker} (h : t.start now = .ok started) :
      Moves now (some t) .start [.accepted] (some started)
  | refuse {t : Ticker} {e : Error} (h : t.start now = .error e) :
      Moves now (some t) .start [.refused e] (some t)
  | stop {t : Ticker} : Moves now (some t) .stop [] (some t.stop)
  | drop {t : Ticker} : Moves now (some t) .drop [] none
  | wait {t : Option Ticker} {time : Duration} : Moves now t (.wait time) [] t
  | postpone {t : Ticker} {time : Duration}
      (h : t.state = .running (.waiting (now + t.initialDelay))) :
      Moves now (some t) (.wait time) []
        (some { t with state := .running (.waiting (now + time + t.initialDelay)) })
  | call {t next : Ticker} {index : Nat} {length : Duration} (h : t.fire? now = some next) :
      Moves now (some t) (.turn index length) [.called] (some next)
  | complete {t next : Ticker} {index : Nat} {length : Duration} (h : t.finish? = some next) :
      Moves now (some t) (.turn index length) [.completed] (some next)
  | pause {t : Option Ticker} {index : Nat} {length : Duration} :
      Moves now t (.turn index length) [] t

theorem whole_of_not_running (hr : t.isRunning = false) :
    whole ⟨some t, tasks, now⟩ = some t := by
  simp [whole, hr]

theorem whole_of_running {loop : Ticker.Loop} {task : Task} (hs : t.state = .running loop) :
    whole ⟨some t, task :: tasks, now⟩ = some (task.own.begun now) := by
  simp [whole, Ticker.isRunning_of_running hs]

/-- Seen as one, the ticker differs from the handle in what it waits for only. -/
theorem Stage.exists_whole (h : Stage (some t) tasks started stopped dropped) (now : Instant) :
    ∃ w, whole ⟨some t, tasks, now⟩ = some w ∧ w.stop = t.stop := by
  cases h with
  | idle state => exact ⟨t, whole_of_not_running (Ticker.isRunning_of_idle state), rfl⟩
  | @running t loop task state work same =>
    exact ⟨_, whole_of_running state, (Ticker.stop_begun task.own now).trans same⟩
  | stopped state => exact ⟨t, whole_of_not_running (Ticker.isRunning_of_stopped state), rfl⟩

theorem Stage.moves_start (h : Stage handle tasks started stopped dropped)
    (hi : OwnedTicker.step ⟨handle, tasks, now⟩ .start = some (s', effects)) :
    Moves now (whole ⟨handle, tasks, now⟩) .start effects s'.whole := by
  cases h with
  | @idle t state =>
    have hr := Ticker.isRunning_of_idle state
    have hbegun : (t.begun now).state = .running (.waiting (now + t.initialDelay)) := by
      rw [Ticker.begun_of_idle state]
    simp only [OwnedTicker.step, Option.map_some, Ticker.startInPlace_of_idle state] at hi
    cases hi
    rw [whole_of_not_running hr, whole_of_running hbegun]
    refine .accept ?_
    rw [Ticker.start, state]
    exact congrArg Except.ok (Ticker.begun_of_idle state).symm
  | @running t loop task state work same =>
    obtain ⟨loop', hs⟩ := Ticker.exists_loop_of_begun work.unstopped now
    simp only [OwnedTicker.step, Option.map_some, Ticker.startInPlace_of_running state] at hi
    cases hi
    rw [whole_of_running state]
    exact .refuse (by rw [Ticker.start, hs])
  | @stopped t _ _ state told =>
    have hr := Ticker.isRunning_of_stopped state
    simp only [OwnedTicker.step, Option.map_some, Ticker.startInPlace_of_stopped state] at hi
    cases hi
    rw [whole_of_not_running hr]
    exact .refuse (by rw [Ticker.start, state])
  | dropped told => cases hi

theorem Stage.moves_wait (h : Stage handle tasks started stopped dropped) :
    Moves now (whole ⟨handle, tasks, now⟩) (.wait time) []
      (whole ⟨handle, tasks, now + time⟩) := by
  cases h with
  | @idle t state =>
    have hr := Ticker.isRunning_of_idle state
    rw [whole_of_not_running hr, whole_of_not_running hr]
    exact .wait
  | @running t loop task state work same =>
    rw [whole_of_running state, whole_of_running state]
    cases hown : task.own.state with
    | idle =>
      rw [Ticker.begun_of_idle hown, Ticker.begun_of_idle hown]
      exact .postpone rfl
    | running loop =>
      rw [Ticker.begun_of_running hown, Ticker.begun_of_running hown]
      exact .wait
    | stopped => exact absurd hown work.unstopped
  | @stopped t _ _ state told =>
    have hr := Ticker.isRunning_of_stopped state
    rw [whole_of_not_running hr, whole_of_not_running hr]
    exact .wait
  | dropped told => exact .wait

theorem moves_turn_of_atWork {task : Task} (work : task.IsAtWork) (now : Instant) (index : Nat)
    (length : Duration) :
    Moves now (some (task.own.begun now)) (.turn index length) (task.turn now length).2
      (some ((task.turn now length).1.own.begun now)) := by
  obtain ⟨loop, hs⟩ := Ticker.exists_loop_of_begun work.unstopped now
  cases loop with
  | waiting due =>
    by_cases hdue : due ≤ now
    · obtain ⟨own, next, hfire, hown, h⟩ := work.turn_of_due length hs hdue
      rw [h, Ticker.begun_of_running hown]
      exact .call hfire
    · rw [work.turn_of_not_due length hs hdue, Ticker.begun_of_running hs]
      exact .pause
  | firing next =>
    by_cases hend : task.callEnd ≤ now
    · have hown : ({ task.own.begun now with state := .running (.waiting next) } : Ticker).state =
          .running (.waiting next) := rfl
      rw [work.turn_of_ended length hs hend, Ticker.begun_of_running hown]
      exact .complete (by rw [Ticker.finish?, hs])
    · rw [work.turn_of_not_ended length hs hend, Ticker.begun_of_running hs]
      exact .pause

theorem Stage.moves_turn (h : Stage handle tasks started stopped dropped)
    (hi : OwnedTicker.step ⟨handle, tasks, now⟩ (.turn index length) = some (s', effects)) :
    Moves now (whole ⟨handle, tasks, now⟩) (.turn index length) effects s'.whole := by
  cases h with
  | idle state => cases hi
  | @running t loop task state work same =>
    obtain ⟨rfl, rfl, rfl⟩ := step_turn_only hi
    rw [whole_of_running state, whole_of_running state]
    exact moves_turn_of_atWork work now 0 length
  | @stopped t _ _ state told =>
    have hr := Ticker.isRunning_of_stopped state
    obtain ⟨hhandle, -, rfl⟩ := told_of_turn told hi
    have hwhole : s'.whole = some t := by simp [whole, hhandle, hr]
    rw [whole_of_not_running hr, hwhole]
    exact .pause
  | dropped told =>
    obtain ⟨hhandle, -, rfl⟩ := told_of_turn told hi
    have hwhole : s'.whole = none := by simp [whole, hhandle]
    rw [hwhole]
    exact .pause

/-- Handle and task together go on like one ticker. -/
theorem Stage.moves (h : Stage handle tasks started stopped dropped)
    (hi : OwnedTicker.step ⟨handle, tasks, now⟩ i = some (s', effects)) :
    Moves now (whole ⟨handle, tasks, now⟩) i effects s'.whole := by
  cases i with
  | start => exact h.moves_start hi
  | stop =>
    cases handle with
    | none => cases hi
    | some t =>
      obtain ⟨w, hw, hstop⟩ := h.exists_whole now
      cases hi
      have hwhole : (OwnedTicker.stopped ⟨some t, tasks, now⟩ t).whole = some t.stop := rfl
      rw [hw, hwhole, ← hstop]
      exact .stop
  | drop =>
    cases handle with
    | none => cases hi
    | some t =>
      obtain ⟨w, hw, -⟩ := h.exists_whole now
      cases hi
      rw [hw]
      exact .drop
  | wait time =>
    cases hi
    exact h.moves_wait
  | turn index length => exact h.moves_turn hi

end Stage

def Yields (s : OwnedTicker) (length : Duration) (effects : List Effect) (s' : OwnedTicker) :
    Prop :=
  ∃ later, Run step s later s' ∧ later.flatMap (·.effects) = effects ∧
    ∀ x ∈ later, x.input = .turn 0 length ∨ ∃ time, x.input = .wait time

section Yields

variable {length : Duration} {task : Task}

theorem Yields.trans {s'' : OwnedTicker} {more : List Effect} (h : Yields s length effects s')
    (h' : Yields s' length more s'') : Yields s length (effects ++ more) s'' := by
  obtain ⟨first, hrun, rfl, hfirst⟩ := h
  obtain ⟨second, hrun', rfl, hsecond⟩ := h'
  refine ⟨first ++ second, hrun.trans hrun', List.flatMap_append, ?_⟩
  intro x hx
  rcases List.mem_append.1 hx with hx | hx
  · exact hfirst x hx
  · exact hsecond x hx

theorem yields_wait (s : OwnedTicker) (length time : Duration) :
    Yields s length [] { s with now := s.now + time } := by
  refine ⟨_, .one (i := .wait time) rfl, rfl, ?_⟩
  intro x hx
  rw [List.mem_singleton.1 hx]
  exact .inr ⟨time, rfl⟩

theorem yields_turn (tasks : s.tasks = [task]) (length : Duration) :
    Yields s length (task.turn s.now length).2
      { s with tasks := [(task.turn s.now length).1] } := by
  have h : s.step (.turn 0 length) = some ({ s with tasks := [(task.turn s.now length).1] },
      (task.turn s.now length).2) := by
    simp [OwnedTicker.step, tasks]
  refine ⟨_, .one h, by simp, ?_⟩
  intro x hx
  rw [List.mem_singleton.1 hx]
  exact .inl rfl

structure Awaits (s : OwnedTicker) (loop : Ticker.Loop) (task : Task) : Prop where
  tasks : s.tasks = [task]
  work : task.IsAtWork
  state : (task.own.begun s.now).state = .running loop

theorem Awaits.exists_called {due : Instant} (a : s.Awaits (.waiting due) task)
    (length : Duration) : ∃ s' next task', Yields s length [.called] s' ∧
      s'.Awaits (.firing next) task' := by
  -- From the time when the call is due, one turn is enough.
  have hcall {s : OwnedTicker} {task : Task} (a : s.Awaits (.waiting due) task)
      (hdue : due ≤ s.now) : ∃ s' next task', Yields s length [.called] s' ∧
        s'.Awaits (.firing next) task' := by
    have hturn := yields_turn a.tasks length
    obtain ⟨hwork, -⟩ := a.work.turn s.now length
    obtain ⟨own, next, -, hown, h⟩ := a.work.turn_of_due length a.state hdue
    rw [h] at hturn hwork
    exact ⟨_, next, _, hturn, rfl, hwork, by rw [Ticker.begun_of_running hown, hown]⟩
  by_cases hdue : due ≤ s.now
  · exact hcall a hdue
  · -- The first turn begins the schedule, if that was not done before.
    have hturn := yields_turn a.tasks length
    obtain ⟨hwork, -⟩ := a.work.turn s.now length
    have h := a.work.turn_of_not_due length a.state hdue
    rw [h] at hturn hwork
    have hwait := hturn.trans (yields_wait _ length (due - s.now))
    have hlate : due ≤ s.now + (due - s.now) := Nat.sub_le_iff_le_add'.1 le_rfl
    obtain ⟨s', next, task', hcalled, a'⟩ := hcall
      (s := { s with tasks := [_], now := s.now + (due - s.now) })
      ⟨rfl, hwork, by rw [Ticker.begun_of_running a.state, a.state]⟩ hlate
    exact ⟨s', next, task', hwait.trans hcalled, a'⟩

theorem Awaits.exists_completed {next : Instant} (a : s.Awaits (.firing next) task)
    (length : Duration) : ∃ s' task', Yields s length [.completed] s' ∧
      s'.Awaits (.waiting next) task' := by
  -- A ticker that has not begun waits for its first call.
  have hbegun (later : Instant) : (task.own.begun later).state = .running (.firing next) := by
    cases hs : task.own.state with
    | idle =>
      have hstate := a.state
      rw [Ticker.begun_of_idle hs] at hstate
      cases hstate
    | running loop =>
      have hstate := a.state
      rw [Ticker.begun_of_running hs] at hstate
      rw [Ticker.begun_of_running hs, hstate]
    | stopped => exact absurd hs a.work.unstopped
  have hwait := yields_wait s length (task.callEnd - s.now)
  have hend : task.callEnd ≤ s.now + (task.callEnd - s.now) :=
    Nat.sub_le_iff_le_add'.1 le_rfl
  have hturn := yields_turn (s := { s with now := s.now + (task.callEnd - s.now) }) a.tasks length
  obtain ⟨hwork, -⟩ := a.work.turn (s.now + (task.callEnd - s.now)) length
  rw [a.work.turn_of_ended length (hbegun _) hend] at hturn hwork
  exact ⟨_, _, hwait.trans hturn, rfl, hwork, by rw [Ticker.begun_of_running rfl]⟩

theorem Stage.exists_call (h : Stage s.handle s.tasks true false false) (length : Duration) :
    ∃ effects s', Yields s length (effects ++ [.called, .completed]) s' := by
  obtain ⟨handle, tasks, now⟩ := s
  cases h with
  | @running t loop task state work same =>
    have hfinish {s : OwnedTicker} {due : Instant} {task : Task}
        (a : s.Awaits (.waiting due) task) :
        ∃ s', Yields s length [.called, .completed] s' := by
      obtain ⟨s₁, next, task₁, hcalled, a₁⟩ := a.exists_called length
      obtain ⟨s₂, task₂, hcompleted, -⟩ := a₁.exists_completed length
      exact ⟨s₂, hcalled.trans hcompleted⟩
    obtain ⟨loop, hs⟩ := Ticker.exists_loop_of_begun work.unstopped now
    cases loop with
    | waiting due =>
      obtain ⟨s', hyields⟩ := hfinish (s := ⟨some t, [task], now⟩) ⟨rfl, work, hs⟩
      exact ⟨[], s', hyields⟩
    | firing next =>
      have a : Awaits ⟨some t, [task], now⟩ (.firing next) task := ⟨rfl, work, hs⟩
      obtain ⟨s₁, task₁, hcompleted, a₁⟩ := a.exists_completed length
      obtain ⟨s', hyields⟩ := hfinish a₁
      exact ⟨[.completed], s', hcompleted.trans hyields⟩

end Yields

/-- Whatever its owner does, whenever its task has turns and whatever time its calls take, a ticker
is started by the first start, if it was not stopped before; any other start is refused and changes
nothing. It reports that it runs from then until it is stopped, and can call again all that time.
Once it was stopped or dropped, nothing is called or completed any more, even if it was due. Its
handle and its task always go on like one ticker. -/
theorem ticker_runs_once {period initialDelay : Duration}
    (hnew : Ticker.new period initialDelay = .ok t) (now : Instant)
    (run : Run step (fresh t now) history s) :
    (∀ earlier x later, history = earlier ++ x :: later → x.input = .start →
      (x.effects = [.accepted] ↔ wasStarted earlier = false ∧ wasDone .stop earlier = false) ∧
      (x.effects ≠ [.accepted] → step x.before .start = some (x.before, [.refused
        (.invalidArgument (if wasDone .stop earlier then .tickerStopped else .tickerRunning))]))) ∧
    (∀ kept, s.handle = some kept →
      (kept.isRunning = true ↔ wasStarted history = true ∧ wasDone .stop history = false) ∧
      (kept.isRunning = true → ∀ length, ∃ effects s',
        Yields s length (effects ++ [.called, .completed]) s')) ∧
    (∀ i ∈ [.start, .stop, .drop], (s.step i).isSome = !wasDone .drop history) ∧
    (∀ earlier x later, history = earlier ++ x :: later →
      wasDone .stop earlier = true ∨ wasDone .drop earlier = true →
      .called ∉ x.effects ∧ .completed ∉ x.effects) ∧
    ∀ i s' effects, s.step i = some (s', effects) → Moves s.now s.whole i effects s'.whole := by
  have hidle := Ticker.state_of_new hnew
  have hs := stage_of_run hidle run
  refine ⟨?_, ?_, ?_, ?_, ?_⟩
  · rintro earlier x later rfl hx
    obtain ⟨s₁, hearlier, h, -⟩ := run.of_append_cons
    rw [hx] at h
    obtain ⟨haccepted, hrefused⟩ := (stage_of_run hidle hearlier).start h
    refine ⟨haccepted, ?_⟩
    intro hne
    obtain ⟨rfl, he⟩ := hrefused hne
    rw [h, he]
  · intro kept hkept
    have hrunning : kept.isRunning = (wasStarted history && !wasDone .stop history) := by
      rw [hkept] at hs
      exact hs.isRunning
    refine ⟨?_, ?_⟩
    · rw [hrunning]
      simp
    · intro hr length
      rw [hr] at hrunning
      obtain ⟨hstarted, hstopped⟩ : wasStarted history = true ∧ wasDone .stop history = false := by
        simpa using hrunning.symm
      have hdropped : wasDone .drop history = false := by
        simpa [hkept] using hs.isSome_handle
      rw [hstarted, hstopped, hdropped] at hs
      exact hs.exists_call length
  · intro i hi
    rw [← hs.isSome_handle]
    simp only [List.mem_cons, List.not_mem_nil, or_false] at hi
    rcases hi with rfl | rfl | rfl <;> simp [step]
  · rintro earlier x later rfl hover
    obtain ⟨s₁, hearlier, h, -⟩ := run.of_append_cons
    exact (stage_of_run hidle hearlier).quiet hover h
  · intro i s' effects h
    exact hs.moves h

def fourMillis : Ticker := ⟨Duration.ofMillis 1, Duration.ofMillis 4, by decide, .idle⟩

/-- The end of a call and the next call are both due when the ticker is stopped. -/
def stoppedWhenDue : List Input :=
  let ms := Duration.ofMillis
  [.start, .start, .turn 0 (ms 4), .wait (ms 1), .turn 0 (ms 4), .wait (ms 4), .stop,
    .turn 0 (ms 4), .start, .turn 0 (ms 4), .drop]

/-- A ticker that is stopped when a call has ended but is not yet completed does not complete it. -/
theorem stopped_when_due_is_quiet :
    Ticker.new (Duration.ofMillis 4) (Duration.ofMillis 1) = .ok fourMillis ∧
      ∃ history s, Run step (fresh fourMillis 0) history s ∧
        history.map (·.input) = stoppedWhenDue ∧
        history.flatMap (·.effects) = [.accepted, .refused (.invalidArgument .tickerRunning),
          .called, .refused (.invalidArgument .tickerStopped)] ∧
        ∀ earlier x later, history = earlier ++ x :: later → wasDone .stop earlier = true →
          .called ∉ x.effects ∧ .completed ∉ x.effects := by
  have hnew : Ticker.new (Duration.ofMillis 4) (Duration.ofMillis 1) = .ok fourMillis := rfl
  obtain ⟨⟨history, s⟩, hr⟩ : ∃ r, replay step (fresh fourMillis 0) stoppedWhenDue = some r :=
    Option.isSome_iff_exists.1 (by decide +kernel)
  have run := Run.of_replay hr
  obtain ⟨-, -, -, hquiet, -⟩ := ticker_runs_once hnew 0 run
  refine ⟨hnew, history, s, run, map_input_of_replay hr,
    history_of_replay hr (fun h => h.flatMap (·.effects)) (by decide +kernel), ?_⟩
  intro earlier x later he hstop
  exact hquiet earlier x later he (.inl hstop)

end Runs

end OwnedTicker

end MachineFleet
