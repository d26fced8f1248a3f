import MachineFleet.Proofs.Log.MachineLog
import MachineFleet.Proofs.Run
import Mathlib.Algebra.GroupWithZero.Nat
import Mathlib.Data.List.TakeWhile

/-!
Streams that are piped into one log. Each has a task of its own that puts lines together from
whatever arrives, and all tasks share the queue of the one that writes. However the streams come in
and however the tasks take turns, what is written is the lines of every stream, in their order.
-/
namespace MachineFleet.MachineLog

open Files

/-- Bytes that are cut after every newline and nowhere else. -/
structure AreLinesOf (content : List UInt8) (pieces : List (List UInt8)) : Prop where
  flatten_eq : pieces.flatten = content
  cut : ∀ piece ∈ pieces, ∃ body last, piece = body ++ [last] ∧ newline ∉ body
  ended : ∀ piece ∈ pieces.dropLast, piece.getLast? = some newline

section Lines

variable {body rest content : List UInt8} {pieces : List (List UInt8)}

theorem lines_newline_cons (rest : List UInt8) :
    lines (newline :: rest) = [newline] :: lines rest := by
  rw [lines, if_pos rfl]

theorem lines_cons {b : UInt8} {line : List UInt8} {more : List (List UInt8)} (hb : b ≠ newline)
    (h : lines rest = line :: more) : lines (b :: rest) = (b :: line) :: more := by
  rw [lines, if_neg hb, h]

theorem lines_append_newline (h : newline ∉ body) (rest : List UInt8) :
    lines (body ++ newline :: rest) = (body ++ [newline]) :: lines rest := by
  induction body with
  | nil => exact lines_newline_cons rest
  | cons b body ih =>
    simp only [List.mem_cons, not_or] at h
    obtain ⟨hb, hbody⟩ := h
    exact lines_cons (Ne.symm hb) (ih hbody)

theorem lines_of_not_mem (h : newline ∉ body) (hne : body ≠ []) : lines body = [body] := by
  induction body with
  | nil => exact absurd rfl hne
  | cons b body ih =>
    simp only [List.mem_cons, not_or] at h
    obtain ⟨hb, hbody⟩ := h
    rcases List.eq_nil_or_concat body with rfl | ⟨front, last, rfl⟩
    · rw [lines, if_neg (Ne.symm hb)]
      rfl
    · exact lines_cons (Ne.symm hb) (ih hbody (by simp))

theorem AreLinesOf.newline_cons (h : AreLinesOf rest pieces) :
    AreLinesOf (newline :: rest) ([newline] :: pieces) := by
  refine ⟨by simp [h.flatten_eq], ?_, ?_⟩
  · intro piece hpiece
    rcases List.mem_cons.1 hpiece with rfl | hpiece
    · exact ⟨[], newline, rfl, by simp⟩
    · exact h.cut piece hpiece
  · intro piece hpiece
    by_cases hne : pieces = []
    · simp [hne] at hpiece
    · rw [List.dropLast_cons_of_ne_nil hne] at hpiece
      rcases List.mem_cons.1 hpiece with rfl | hpiece
      · rfl
      · exact h.ended piece hpiece

theorem AreLinesOf.cons {b : UInt8} {line : List UInt8} {more : List (List UInt8)}
    (hb : b ≠ newline) (h : AreLinesOf rest (line :: more)) :
    AreLinesOf (b :: rest) ((b :: line) :: more) := by
  obtain ⟨body, last, rfl, hbody⟩ := h.cut _ List.mem_cons_self
  refine ⟨by rw [← h.flatten_eq]; rfl, ?_, ?_⟩
  · intro piece hpiece
    rcases List.mem_cons.1 hpiece with rfl | hpiece
    · exact ⟨b :: body, last, rfl, by simp [Ne.symm hb, hbody]⟩
    · exact h.cut piece (List.mem_cons_of_mem _ hpiece)
  · have hended := h.ended
    intro piece hpiece
    cases more with
    | nil => simp at hpiece
    | cons next more =>
      rw [List.dropLast_cons_of_ne_nil (List.cons_ne_nil next more)] at hpiece hended
      rcases List.mem_cons.1 hpiece with rfl | hpiece
      · -- The first line ends as it did before.
        have hlast := hended _ List.mem_cons_self
        rw [← List.cons_append]
        rwa [List.getLast?_concat] at hlast ⊢
      · exact hended piece (List.mem_cons_of_mem _ hpiece)

theorem areLinesOf_singleton {b : UInt8} : AreLinesOf [b] [[b]] := by
  refine ⟨rfl, ?_, by simp⟩
  intro piece hpiece
  exact ⟨[], b, List.mem_singleton.1 hpiece, by simp⟩

theorem areLinesOf_lines (content : List UInt8) : AreLinesOf content (lines content) := by
  induction content with
  | nil => exact ⟨rfl, by simp [lines], by simp [lines]⟩
  | cons b rest ih =>
    by_cases hb : b = newline
    · subst hb
      rw [lines_newline_cons]
      exact ih.newline_cons
    · cases hrest : lines rest with
      | nil =>
        -- Nothing follows, so that the byte is a line on its own.
        have hnil : rest = [] := by
          rw [← ih.flatten_eq, hrest]
          rfl
        subst hnil
        rw [lines, if_neg hb]
        exact areLinesOf_singleton
      | cons line more =>
        rw [hrest] at ih
        rw [lines_cons hb hrest]
        exact ih.cons hb

theorem areLinesOf_iff : AreLinesOf content pieces ↔ pieces = lines content := by
  constructor
  · intro h
    induction pieces generalizing content with
    | nil =>
      obtain rfl : [] = content := h.flatten_eq
      rfl
    | cons piece rest ih =>
      obtain ⟨body, last, rfl, hbody⟩ := h.cut _ List.mem_cons_self
      obtain rfl := h.flatten_eq
      cases rest with
      | nil =>
        by_cases hlast : last = newline
        · subst hlast
          simpa [lines] using (lines_append_newline hbody []).symm
        · have hnot : newline ∉ body ++ [last] := by simp [hbody, Ne.symm hlast]
          simpa using (lines_of_not_mem hnot (by simp)).symm
      | cons next more =>
        have hended := h.ended
        rw [List.dropLast_cons_of_ne_nil (by simp)] at hended
        obtain rfl : last = newline := by simpa using hended _ List.mem_cons_self
        have hrest : AreLinesOf (next :: more).flatten (next :: more) :=
          ⟨rfl, fun piece hpiece => h.cut piece (List.mem_cons_of_mem _ hpiece),
            fun piece hpiece => hended piece (List.mem_cons_of_mem _ hpiece)⟩
        rw [List.flatten_cons, List.append_assoc, List.singleton_append,
          lines_append_newline hbody, ← ih hrest]
  · rintro rfl
    exact areLinesOf_lines content

end Lines

structure Pipe where
  unread : List UInt8
  breaks : Bool
  buffer : List UInt8
  line : List UInt8
  ended : Bool
  deriving DecidableEq, Repr

namespace Pipe

inductive Input where
  | arrive (count : Nat)
  | take
  | close
  deriving DecidableEq, Repr

def ofStream (s : Stream) : Pipe where
  unread := s.pieces.flatten
  breaks := s.breaks
  buffer := []
  line := []
  ended := false

def look (p : Pipe) : Pipe × List (List UInt8) :=
  match p.buffer.dropWhile (· ≠ newline) with
  | [] => ({ p with buffer := [], line := p.line ++ p.buffer }, [])
  | last :: rest =>
    ({ p with buffer := rest, line := [] },
      [p.line ++ p.buffer.takeWhile (· ≠ newline) ++ [last]])

/-- At its end a stream that breaks takes the current line with it; any other one sends that line
before the pipe ends. -/
def finish (p : Pipe) : Pipe × List (List UInt8) :=
  if p.breaks || p.line.isEmpty then ({ p with ended := true }, [])
  else ({ p with line := [] }, [p.line])

def step (p : Pipe) : Input → Option (Pipe × List (List UInt8))
  | .arrive count =>
    if !p.ended && p.buffer.isEmpty && 0 < count && count ≤ p.unread.length then
      some ({ p with unread := p.unread.drop count, buffer := p.unread.take count }, [])
    else none
  | .take => if p.ended || p.buffer.isEmpty then none else some p.look
  | .close =>
    if !p.ended && p.buffer.isEmpty && p.unread.isEmpty then some p.finish else none

section Steps

variable {p p' : Pipe} {i : Input} {sent : List (List UInt8)} {body rest : List UInt8}

def linesOf (breaks : Bool) (content : List UInt8) : List (List UInt8) :=
  Stream.lines ⟨[content], breaks⟩

theorem linesOf_flatten (s : Stream) : linesOf s.breaks s.pieces.flatten = s.lines := by
  simp [linesOf, Stream.lines]

theorem linesOf_append_newline (h : newline ∉ body) (breaks : Bool) (rest : List UInt8) :
    linesOf breaks (body ++ newline :: rest) = (body ++ [newline]) :: linesOf breaks rest := by
  cases breaks <;> simp [linesOf, Stream.lines, lines_append_newline h]

theorem linesOf_of_not_mem {breaks : Bool} (h : newline ∉ body) :
    linesOf breaks body = if breaks || body.isEmpty then [] else [body] := by
  rcases List.eq_nil_or_concat body with rfl | ⟨front, last, rfl⟩
  · cases breaks <;> simp [linesOf, Stream.lines, lines]
  · have hlast : last ≠ newline := by
      rintro rfl
      simp at h
    have hlines := lines_of_not_mem h (by simp)
    rw [List.concat_eq_append] at hlines ⊢
    cases breaks <;> simp [linesOf, Stream.lines, hlines, hlast]

def toSend (p : Pipe) : List (List UInt8) := linesOf p.breaks (p.line ++ p.buffer ++ p.unread)

theorem toSend_ofStream (s : Stream) : (ofStream s).toSend = s.lines := linesOf_flatten s

structure IsTidy (p : Pipe) : Prop where
  line : newline ∉ p.line
  ended : p.ended = true → p.toSend = []

/-- What is ahead of a pipe: every byte is handed out, looked at and sent, and then the pipe
ends. -/
def weight (p : Pipe) : Nat :=
  4 * p.unread.length + 3 * p.buffer.length + 2 * p.line.length + if p.ended then 0 else 1

theorem look_cases (p : Pipe) :
    (newline ∉ p.buffer ∧ p.look = ({ p with buffer := [], line := p.line ++ p.buffer }, [])) ∨
      ∃ body rest, p.buffer = body ++ newline :: rest ∧ newline ∉ body ∧
        p.look = ({ p with buffer := rest, line := [] }, [p.line ++ body ++ [newline]]) := by
  have hparts := List.takeWhile_append_dropWhile (p := (· ≠ newline)) (l := p.buffer)
  have hbody : newline ∉ p.buffer.takeWhile (· ≠ newline) := by
    intro hmem
    simpa using List.mem_takeWhile_imp hmem
  cases hdrop : p.buffer.dropWhile (· ≠ newline) with
  | nil =>
    refine .inl ⟨?_, by rw [look, hdrop]⟩
    rw [hdrop, List.append_nil] at hparts
    rwa [hparts] at hbody
  | cons last rest =>
    -- What stopped the search is a newline.
    have hne : p.buffer.dropWhile (· ≠ newline) ≠ [] := by
      rw [hdrop]
      exact List.cons_ne_nil last rest
    have hhead := List.head_dropWhile_not (· ≠ newline) hne
    simp only [hdrop, List.head_cons, decide_eq_false_iff_not, not_not] at hhead
    subst hhead
    exact .inr ⟨_, rest, by rw [← hdrop, hparts], hbody, by rw [look, hdrop]⟩

theorem look_spec (t : p.IsTidy) (hopen : p.ended = false) (hne : p.buffer ≠ []) :
    p.toSend = p.look.2 ++ p.look.1.toSend ∧ p.look.1.IsTidy ∧
      p.look.1.weight + p.look.2.length < p.weight := by
  have hlength := List.length_pos_iff.2 hne
  rcases p.look_cases with ⟨hnot, h⟩ | ⟨body, rest, hbuffer, hbody, h⟩
  · rw [h]
    refine ⟨by simp [toSend], ⟨?_, by simp [hopen]⟩, ?_⟩
    · simp [t.line, hnot]
    · simp only [weight, List.length_append, List.length_nil]
      omega
  · have hline : newline ∉ p.line ++ body := by simp [t.line, hbody]
    rw [h]
    refine ⟨?_, ⟨by simp, by simp [hopen]⟩, ?_⟩
    · simp only [toSend, hbuffer]
      rw [← List.append_assoc p.line, List.append_assoc (p.line ++ body), List.cons_append,
        linesOf_append_newline hline]
      rfl
    · simp only [weight, hbuffer, List.length_append, List.length_cons, List.length_nil]
      omega

theorem finish_spec (t : p.IsTidy) (hopen : p.ended = false) (hbuffer : p.buffer = [])
    (hunread : p.unread = []) :
    p.toSend = p.finish.2 ++ p.finish.1.toSend ∧ p.finish.1.IsTidy ∧
      p.finish.1.weight + p.finish.2.length < p.weight := by
  have hsend : p.toSend = if p.breaks || p.line.isEmpty then [] else [p.line] := by
    rw [toSend, hbuffer, hunread, List.append_nil, List.append_nil, linesOf_of_not_mem t.line]
  unfold finish
  split
  · rename_i hlost
    rw [if_pos hlost] at hsend
    refine ⟨rfl, ⟨t.line, fun _ => hsend⟩, ?_⟩
    simp [weight, hopen]
  · rename_i hkept
    rw [if_neg hkept] at hsend
    have hline : p.line ≠ [] := by
      rintro hnil
      simp [hnil] at hkept
    have hlength := List.length_pos_iff.2 hline
    have hnone : toSend { p with line := [] } = [] := by
      rw [toSend, hbuffer, hunread]
      exact (linesOf_of_not_mem (by simp)).trans (by simp)
    refine ⟨by rw [hsend, hnone, List.append_nil], ⟨by simp, fun _ => hnone⟩, ?_⟩
    simp only [weight, List.length_nil, List.length_singleton]
    omega

/-- A step sends what comes next, and brings the end nearer. -/
theorem step_spec (t : p.IsTidy) (h : p.step i = some (p', sent)) :
    p.toSend = sent ++ p'.toSend ∧ p'.IsTidy ∧ p'.weight + sent.length < p.weight := by
  cases i with
  | arrive count =>
    simp only [step] at h
    split at h
    · rename_i hcan
      simp only [Bool.and_eq_true, Bool.not_eq_true', List.isEmpty_iff, decide_eq_true_eq] at hcan
      obtain ⟨⟨⟨hopen, hbuffer⟩, hcount⟩, hle⟩ := hcan
      cases h
      refine ⟨?_, ⟨t.line, by simp [hopen]⟩, ?_⟩
      · simp [toSend, hbuffer]
      · simp only [weight, hbuffer, List.length_drop, List.length_take, List.length_nil]
        omega
    · cases h
  | take =>
    simp only [step] at h
    split at h
    · cases h
    · rename_i hcan
      simp only [Bool.or_eq_true, List.isEmpty_iff, not_or, Bool.not_eq_true] at hcan
      obtain ⟨hopen, hne⟩ := hcan
      have hlook := look_spec t hopen hne
      cases hl : p.look with
      | mk q out =>
        rw [hl] at h hlook
        cases h
        exact hlook
  | close =>
    simp only [step] at h
    split at h
    · rename_i hcan
      simp only [Bool.and_eq_true, Bool.not_eq_true', List.isEmpty_iff] at hcan
      obtain ⟨⟨hopen, hbuffer⟩, hunread⟩ := hcan
      have hfinish := finish_spec t hopen hbuffer hunread
      cases hl : p.finish with
      | mk q out =>
        rw [hl] at h hfinish
        cases h
        exact hfinish
    · cases h

theorem exists_step (hopen : p.ended = false) : ∃ i, (p.step i).isSome := by
  by_cases hbuffer : p.buffer = []
  · by_cases hunread : p.unread = []
    · exact ⟨.close, by simp [step, hopen, hbuffer, hunread]⟩
    · have hlength := List.length_pos_iff.2 hunread
      exact ⟨.arrive 1, by simp [step, hopen, hbuffer, Nat.succ_le_of_lt hlength]⟩
  · exact ⟨.take, by simp [step, hopen, hbuffer]⟩

theorem isTidy_ofStream (s : Stream) : (ofStream s).IsTidy :=
  ⟨by simp [ofStream], by simp [ofStream]⟩

end Steps

end Pipe

/-- All items of some lists, taken one after the other from the front of any of them. -/
inductive Interleaves {α : Type} : List (List α) → List α → Prop where
  | nil {lists : List (List α)} (h : ∀ list ∈ lists, list = []) : Interleaves lists []
  | cons {lists : List (List α)} {i : Nat} {x : α} {rest all : List α}
      (h : lists[i]? = some (x :: rest)) (more : Interleaves (lists.set i rest) all) :
      Interleaves lists (x :: all)

/-- What came from one of several senders. -/
def sentBy {α : Type} (i : Nat) (sent : List (Nat × α)) : List α :=
  (sent.filter (·.1 = i)).map (·.2)

section Interleaves

variable {α : Type} {i j : Nat}

theorem sentBy_append (sent later : List (Nat × α)) :
    sentBy i (sent ++ later) = sentBy i sent ++ sentBy i later := by
  simp [sentBy]

theorem sentBy_cons_self (x : α) (sent : List (Nat × α)) :
    sentBy i ((i, x) :: sent) = x :: sentBy i sent := by
  simp [sentBy]

theorem sentBy_cons_ne (h : j ≠ i) (x : α) (sent : List (Nat × α)) :
    sentBy i ((j, x) :: sent) = sentBy i sent := by
  simp [sentBy, h]

theorem sentBy_map_self (items : List α) : sentBy i (items.map (i, ·)) = items := by
  induction items with
  | nil => rfl
  | cons x items ih => rw [List.map_cons, sentBy_cons_self, ih]

theorem sentBy_map_ne (h : j ≠ i) (items : List α) : sentBy i (items.map (j, ·)) = [] := by
  induction items with
  | nil => rfl
  | cons x items ih => rw [List.map_cons, sentBy_cons_ne h, ih]

theorem interleaves_of_sentBy {sent : List (Nat × α)} {lists : List (List α)}
    (hknown : ∀ x ∈ sent, x.1 < lists.length)
    (hsent : ∀ i list, lists[i]? = some list → sentBy i sent = list) :
    Interleaves lists (sent.map (·.2)) := by
  induction sent generalizing lists with
  | nil =>
    refine .nil ?_
    intro list hlist
    obtain ⟨i, hi⟩ := List.mem_iff_getElem?.1 hlist
    exact (hsent i list hi).symm
  | cons x sent ih =>
    obtain ⟨i, item⟩ := x
    have hi : i < lists.length := hknown (i, item) List.mem_cons_self
    have hlist : lists[i]? = some (item :: sentBy i sent) := by
      rw [List.getElem?_eq_getElem hi, ← hsent i lists[i] (List.getElem?_eq_getElem hi),
        sentBy_cons_self]
    refine .cons hlist (ih ?_ ?_)
    · intro y hy
      rw [List.length_set]
      exact hknown y (List.mem_cons_of_mem _ hy)
    · intro j list hj
      by_cases hij : i = j
      · subst hij
        rw [List.getElem?_set_self hi] at hj
        exact Option.some.inj hj
      · rw [List.getElem?_set_ne hij] at hj
        rw [← hsent j list hj, sentBy_cons_ne hij]

theorem Interleaves.nil_cons {lists : List (List α)} {all : List α} (h : Interleaves lists all) :
    Interleaves ([] :: lists) all := by
  induction h with
  | nil h => exact .nil (by simpa using h)
  | @cons lists i x rest all h more ih => exact .cons (i := i + 1) h ih

theorem interleaves_flatten (lists : List (List α)) : Interleaves lists lists.flatten := by
  induction lists with
  | nil => exact .nil (by simp)
  | cons front lists ih =>
    rw [List.flatten_cons]
    induction front with
    | nil => exact ih.nil_cons
    | cons x front ihfront => exact .cons (i := 0) rfl ihfront

end Interleaves

theorem interleaves_pipeAll (log : MachineLog) (t : Tree) (streams : List Stream) :
    ∃ pieces, Interleaves (streams.map (·.lines)) pieces ∧
      log.pipeAll t streams = log.writeAll t pieces :=
  ⟨_, interleaves_flatten _, by rw [pipeAll, List.flatMap_def]⟩

theorem sum_map_set {α : Type} {items : List α} {i : Nat} {x : α} (f : α → Nat) (y : α)
    (h : items[i]? = some x) :
    ((items.set i y).map f).sum + f x = (items.map f).sum + f y := by
  induction items generalizing i with
  | nil => cases h
  | cons z items ih =>
    cases i with
    | zero =>
      cases h
      simp only [List.set_cons_zero, List.map_cons, List.sum_cons]
      omega
    | succ i =>
      have hrest := ih (i := i) h
      simp only [List.set_cons_succ, List.map_cons, List.sum_cons]
      omega

end MachineFleet.MachineLog

namespace MachineFleet

open MachineLog (Pipe Stream Interleaves AreLinesOf sentBy sentBy_append sentBy_map_self
  sentBy_map_ne)

structure PipedLog where
  pipes : List Pipe
  queue : List (Nat × List UInt8)
  log : MachineLog
  tree : Files.Tree

namespace PipedLog

inductive Input where
  | pipe (i : Nat) (input : Pipe.Input)
  | write
  deriving DecidableEq, Repr

inductive Effect where
  | queued (piece : Nat × List UInt8)
  | written (piece : Nat × List UInt8)
  deriving DecidableEq, Repr

/-- A stream that is piped in later takes its first step later. -/
def ofStreams (streams : List Stream) (log : MachineLog) (tree : Files.Tree) : PipedLog :=
  ⟨streams.map .ofStream, [], log, tree⟩

def step (s : PipedLog) : Input → Option (PipedLog × List Effect)
  | .pipe i input => do
    let pipe ← s.pipes[i]?
    let (pipe, sent) ← pipe.step input
    return ({ s with pipes := s.pipes.set i pipe, queue := s.queue ++ sent.map (i, ·) },
      sent.map fun piece => .queued (i, piece))
  | .write =>
    match s.queue with
    | [] => none
    | piece :: queue =>
      let (log, tree) := s.log.write s.tree piece.2
      some ({ s with queue, log, tree }, [.written piece])

def Effect.queued? : Effect → Option (Nat × List UInt8)
  | .queued piece => some piece
  | .written _ => none

def Effect.written? : Effect → Option (Nat × List UInt8)
  | .queued _ => none
  | .written piece => some piece

def queued (history : List (Happening PipedLog Input Effect)) : List (Nat × List UInt8) :=
  (history.flatMap (·.effects)).filterMap Effect.queued?

def written (history : List (Happening PipedLog Input Effect)) : List (Nat × List UInt8) :=
  (history.flatMap (·.effects)).filterMap Effect.written?

def weight (s : PipedLog) : Nat := (s.pipes.map Pipe.weight).sum + s.queue.length

section Runs

variable {streams : List Stream} {log : MachineLog} {t : Files.Tree} {s s' : PipedLog} {i : Input}
  {effects : List Effect} {history : List (Happening PipedLog Input Effect)}

theorem step_cases (h : s.step i = some (s', effects)) :
    (∃ index input pipe pipe' sent, i = .pipe index input ∧ s.pipes[index]? = some pipe ∧
      pipe.step input = some (pipe', sent) ∧
      effects = sent.map (fun piece => .queued (index, piece)) ∧
      s' = { s with pipes := s.pipes.set index pipe', queue := s.queue ++ sent.map (index, ·) }) ∨
    ∃ piece queue, i = .write ∧ s.queue = piece :: queue ∧ effects = [.written piece] ∧
      s' = { s with
        queue := queue
        log := (s.log.write s.tree piece.2).1
        tree := (s.log.write s.tree piece.2).2 } := by
  cases i with
  | pipe index input =>
    simp only [step, Option.bind_eq_bind, Option.bind_eq_some_iff, Prod.exists] at h
    obtain ⟨pipe, hpipe, pipe', sent, hstep, he⟩ := h
    cases he
    exact .inl ⟨index, input, pipe, pipe', sent, rfl, hpipe, hstep, rfl, rfl⟩
  | write =>
    simp only [step] at h
    split at h
    · cases h
    · rename_i piece queue hqueue
      cases h
      exact .inr ⟨piece, queue, rfl, hqueue, rfl, rfl⟩

theorem queued_concat (x : Happening PipedLog Input Effect) :
    queued (history ++ [x]) = queued history ++ x.effects.filterMap Effect.queued? := by
  simp [queued]

theorem written_concat (x : Happening PipedLog Input Effect) :
    written (history ++ [x]) = written history ++ x.effects.filterMap Effect.written? := by
  simp [written]

/-- What was queued, what was written and what is still to come agree. -/
structure Agrees (streams : List Stream) (log : MachineLog) (t : Files.Tree)
    (history : List (Happening PipedLog Input Effect)) (s : PipedLog) : Prop where
  length : s.pipes.length = streams.length
  tidy : ∀ pipe ∈ s.pipes, pipe.IsTidy
  lines : ∀ i stream pipe, streams[i]? = some stream → s.pipes[i]? = some pipe →
    stream.lines = sentBy i (queued history) ++ pipe.toSend
  queue : queued history = written history ++ s.queue
  known : ∀ piece ∈ queued history, piece.1 < streams.length
  logged : (s.log, s.tree) = log.writeAll t ((written history).map (·.2))
  weight : history.length + s.weight ≤ (ofStreams streams log t).weight

theorem agrees_ofStreams (streams : List Stream) (log : MachineLog) (t : Files.Tree) :
    Agrees streams log t [] (ofStreams streams log t) where
  length := by simp [ofStreams]
  tidy := by
    intro pipe hpipe
    obtain ⟨stream, -, rfl⟩ := List.mem_map.1 hpipe
    exact Pipe.isTidy_ofStream stream
  lines := by
    intro i stream pipe hstream hpipe
    simp only [ofStreams, List.getElem?_map, hstream, Option.map_some, Option.some.injEq] at hpipe
    rw [← hpipe, Pipe.toSend_ofStream]
    rfl
  queue := rfl
  known := by simp [queued]
  logged := rfl
  weight := by simp

theorem Agrees.pipe {index : Nat} {input : Pipe.Input} {pipe pipe' : Pipe}
    {sent : List (List UInt8)} (a : Agrees streams log t history s)
    (hpipe : s.pipes[index]? = some pipe) (h : pipe.step input = some (pipe', sent)) :
    Agrees streams log t
      (history ++ [⟨s, .pipe index input, sent.map fun piece => .queued (index, piece)⟩])
      { s with pipes := s.pipes.set index pipe', queue := s.queue ++ sent.map (index, ·) } := by
  obtain ⟨hsend, htidy, hweight⟩ := Pipe.step_spec (a.tidy pipe (List.mem_of_getElem? hpipe)) h
  have hlt : index < s.pipes.length := (List.getElem?_eq_some_iff.1 hpipe).1
  have hqueued : (sent.map fun piece => Effect.queued (index, piece)).filterMap Effect.queued? =
      sent.map (index, ·) := by
    simp [List.filterMap_map, Function.comp_def, Effect.queued?]
  have hwritten : (sent.map fun piece => Effect.queued (index, piece)).filterMap
      Effect.written? = [] := by
    simp [List.filterMap_map, Function.comp_def, Effect.written?]
  constructor
  case length => simp [a.length]
  case tidy =>
    intro other hother
    rcases List.mem_or_eq_of_mem_set hother with hmem | rfl
    · exact a.tidy other hmem
    · exact htidy
  case lines =>
    intro j stream other hstream hother
    rw [queued_concat, hqueued, sentBy_append]
    by_cases hj : index = j
    · subst hj
      rw [List.getElem?_set_self hlt] at hother
      cases hother
      rw [sentBy_map_self, List.append_assoc, ← hsend]
      exact a.lines index stream pipe hstream hpipe
    · rw [List.getElem?_set_ne hj] at hother
      rw [sentBy_map_ne hj, List.append_nil]
      exact a.lines j stream other hstream hother
  case queue =>
    rw [queued_concat, written_concat, hqueued, hwritten, List.append_nil, a.queue,
      List.append_assoc]
  case known =>
    intro piece hpiece
    rw [queued_concat, hqueued] at hpiece
    rcases List.mem_append.1 hpiece with hpiece | hpiece
    · exact a.known piece hpiece
    · obtain ⟨bytes, -, rfl⟩ := List.mem_map.1 hpiece
      exact a.length ▸ hlt
  case logged =>
    rw [written_concat, hwritten, List.append_nil]
    exact a.logged
  case weight =>
    -- The step has made the pipe lighter by more than what it has added to the queue.
    have hsum := MachineLog.sum_map_set Pipe.weight pipe' hpipe
    have hbound := a.weight
    simp only [PipedLog.weight, List.length_append, List.length_map, List.length_singleton]
      at hbound ⊢
    omega

theorem Agrees.write {piece : Nat × List UInt8} {queue : List (Nat × List UInt8)}
    (a : Agrees streams log t history s) (hqueue : s.queue = piece :: queue) :
    Agrees streams log t (history ++ [⟨s, .write, [.written piece]⟩])
      { s with
        queue := queue
        log := (s.log.write s.tree piece.2).1
        tree := (s.log.write s.tree piece.2).2 } := by
  have hqueued : queued (history ++ [⟨s, .write, [.written piece]⟩]) = queued history := by
    rw [queued_concat]
    exact List.append_nil _
  have hwritten : written (history ++ [⟨s, .write, [.written piece]⟩]) =
      written history ++ [piece] := written_concat _
  constructor
  case length => exact a.length
  case tidy => exact a.tidy
  case lines =>
    rw [hqueued]
    exact a.lines
  case queue => rw [hqueued, hwritten, a.queue, hqueue, List.append_assoc, List.singleton_append]
  case known =>
    rw [hqueued]
    exact a.known
  case logged =>
    have hlogged := a.logged
    rw [hwritten, List.map_append, List.map_singleton, MachineLog.writeAll_concat, ← hlogged]
  case weight =>
    have hbound := a.weight
    simp only [PipedLog.weight, hqueue, List.length_append, List.length_cons, List.length_nil]
      at hbound ⊢
    omega

theorem agrees_of_run (run : Run step (ofStreams streams log t) history s) :
    Agrees streams log t history s := by
  refine run.invariant (agrees_ofStreams streams log t) ?_
  intro history s i s' effects a h
  rcases step_cases h with ⟨index, input, pipe, pipe', sent, rfl, hpipe, hstep, rfl, rfl⟩ |
    ⟨piece, queue, rfl, hqueue, rfl, rfl⟩
  · exact a.pipe hpipe hstep
  · exact a.write hqueue

/-- If no step can be made, every pipe has ended and everything is written. -/
theorem ended_of_step_eq_none (h : ∀ i, s.step i = none) :
    (∀ pipe ∈ s.pipes, pipe.ended = true) ∧ s.queue = [] := by
  constructor
  · intro pipe hpipe
    by_contra hopen
    obtain ⟨index, hindex⟩ := List.mem_iff_getElem?.1 hpipe
    obtain ⟨input, hcan⟩ := Pipe.exists_step (Bool.not_eq_true _ ▸ hopen)
    obtain ⟨⟨pipe', sent⟩, hstep⟩ := Option.isSome_iff_exists.1 hcan
    have hnone := h (.pipe index input)
    simp [step, hindex, hstep] at hnone
  · cases hqueue : s.queue with
    | nil => rfl
    | cons piece queue =>
      have hnone := h .write
      simp [step, hqueue] at hnone

/-- However streams come in and however the tasks take turns, each pipe queues the lines of its
stream, from the first one on, and what was queued is written in that order. After a bounded number
of steps nothing more can be done; then every pipe has ended, so that it has queued all its lines,
and what was written is an interleaving of them. The lines of a stream that does not break are its
content, cut after every newline and nowhere else. -/
theorem pipes_interleave_lines (run : Run step (ofStreams streams log t) history s) :
    (∀ i stream, streams[i]? = some stream → ∃ pipe, s.pipes[i]? = some pipe ∧
      sentBy i (queued history) <+: stream.lines ∧
      (pipe.ended = true → sentBy i (queued history) = stream.lines)) ∧
    queued history = written history ++ s.queue ∧
    (s.log, s.tree) = log.writeAll t ((written history).map (·.2)) ∧
    history.length ≤ (streams.map fun stream => 4 * stream.pieces.flatten.length + 1).sum ∧
    ((∀ i, s.step i = none) → (∀ pipe ∈ s.pipes, pipe.ended = true) ∧ s.queue = []) ∧
    ((∀ pipe ∈ s.pipes, pipe.ended = true) → s.queue = [] →
      Interleaves (streams.map (·.lines)) ((written history).map (·.2))) ∧
    ∀ stream ∈ streams, stream.breaks = false → ∀ pieces,
      AreLinesOf stream.pieces.flatten pieces ↔ pieces = stream.lines := by
  have a := agrees_of_run run
  have hpipes (i : Nat) (stream : Stream) (hstream : streams[i]? = some stream) :
      ∃ pipe, s.pipes[i]? = some pipe ∧ sentBy i (queued history) <+: stream.lines ∧
        (pipe.ended = true → sentBy i (queued history) = stream.lines) := by
    have hlt : i < s.pipes.length := by
      rw [a.length]
      exact (List.getElem?_eq_some_iff.1 hstream).1
    have hpipe : s.pipes[i]? = some s.pipes[i] := List.getElem?_eq_getElem hlt
    have hlines := a.lines i stream _ hstream hpipe
    refine ⟨_, hpipe, ⟨_, hlines.symm⟩, ?_⟩
    intro hended
    rw [hlines, (a.tidy _ (List.getElem_mem hlt)).ended hended, List.append_nil]
  refine ⟨hpipes, a.queue, a.logged, ?_, ended_of_step_eq_none, ?_, ?_⟩
  · have hbound := a.weight
    have hstart : (ofStreams streams log t).weight =
        (streams.map fun stream => 4 * stream.pieces.flatten.length + 1).sum := by
      simp [weight, ofStreams, Pipe.weight, Pipe.ofStream, Function.comp_def]
    omega
  · intro hended hempty
    have hall : queued history = written history := by rw [a.queue, hempty, List.append_nil]
    apply MachineLog.interleaves_of_sentBy
    · rw [← hall, List.length_map]
      exact a.known
    · intro i list hlist
      rw [List.getElem?_map, Option.map_eq_some_iff] at hlist
      obtain ⟨stream, hstream, rfl⟩ := hlist
      obtain ⟨pipe, hpipe, -, hqueued⟩ := hpipes i stream hstream
      rw [← hall]
      exact hqueued (hended pipe (List.mem_of_getElem? hpipe))
  · intro stream hstream hwhole pieces
    have hlines : stream.lines = MachineLog.lines stream.pieces.flatten := by
      simp [MachineLog.Stream.lines, hwhole]
    rw [hlines]
    exact MachineLog.areLinesOf_iff

/-- Two streams, one of which ends without a newline. -/
def twoStreams : List Stream := [⟨[[97, 10, 10], [98]], false⟩, ⟨[[99, 10]], false⟩]

def emptyLog : MachineLog := ⟨"log", ["log"], 100, 0⟩

def inTurns : List Input :=
  [.pipe 0 (.arrive 2), .pipe 1 (.arrive 1), .pipe 0 .take, .pipe 1 .take, .pipe 1 (.arrive 1),
    .pipe 1 .take, .write, .pipe 0 (.arrive 2), .pipe 0 .take, .pipe 0 .take, .write,
    .pipe 0 .close, .write, .pipe 1 .close, .pipe 0 .close, .write]

theorem two_streams_interleave :
    let start := ofStreams twoStreams emptyLog (Files.Tree.empty.put ["log"] (.file []))
    ∃ history s, Run step start history s ∧ history.map (·.input) = inTurns ∧
      (written history).map (·.2) = [[97, 10], [99, 10], [10], [98]] ∧
      s.tree.contents? ["log"] = some [97, 10, 99, 10, 10, 98] ∧
      sentBy 0 (queued history) = [[97, 10], [10], [98]] ∧
      sentBy 0 (queued history) <+: MachineLog.lines [97, 10, 10, 98] := by
  intro start
  obtain ⟨⟨history, s⟩, hr⟩ : ∃ r, replay step start inTurns = some r :=
    Option.isSome_iff_exists.1 (by decide +kernel)
  have run := Run.of_replay hr
  obtain ⟨hpipes, -⟩ := pipes_interleave_lines run
  obtain ⟨pipe, -, hprefix, -⟩ := hpipes 0 ⟨[[97, 10, 10], [98]], false⟩ rfl
  exact ⟨history, s, run, map_input_of_replay hr,
    history_of_replay hr (fun h => (written h).map (·.2)) (by decide +kernel),
    last_of_replay hr (fun s => s.tree.contents? ["log"]) (by decide +kernel),
    history_of_replay hr (fun h => sentBy 0 (queued h)) (by decide +kernel), hprefix⟩

end Runs

end PipedLog

end MachineFleet
