import Mathlib.Data.List.Rotate
import MachineFleet.Fleet.Selector

namespace MachineFleet.RoundRobin

def after (r : RoundRobin) : List Nat → RoundRobin
  | [] => r
  | size :: rest => (r.pick size).2.after rest

def turns (size start count : Nat) : List Nat := (List.range' start count).map (· % size)

/-- Whenever as many are chosen as there are machines, they are all of them, in cyclic order, and no
part of what is chosen favours one of them. -/
structure TakesTurns (size : Nat) (picks : List Nat) : Prop where
  rounds : ∀ round, round <:+: picks → round.length = size → round.IsRotated (List.range size)
  fair : ∀ part, part <:+: picks → ∀ a < size, ∀ b < size, part.count a ≤ part.count b + 1

variable {size start count : Nat}

theorem turns_add (size start m n : Nat) :
    turns size start (m + n) = turns size start m ++ turns size (start + m) n := by
  rw [turns, turns, turns, ← List.map_append, List.range'_append_1]

theorem turns_round (size start : Nat) :
    turns size start size = (List.range size).rotate start := by
  apply List.ext_getElem
  · simp [turns]
  · intro i hi hi'
    simp [turns, List.getElem_rotate, Nat.add_comm]

theorem turns_round_perm (size start : Nat) : (turns size start size).Perm (List.range size) := by
  rw [turns_round]
  exact List.rotate_perm ..

theorem exists_turns_of_infix {part : List Nat} (h : part <:+: turns size start count) :
    ∃ first, part = turns size first part.length := by
  obtain ⟨front, back, h⟩ := h
  have hlength : count = front.length + (part.length + back.length) := by
    simpa [turns, Nat.add_assoc] using (congrArg List.length h).symm
  rw [hlength, turns_add, turns_add, List.append_assoc] at h
  obtain ⟨-, h⟩ := List.append_inj h (by simp [turns])
  exact ⟨_, (List.append_inj h (by simp [turns])).1⟩

theorem count_turns_le {a b : Nat} (ha : a < size) (hb : b < size) (start count : Nat) :
    (turns size start count).count a ≤ (turns size start count).count b + 1 := by
  induction count using Nat.strongRecOn generalizing start with
  | ind count ih =>
    have hround {c : Nat} (hc : c < size) : (turns size start size).count c = 1 := by
      rw [(turns_round_perm size start).count_eq, List.count_range, if_pos hc]
    rcases Nat.lt_or_ge count size with hlt | hge
    · -- What is less than a round has every machine at most once.
      have hpart : (turns size start count).Sublist (turns size start size) := by
        rw [← Nat.add_sub_cancel' hlt.le, turns_add]
        exact List.sublist_append_left ..
      have hone := hpart.count_le a
      rw [hround ha] at hone
      omega
    · -- A whole round has every machine once.
      rw [← Nat.add_sub_cancel' hge, turns_add, List.count_append, List.count_append, hround ha,
        hround hb]
      have hrest := ih (count - size) (by omega) (start + size)
      omega

theorem takesTurns_turns (size start count : Nat) : TakesTurns size (turns size start count) where
  rounds round hround hlength := by
    obtain ⟨first, h⟩ := exists_turns_of_infix hround
    rw [h, hlength, turns_round]
    exact List.IsRotated.symm ⟨first, rfl⟩
  fair part hpart a ha b hb := by
    obtain ⟨first, h⟩ := exists_turns_of_infix hpart
    rw [h]
    exact count_turns_le ha hb first part.length

theorem picks_append (r : RoundRobin) (earlier later : List Nat) :
    r.picks (earlier ++ later) = r.picks earlier ++ (r.after earlier).picks later := by
  induction earlier generalizing r with
  | nil => rfl
  | cons size rest ih => rw [List.cons_append, picks, picks, ih, after, List.cons_append]

theorem length_picks (r : RoundRobin) (sizes : List Nat) :
    (r.picks sizes).length = sizes.length := by
  induction sizes generalizing r with
  | nil => rfl
  | cons size rest ih => rw [picks, List.length_cons, ih, List.length_cons]

theorem picks_lt (r : RoundRobin) {sizes : List Nat} (h : ∀ size ∈ sizes, 1 ≤ size) :
    List.Forall₂ (· < ·) (r.picks sizes) sizes := by
  induction sizes generalizing r with
  | nil => exact .nil
  | cons size rest ih =>
    obtain ⟨hsize, hrest⟩ := List.forall_mem_cons.1 h
    exact .cons (Nat.mod_lt _ hsize) (ih _ hrest)

/-- Asked about one size over and over, the selector takes the machines in turn, until its counter
wraps around. -/
theorem picks_replicate (r : RoundRobin) (h : r.next.toNat + count ≤ UInt64.size) :
    r.picks (List.replicate count size) = turns size r.next.toNat count := by
  induction count generalizing r with
  | zero => rfl
  | succ count ih =>
    rw [List.replicate_succ, picks, turns, List.range'_succ, List.map_cons]
    refine congrArg (r.next.toNat % size :: ·) ?_
    rcases Nat.eq_zero_or_pos count with rfl | hcount
    · rfl
    · have hlt : r.next.toNat + 1 < UInt64.size := by omega
      have hnext : (r.pick size).2.next.toNat = r.next.toNat + 1 :=
        (UInt64.toNat_add r.next 1).trans (Nat.mod_eq_of_lt hlt)
      rw [ih _ (by omega), hnext, turns]

/-- Every choice is among the machines that there are, also where the counter wraps around. In every
stretch of choices in which the number of machines stays the same and the counter does not wrap
around, wherever it stands at first, any round of choices is all the machines in cyclic order, and
over any part of the stretch the numbers of times that two of them are chosen differ by at most
one. -/
theorem machines_take_turns (r : RoundRobin) (sizes : List Nat)
    (hsizes : ∀ size ∈ sizes, 1 ≤ size) :
    List.Forall₂ (· < ·) (r.picks sizes) sizes ∧
      ∀ before size count later, sizes = before ++ List.replicate count size ++ later →
        (r.after before).next.toNat + count ≤ UInt64.size →
        TakesTurns size (((r.picks sizes).drop before.length).take count) := by
  refine ⟨picks_lt r hsizes, ?_⟩
  rintro before size count later rfl hwrap
  have hstretch : (r.after before).picks (List.replicate count size) =
      turns size (r.after before).next.toNat count := picks_replicate _ hwrap
  rw [List.append_assoc, picks_append, picks_append, hstretch, ← length_picks r before,
    List.drop_left, List.take_left' (by simp [turns])]
  exact takesTurns_turns ..

theorem wrapping_counter_takes_turns :
    let r : RoundRobin := ⟨18446744073709551615⟩
    let sizes := [2, 3, 3, 3, 3, 1]
    (∀ size ∈ sizes, 1 ≤ size) ∧ sizes = [2] ++ List.replicate 4 3 ++ [1] ∧
      (r.after [2]).next.toNat + 4 ≤ UInt64.size ∧ r.picks sizes = [1, 0, 1, 2, 0, 0] ∧
      TakesTurns 3 [0, 1, 2, 0] := by
  intro r sizes
  have hsizes : ∀ size ∈ sizes, 1 ≤ size := by decide
  have hwrap : (r.after [2]).next.toNat + 4 ≤ UInt64.size := by decide
  have hpicks : r.picks sizes = [1, 0, 1, 2, 0, 0] := by decide
  have hturns := (machines_take_turns r sizes hsizes).2 [2] 3 4 [1] rfl hwrap
  rw [hpicks] at hturns
  exact ⟨hsizes, rfl, hwrap, hpicks, hturns⟩

end MachineFleet.RoundRobin
