import Mathlib.Data.List.Perm.Basic

namespace MachineFleet

variable {α β : Type}

theorem getElem?_concat_eq_some {l : List α} {x y : α} {i : Nat} :
    (l ++ [x])[i]? = some y ↔ l[i]? = some y ∨ i = l.length ∧ x = y := by
  rcases Nat.lt_trichotomy i l.length with h | rfl | h
  · rw [List.getElem?_append_left h]
    simp [Nat.ne_of_lt h]
  · simp
  · rw [List.getElem?_append_right (Nat.le_of_lt h)]
    have hi : i - l.length ≠ 0 := by omega
    simp [hi, Nat.ne_of_gt h, Nat.le_of_lt h]

theorem getElem?_set_eq_some {l : List α} {x y : α} {i j : Nat} (h : (l.set i x)[j]? = some y) :
    i = j ∧ x = y ∨ i ≠ j ∧ l[j]? = some y := by
  rw [List.getElem?_set] at h
  split at h
  · rename_i hij
    split at h
    · exact .inl ⟨hij, Option.some.inj h⟩
    · cases h
  · exact .inr ⟨‹_›, h⟩

theorem filterMap_concat (g : α → Option β) (l : List α) (x : α) :
    (l ++ [x]).filterMap g = l.filterMap g ++ (g x).toList := by
  rw [List.filterMap_append]
  cases h : g x <;> simp [h]

theorem index_eq_of_nodup_map {g : α → β} {l : List α} {x y : α} {i j : Nat}
    (hd : (l.map g).Nodup) (hi : l[i]? = some x) (hj : l[j]? = some y) (h : g x = g y) : i = j := by
  have hlt : i < (l.map g).length := by
    simpa using (List.getElem?_eq_some_iff.1 hi).1
  refine (List.getElem?_inj hlt hd).1 ?_
  rw [List.getElem?_map, List.getElem?_map, hi, hj, Option.map_some, Option.map_some, h]

section Cut

variable {p : α → Bool} {front rest : List α}

theorem takeWhile_append (hfront : ∀ x ∈ front, p x = true)
    (hrest : ∀ x ∈ rest.head?, p x = false) : (front ++ rest).takeWhile p = front := by
  rw [List.takeWhile_append_of_pos hfront]
  cases rest with
  | nil => simp
  | cons x rest => simp [hrest x rfl]

theorem dropWhile_append (hfront : ∀ x ∈ front, p x = true)
    (hrest : ∀ x ∈ rest.head?, p x = false) : (front ++ rest).dropWhile p = rest := by
  rw [List.dropWhile_append_of_pos hfront]
  cases rest with
  | nil => rfl
  | cons x rest => simp [hrest x rfl]

theorem dropWhile_append_of_head (front : List α) (hrest : ∀ x ∈ rest.head?, p x = false) :
    (front ++ rest).dropWhile p = front.dropWhile p ++ rest := by
  have hstop : rest.dropWhile p = rest :=
    show ([] ++ rest).dropWhile p = rest from dropWhile_append (by simp) hrest
  rw [List.dropWhile_append, hstop]
  split
  · rename_i hempty
    rw [List.isEmpty_iff.1 hempty, List.nil_append]
  · rfl

theorem takeWhile_append_of_not {x : α} (front : List α) (hx : p x = false) (rest : List α) :
    (front ++ x :: rest).takeWhile p = front.takeWhile p := by
  induction front with
  | nil => simp [hx]
  | cons y front ih => simp only [List.cons_append, List.takeWhile_cons, ih]

end Cut

section Groups

variable [BEq β] [LawfulBEq β]

theorem nodup_eraseDups (l : List β) : l.eraseDups.Nodup := by
  induction hn : l.length using Nat.strongRecOn generalizing l with
  | ind n ih =>
    cases l with
    | nil => simp
    | cons x rest =>
      rw [List.eraseDups_cons, List.nodup_cons]
      have hlt : (rest.filter fun y => !y == x).length < n :=
        Nat.lt_of_le_of_lt (List.length_filter_le ..) (by simp [← hn])
      exact ⟨by simp, ih _ hlt _ rfl⟩

/-- A list put in groups, one for each key that occurs, holds what it held before. -/
theorem flatMap_filter_eraseDups_perm (key : α → β) (l : List α) :
    ((l.map key).eraseDups.flatMap fun k => l.filter (key · == k)).Perm l := by
  induction hn : l.length using Nat.strongRecOn generalizing l with
  | ind n ih =>
    cases l with
    | nil => simp
    | cons x rest =>
      have hlt : (rest.filter fun y => !key y == key x).length < n :=
        Nat.lt_of_le_of_lt (List.length_filter_le ..) (by simp [← hn])
      have hkeys : ((rest.map key).filter fun k => !k == key x) =
          (rest.filter fun y => !key y == key x).map key := List.filter_map
      -- The groups after the first are those of the list without the first key.
      have hothers : ∀ k ∈ ((rest.filter fun y => !key y == key x).map key).eraseDups,
          (x :: rest).filter (key · == k) =
            (rest.filter fun y => !key y == key x).filter (key · == k) := by
        intro k hk
        have hne : k ≠ key x := by
          rw [List.mem_eraseDups, ← hkeys] at hk
          simpa using (List.mem_filter.1 hk).2
        rw [List.filter_filter, List.filter_cons_of_neg (by simpa using hne.symm)]
        refine List.filter_congr fun y _ => ?_
        by_cases hy : key y = k <;> simp [hy, hne]
      rw [List.map_cons, List.eraseDups_cons, hkeys, List.flatMap_cons, List.flatMap_congr hothers]
      have hfirst : (rest.filter fun y => !key y == key x) =
          (x :: rest).filter fun y => !key y == key x := by simp
      refine ((ih _ hlt _ rfl).append_left _).trans ?_
      rw [hfirst]
      exact List.filter_append_perm (key · == key x) (x :: rest)

end Groups
end MachineFleet
