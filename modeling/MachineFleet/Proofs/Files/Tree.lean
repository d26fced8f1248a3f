import MachineFleet.Files.Tree

namespace MachineFleet.Files.Tree

variable {t t' : Tree} {place other : Place} {node : Node} {contents : List UInt8}

theorem accepts_iff : t.accepts place node = true ↔
    place ≠ [] ∧ t.node? place.dropLast = some .directory ∧
      (node = .directory ∨ t.node? place ≠ some .directory) := by
  simp [accepts, and_assoc]

theorem node?_put (h : t.accepts place node = true) (other : Place) :
    (t.put place node).node? other = if place = other then some node else t.node? other := by
  have hne : place ≠ [] := (accepts_iff.1 h).1
  have hput : (t.put place node).node? other =
      nodeAt? ((place, node) :: t.entries.filter fun e => e.1 != place) other := by
    rw [put, dif_pos h]
    rfl
  rw [hput, nodeAt?_cons_filter]
  by_cases hp : place = other
  · rw [if_pos ⟨hp ▸ hne, hp⟩, if_pos hp]
  · rw [if_neg fun h => hp h.2, if_neg hp]
    rfl

theorem node?_of_contents? (h : t.contents? place = some contents) :
    t.node? place = some (.file contents) := by
  unfold contents? at h
  split at h
  · rename_i hn
    cases h
    exact hn
  · cases h

theorem contents?_of_node? (h : t.node? place = t'.node? other) :
    t.contents? place = t'.contents? other := by
  rw [contents?, contents?, h]

theorem contents?_file (h : t.node? place = some (.file contents)) :
    t.contents? place = some contents := by
  rw [contents?, h]

theorem contents?_eq_none (h : ∀ contents, t.node? place ≠ some (.file contents)) :
    t.contents? place = none := by
  unfold contents?
  split
  · rename_i contents hn
    exact absurd hn (h contents)
  · rfl

theorem node?_dropLast (h : t.node? place = some node) :
    t.node? place.dropLast = some .directory := by
  unfold node? nodeAt? at h
  split at h
  · rename_i hp
    subst hp
    rfl
  · obtain ⟨e, he, -⟩ := Option.map_eq_some_iff.1 h
    have hplace : e.1 = place := by simpa using List.find?_some he
    rw [← hplace]
    exact t.closed e (List.mem_of_find?_eq_some he)

theorem ne_nil_of_contents? (h : t.contents? place = some contents) : place ≠ [] := by
  rintro rfl
  cases (node?_of_contents? h).symm.trans (show t.node? [] = some .directory from rfl)

theorem accepts_file (h : t.contents? place = some contents) (contents' : List UInt8) :
    t.accepts place (.file contents') = true := by
  have hn := node?_of_contents? h
  refine accepts_iff.2 ⟨ne_nil_of_contents? h, node?_dropLast hn, .inr ?_⟩
  rw [hn]
  exact nofun

theorem node?_append (h : t.contents? place = some contents) (bytes : List UInt8) (other : Place) :
    (t.append place bytes).node? other =
      if place = other then some (.file (contents ++ bytes)) else t.node? other := by
  rw [append, h]
  exact node?_put (accepts_file h _) other

theorem contents?_put_directory (h : t.node? place = none) (other : Place) :
    (t.put place .directory).contents? other = t.contents? other := by
  cases ha : t.accepts place .directory with
  | false => simp [put, ha]
  | true =>
    have hput := node?_put ha other
    split at hput
    · rename_i hp
      subst hp
      rw [contents?_eq_none (by simp [hput]), contents?_eq_none (by simp [h])]
    · exact contents?_of_node? hput

theorem contents?_makeAlong (made : Bool) (place : Place) (t : Tree)
    (components : List Path.Component) (other : Place) :
    (makeAlong made place t components).1.contents? other = t.contents? other := by
  induction components generalizing made place t with
  | nil => rfl
  | cons c rest ih =>
    cases c with
    | name text =>
      rw [makeAlong]
      split
      · exact ih made _ t
      · rfl
      · rename_i hn
        rw [ih, contents?_put_directory hn]
    | parent => exact ih made _ t
    | _ => exact ih made _ t

theorem contents?_makePath (t : Tree) (p : Path) (other : Place) :
    (t.makePath p).1.contents? other = t.contents? other :=
  contents?_makeAlong false [] t p.components other

/-- A file that is opened is there afterwards, with what it held before, and no other one has
changed. -/
theorem openFile_cases {p : Path} (h : t.openFile p = .ok (place, t')) :
    t'.contents? place = some ((t.contents? place).getD []) ∧
      ∀ other, other ≠ place → t'.node? other = t.node? other := by
  unfold openFile at h
  split at h
  · cases h
  · split at h
    · cases h
    · split at h
      · cases h
      · rename_i contents hn
        cases h
        rw [contents?_file hn]
        exact ⟨rfl, fun _ _ => rfl⟩
      · rename_i hn
        split at h
        · rename_i hdir
          cases h
          have hne : place ≠ [] := by
            rintro rfl
            cases hn
          have haccepts : t.accepts place (.file []) = true :=
            accepts_iff.2 ⟨hne, hdir, .inr (by simp [hn])⟩
          have hput := node?_put haccepts
          have hnone : t.contents? place = none := contents?_eq_none (by simp [hn])
          refine ⟨?_, fun other ho => ?_⟩
          · rw [hnone]
            exact contents?_file (by rw [hput, if_pos rfl]; rfl)
          · rw [hput, if_neg (Ne.symm ho)]
        · cases h

end MachineFleet.Files.Tree
