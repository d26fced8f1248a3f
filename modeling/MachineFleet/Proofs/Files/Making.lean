import MachineFleet.Proofs.Files.Path
import MachineFleet.Proofs.Files.Tree

namespace MachineFleet.Files.Tree

variable {t : Tree} {made : Bool} {place other : Place} {node : Node}
  {components : List Path.Component}

def leadsTo (place : Place) (components : List Path.Component) : Place :=
  (components.foldl Path.Component.walk place.reverse).reverse

@[simp] theorem leadsTo_nil (place : Place) : leadsTo place [] = place := List.reverse_reverse _

@[simp] theorem leadsTo_name (place : Place) (text : String) (rest : List Path.Component) :
    leadsTo place (.name text :: rest) = leadsTo (place ++ [text]) rest := by
  simp [leadsTo, Path.Component.walk]

@[simp] theorem leadsTo_parent (place : Place) (rest : List Path.Component) :
    leadsTo place (.parent :: rest) = leadsTo place.dropLast rest := by
  simp [leadsTo, Path.Component.walk]

@[simp] theorem leadsTo_root (place : Place) (rest : List Path.Component) :
    leadsTo place (.root :: rest) = leadsTo place rest := rfl

@[simp] theorem leadsTo_current (place : Place) (rest : List Path.Component) :
    leadsTo place (.current :: rest) = leadsTo place rest := rfl

/-- The path leads through a place, by its first components. -/
def LeadsThrough (p : Path) (place : Place) : Prop :=
  ∃ front, front <+: p.components ∧ place = leadsTo [] front

theorem node?_put_of_ne (h : place ≠ other) : (t.put place node).node? other = t.node? other := by
  cases ha : t.accepts place node with
  | true => rw [node?_put ha, if_neg h]
  | false => simp [put, ha]

theorem node?_makeAlong_of_some (h : t.node? other = some node) :
    (makeAlong made place t components).1.node? other = some node := by
  induction components generalizing made place t with
  | nil => exact h
  | cons c rest ih =>
    cases c with
    | name text =>
      rw [makeAlong]
      split
      · exact ih h
      · exact h
      · -- A directory is made only where nothing was, so not at the other place.
        rename_i hmissing
        apply ih
        have hne : place ++ [text] ≠ other := by
          rintro rfl
          cases hmissing.symm.trans h
        rw [node?_put_of_ne hne, h]
    | parent => exact ih h
    | root => exact ih h
    | current => exact ih h

/-- What is new after directories were made is a directory that the components lead through. -/
theorem node?_makeAlong_cases (h : (makeAlong made place t components).1.node? other = some node) :
    t.node? other = some node ∨
      node = .directory ∧ ∃ front, front <+: components ∧ other = leadsTo place front := by
  induction components generalizing made place t with
  | nil => exact .inl h
  | cons c rest ih =>
    -- Whatever the rest leads through, the whole leads through by one component more.
    have hcons {place' : Place} (hlead : ∀ more, leadsTo place (c :: more) = leadsTo place' more)
        (hfront : ∃ front, front <+: rest ∧ other = leadsTo place' front) :
        ∃ front, front <+: c :: rest ∧ other = leadsTo place front := by
      obtain ⟨front, hprefix, hother⟩ := hfront
      exact ⟨c :: front, List.cons_prefix_cons.2 ⟨rfl, hprefix⟩, by rw [hlead, hother]⟩
    cases c with
    | name text =>
      have hlead := leadsTo_name place text
      rw [makeAlong] at h
      split at h
      · exact (ih h).imp id (And.imp id (hcons hlead))
      · exact .inl h
      · rename_i hmissing
        rcases ih h with hthere | ⟨hnode, hfront⟩
        · -- The directory that was made just now is on the way itself.
          by_cases hother : place ++ [text] = other
          · subst hother
            cases ha : t.accepts (place ++ [text]) .directory with
            | true =>
              rw [node?_put ha, if_pos rfl] at hthere
              refine .inr ⟨(Option.some.inj hthere).symm, hcons hlead ⟨[], List.nil_prefix, ?_⟩⟩
              rw [leadsTo_nil]
            | false =>
              rw [put, dif_neg (by simp [ha]), hmissing] at hthere
              cases hthere
          · rw [node?_put_of_ne hother] at hthere
            exact .inl hthere
        · exact .inr ⟨hnode, hcons hlead hfront⟩
    | parent => exact (ih h).imp id (And.imp id (hcons (leadsTo_parent place)))
    | root => exact (ih h).imp id (And.imp id (hcons (leadsTo_root place)))
    | current => exact (ih h).imp id (And.imp id (hcons (leadsTo_current place)))

theorem accepts_directory (h : t.node? place = some .directory) (text : String) :
    t.accepts (place ++ [text]) .directory = true :=
  accepts_iff.2 ⟨by simp, by simpa using h, .inl rfl⟩

theorem node?_put_missing (hplace : t.node? place = some .directory) {text : String}
    (hmissing : t.node? (place ++ [text]) = none) :
    (t.put (place ++ [text]) .directory).node? (place ++ [text]) = some .directory ∧
      ∀ below, (t.put (place ++ [text]) .directory).node? (place ++ [text] ++ [below]) = none := by
  have hput := node?_put (accepts_directory hplace text)
  refine ⟨by rw [hput, if_pos rfl], fun below => ?_⟩
  rw [hput, if_neg (by simp)]
  -- Nothing is below what is missing.
  cases hnode : t.node? (place ++ [text] ++ [below]) with
  | none => rfl
  | some node =>
    have hheld := node?_dropLast hnode
    rw [List.dropLast_concat, hmissing] at hheld
    cases hheld

theorem node?_leadsTo_of_ok (hplace : t.node? place = some .directory)
    (h : (makeAlong made place t components).2 = .ok ()) :
    (makeAlong made place t components).1.node? (leadsTo place components) = some .directory := by
  -- Wherever the components have led so far, a directory is there.
  induction components generalizing made place t with
  | nil => simpa [makeAlong] using hplace
  | cons c rest ih =>
    cases c with
    | name text =>
      rw [makeAlong] at h ⊢
      rw [leadsTo_name]
      split at h
      · rename_i hnode
        exact ih hnode h
      · cases h
      · rename_i hmissing
        exact ih (node?_put_missing hplace hmissing).1 h
    | parent =>
      rw [leadsTo_parent]
      exact ih (node?_dropLast hplace) h
    | root => exact ih hplace h
    | current => exact ih hplace h

theorem makeAlong_ok_of_empty (hup : .parent ∉ components) (hplace : t.node? place = some .directory)
    (hempty : ∀ text, t.node? (place ++ [text]) = none) :
    (makeAlong made place t components).2 = .ok () := by
  induction components generalizing made place t with
  | nil => rfl
  | cons c rest ih =>
    obtain ⟨hc, hrest⟩ : .parent ≠ c ∧ .parent ∉ rest := by simpa using hup
    cases c with
    | name text =>
      rw [makeAlong, hempty text]
      obtain ⟨hnew, hbelow⟩ := node?_put_missing hplace (hempty text)
      exact ih hrest hnew hbelow
    | parent => exact absurd rfl hc
    | root => exact ih hrest hplace hempty
    | current => exact ih hrest hplace hempty

/-- Without going up, a failure comes before anything is made. -/
theorem makeAlong_eq_of_error {e : Failure} (hup : .parent ∉ components)
    (hplace : t.node? place = some .directory)
    (h : (makeAlong false place t components).2 = .error e) :
    (makeAlong false place t components).1 = t := by
  induction components generalizing place with
  | nil => rfl
  | cons c rest ih =>
    obtain ⟨hc, hrest⟩ : .parent ≠ c ∧ .parent ∉ rest := by simpa using hup
    cases c with
    | name text =>
      rw [makeAlong] at h ⊢
      split at h
      · rename_i hnode
        exact ih hrest hnode h
      · rfl
      · -- The new directory is empty, so the rest could have been made.
        rename_i hmissing
        obtain ⟨hnew, hbelow⟩ := node?_put_missing hplace hmissing
        have hok : (makeAlong true (place ++ [text]) (t.put (place ++ [text]) .directory) rest).2 =
            .ok () := makeAlong_ok_of_empty hrest hnew hbelow
        cases hok.symm.trans h
    | parent => exact absurd rfl hc
    | root => exact ih hrest hplace h
    | current => exact ih hrest hplace h

end MachineFleet.Files.Tree
