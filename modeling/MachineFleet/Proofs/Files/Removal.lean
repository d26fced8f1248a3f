import MachineFleet.Proofs.Data.Outcome
import MachineFleet.Proofs.Files.Making
import Mathlib.Data.List.Induction

/-!
Where paths lead in a tree of files, and what the removal of a directory does: nothing changes but
what is at or below the place that the path leads to. For a path that never goes up the outcome is
told in full.
-/
namespace MachineFleet.Files.Tree

variable {t : Tree} {p : Path} {place other : Place} {node : Node}

theorem node?_eq_none (hother : other ≠ []) (h : ∀ e ∈ t.entries, e.1 ≠ other) :
    t.node? other = none := by
  rw [node?, nodeAt?, if_neg hother, Option.map_eq_none_iff, List.find?_eq_none]
  intro e he
  simpa using h e he

theorem node?_erase (h : ¬ place <+: other) : (t.erase place).node? other = t.node? other :=
  @nodeAt?_filter _ (fun p => !place.isPrefixOf p) _ (by
    simpa [← List.isPrefixOf_iff_prefix] using h)

theorem node?_erase_below (hplace : place ≠ []) (h : place <+: other) :
    (t.erase place).node? other = none := by
  have hother : other ≠ [] := by
    rintro rfl
    exact hplace (List.prefix_nil.1 h)
  apply node?_eq_none hother
  rintro e he rfl
  obtain ⟨-, hkept⟩ := List.mem_filter.1 he
  simp [List.isPrefixOf_iff_prefix.2 h] at hkept

theorem node?_clear_below (h : place <+: other) (hne : other ≠ place) :
    (t.clear place).node? other = none := by
  have hother : other ≠ [] := by
    rintro rfl
    exact hne (List.prefix_nil.1 h).symm
  apply node?_eq_none hother
  rintro e he rfl
  obtain ⟨-, hkept⟩ := List.mem_filter.1 he
  simp [List.isPrefixOf_iff_prefix.2 h, hne] at hkept

theorem node?_clear (h : place <+: other → other = place) :
    (t.clear place).node? other = t.node? other := by
  apply @nodeAt?_filter _ (fun p => !(place.isPrefixOf p && p != place))
  cases hp : place.isPrefixOf other with
  | false => rfl
  | true => simp [h (List.isPrefixOf_iff_prefix.1 hp)]

def IsHeld (t : Tree) (place : Place) : Prop :=
  ∀ above, above <+: place → above ≠ place → t.node? above = some .directory

theorem isHeld_nil (t : Tree) : t.IsHeld [] := by
  intro above habove hne
  exact absurd (List.prefix_nil.1 habove) hne

theorem isHeld_concat (hheld : t.IsHeld place) (h : t.node? place = some .directory)
    (text : String) : t.IsHeld (place ++ [text]) := by
  intro above habove hne
  rcases List.prefix_concat_iff.1 habove with rfl | habove
  · exact absurd rfl hne
  · by_cases heq : above = place
    · rw [heq, h]
    · exact hheld above habove heq

theorem isHeld_of_node? (h : t.node? place = some node) : t.IsHeld place := by
  induction place using List.reverseRecOn generalizing node with
  | nil => exact isHeld_nil t
  | append_singleton front text ih =>
    have hfront : t.node? front = some .directory := by
      simpa using node?_dropLast h
    exact isHeld_concat (ih hfront) hfront text

theorem node?_eq_none_below (hmissing : t.node? place = none) (h : place <+: other) :
    t.node? other = none := by
  cases hnode : t.node? other with
  | none => rfl
  | some node =>
    by_cases heq : place = other
    · cases hmissing.symm.trans (heq ▸ hnode)
    · cases (isHeld_of_node? hnode place h heq).symm.trans hmissing

theorem leadsTo_append (place : Place) (first rest : List Path.Component) :
    leadsTo place (first ++ rest) = leadsTo (leadsTo place first) rest := by
  simp [leadsTo]

theorem resolve_eq_leadsTo (p : Path) : p.resolve = leadsTo [] p.components := rfl

theorem resolve_eq_leadsTo_pieces (p : Path) :
    p.resolve = leadsTo [] ((Path.pieces p.toList).filterMap Path.component?) := by
  rw [resolve_eq_leadsTo, Path.components, leadsTo_append]
  congr 1
  split
  · rfl
  · split <;> rfl

theorem enter_of_directory (h : t.node? place = some .directory) (piece : List Char) :
    t.enter place piece = .ok (leadsTo place (Path.component? piece).toList) := by
  unfold enter Path.component?
  rw [h]
  dsimp only
  split
  · simp
  · split <;> simp

theorem enter_eq_ok {piece : List Char} {next : Place} (h : t.enter place piece = .ok next) :
    next = leadsTo place (Path.component? piece).toList := by
  cases hnode : t.node? place with
  | none => simp [enter, hnode] at h
  | some node =>
    cases node with
    | file contents => simp [enter, hnode] at h
    | directory =>
      rw [enter_of_directory hnode] at h
      exact (Except.ok.inj h).symm

theorem filterMap_component?_cons (piece : List Char) (rest : List (List Char)) :
    (piece :: rest).filterMap Path.component? =
      (Path.component? piece).toList ++ rest.filterMap Path.component? := by
  rw [List.filterMap_cons]
  cases Path.component? piece <;> rfl

/-- Without links a path leads where its components say. -/
theorem resolve_of_locate (h : t.locate p = .ok place) : place = p.resolve := by
  have hwalk (pieces : List (List Char)) (from_ place : Place)
      (h : pieces.foldlM t.enter from_ = .ok place) :
      place = leadsTo from_ (pieces.filterMap Path.component?) := by
    induction pieces generalizing from_ with
    | nil =>
      cases h
      exact (leadsTo_nil _).symm
    | cons piece rest ih =>
      rw [List.foldlM_cons] at h
      cases hnext : t.enter from_ piece with
      | error e =>
        rw [hnext] at h
        cases h
      | ok next =>
        rw [hnext] at h
        rw [ih next h, enter_eq_ok hnext, filterMap_component?_cons, leadsTo_append]
  unfold locate at h
  split at h
  · cases h
  · rw [hwalk _ _ _ h, resolve_eq_leadsTo_pieces]

theorem locate_eq_ok (hend : endOfPath ∉ p.toList)
    (h : ∀ place, LeadsThrough p place → t.node? place = some .directory) :
    t.locate p = .ok p.resolve := by
  have hwalk (pieces : List (List Char)) (from_ : Place)
      (h : ∀ front, front <+: pieces.filterMap Path.component? →
        t.node? (leadsTo from_ front) = some .directory) :
      pieces.foldlM t.enter from_ = .ok (leadsTo from_ (pieces.filterMap Path.component?)) := by
    induction pieces generalizing from_ with
    | nil => simp [pure, Except.pure]
    | cons piece rest ih =>
      have hfrom : t.node? from_ = some .directory := by simpa using h [] List.nil_prefix
      rw [List.foldlM_cons, enter_of_directory hfrom, filterMap_component?_cons, leadsTo_append]
      apply ih
      intro front hfront
      rw [← leadsTo_append]
      apply h
      rw [filterMap_component?_cons]
      exact (List.prefix_append_right_inj _).2 hfront
  rw [locate, if_neg (by simpa using hend), resolve_eq_leadsTo_pieces]
  apply hwalk
  intro front hfront
  let start := if p.isAbsolute then [Path.Component.root]
    else if (Path.pieces p.toList).head? = some ['.'] then [Path.Component.current] else []
  have hstart : leadsTo [] start = [] := by
    unfold start
    split
    · rfl
    · split <;> rfl
  apply h
  refine ⟨start ++ front, (List.prefix_append_right_inj _).2 hfront, ?_⟩
  rw [leadsTo_append, hstart]

theorem find_eq_ok (h : t.find p = .ok (place, node)) :
    place = p.resolve ∧ t.node? p.resolve = some node := by
  obtain ⟨found, hlocate, h⟩ := bind_eq_ok.1 h
  rw [← resolve_of_locate hlocate]
  split at h
  · rename_i hnode
    cases h
    exact ⟨rfl, hnode⟩
  · cases h

/-- Where a walk along the names of a path ends early: at the first place on its way that is no
directory. -/
structure StopsAt (t : Tree) (stop : Place) (e : Failure) : Prop where
  held : t.IsHeld stop
  why : t.node? stop = none ∧ e = .notFound ∨
    (∃ contents, t.node? stop = some (.file contents)) ∧ e = .notADirectory

/-- One piece further a walk that does not go up is at the same place or below it, if it does not
stop. -/
theorem enter_cases {piece : List Char} (hup : piece ≠ ['.', '.']) (hheld : t.IsHeld place) :
    (t.node? place = some .directory ∧
      t.enter place piece = .ok (place ++ ((Path.component? piece).bind (·.name?)).toList)) ∨
    ∃ e, t.StopsAt place e ∧ t.enter place piece = .error e := by
  cases hnode : t.node? place with
  | none => exact .inr ⟨.notFound, ⟨hheld, .inl ⟨hnode, rfl⟩⟩, by simp [enter, hnode]⟩
  | some node =>
    cases node with
    | file contents =>
      refine .inr ⟨.notADirectory, ⟨hheld, .inr ⟨⟨contents, hnode⟩, rfl⟩⟩, ?_⟩
      simp [enter, hnode]
    | directory =>
      refine .inl ⟨rfl, ?_⟩
      rw [enter_of_directory hnode]
      cases hc : Path.component? piece with
      | none => simp
      | some c =>
        obtain ⟨text, rfl⟩ := Path.exists_name_of_component? hup hc
        simp [Path.Component.name?]

theorem locate_cases (hup : .parent ∉ p.components) (hend : endOfPath ∉ p.toList) :
    (t.locate p = .ok p.resolve ∧ t.IsHeld p.resolve) ∨
      ∃ stop e, stop <+: p.resolve ∧ t.StopsAt stop e ∧ t.locate p = .error e := by
  have hwalk (pieces : List (List Char)) (hup : ['.', '.'] ∉ pieces) (from_ : Place)
      (hheld : t.IsHeld from_) :
      let goal := from_ ++ (pieces.filterMap Path.component?).filterMap Path.Component.name?
      (pieces.foldlM t.enter from_ = .ok goal ∧ t.IsHeld goal) ∨
        ∃ stop e, stop <+: goal ∧ t.StopsAt stop e ∧ pieces.foldlM t.enter from_ = .error e := by
    induction pieces generalizing from_ with
    | nil => exact .inl ⟨by simp [pure, Except.pure], by simpa using hheld⟩
    | cons piece rest ih =>
      obtain ⟨hpiece, hrest⟩ : ['.', '.'] ≠ piece ∧ ['.', '.'] ∉ rest := by simpa using hup
      intro goal
      have hgoal : goal = from_ ++ ((Path.component? piece).bind (·.name?)).toList ++
          (rest.filterMap Path.component?).filterMap Path.Component.name? := by
        simp only [goal, List.filterMap_cons]
        cases Path.component? piece with
        | none => simp
        | some c => cases hname : c.name? <;> simp [hname]
      rw [List.foldlM_cons]
      rcases enter_cases (Ne.symm hpiece) hheld with ⟨hdirectory, henter⟩ | ⟨e, hstop, henter⟩
      · -- The walk goes on from a place that is held as well.
        rw [henter, hgoal]
        apply ih hrest
        cases (Path.component? piece).bind (·.name?) with
        | none => simpa using hheld
        | some text => exact isHeld_concat hheld hdirectory text
      · rw [henter, hgoal, List.append_assoc]
        exact .inr ⟨from_, e, List.prefix_append .., hstop, rfl⟩
  have hpieces : ['.', '.'] ∉ Path.pieces p.toList :=
    fun h => hup (Path.parent_mem_components_iff.2 h)
  have h := hwalk _ hpieces [] (isHeld_nil t)
  rw [locate, if_neg (by simpa using hend), Path.resolve_eq_pieces hup]
  simpa using h

theorem node?_removeDirectory (h : ¬ p.resolve <+: other) :
    (t.removeDirectory p).1.node? other = t.node? other := by
  unfold removeDirectory
  split
  · rfl
  · rfl
  · rename_i place hfind
    obtain ⟨rfl, -⟩ := find_eq_ok hfind
    have hclear : (t.clear p.resolve).node? other = t.node? other :=
      node?_clear fun hbelow => absurd hbelow h
    -- Only a path that ends in a name takes its own place away, any other just what is below.
    split
    · exact hclear
    · repeat' split
      any_goals exact hclear
      exact node?_erase h

theorem node?_removeDirectory_below (hfind : t.find p = .ok (place, .directory))
    (h : place <+: other) (hne : other ≠ place) : (t.removeDirectory p).1.node? other = none := by
  have hclear : (t.clear place).node? other = none := node?_clear_below h hne
  rw [removeDirectory, hfind]
  dsimp only
  split
  · exact hclear
  · split
    · exact hclear
    · split
      · exact hclear
      · split
        · exact hclear
        · rename_i hroot
          exact node?_erase_below hroot h

theorem find_of_endOfPath (hend : endOfPath ∈ p.toList) :
    t.find p = .error (.other "file name contained an unexpected NUL byte") := by
  rw [find, locate, if_pos (by simpa using hend)]
  rfl

theorem removeDirectory_of_endOfPath (hend : endOfPath ∈ p.toList) :
    ∃ e, t.removeDirectory p = (t, .error e) ∧ e ≠ .notFound := by
  refine ⟨.other "file name contained an unexpected NUL byte", ?_, nofun⟩
  rw [removeDirectory, find_of_endOfPath hend]

/-- The ways in which the removal of a directory ends, for a path that never goes up. -/
inductive Removal (t : Tree) (p : Path) : Tree × Except Failure Unit → Prop where
  | removed (hthere : t.node? p.resolve = some .directory) (hlast : lastPiece p ≠ ['.']) :
      Removal t p (t.erase p.resolve, .ok ())
  | emptied (hthere : t.node? p.resolve = some .directory) (hlast : lastPiece p = ['.']) :
      Removal t p (t.clear p.resolve, .error .invalidArgument)
  | missing (hmissing : t.node? p.resolve = none)
      (hfree : ∀ above, above <+: p.resolve → ∀ contents,
        t.node? above ≠ some (.file contents)) : Removal t p (t, .error .notFound)
  | blocked {above : Place} {contents : List UInt8} (habove : above <+: p.resolve)
      (hfile : t.node? above = some (.file contents)) : Removal t p (t, .error .notADirectory)

theorem not_file_of_stopsAt {stop above : Place} (hstop : t.StopsAt stop .notFound)
    (hway : stop <+: place) (habove : above <+: place) (contents : List UInt8) :
    t.node? above ≠ some (.file contents) := by
  obtain ⟨hmissing, -⟩ := hstop.why.resolve_right fun h => nomatch h.2
  intro hfile
  -- Of two places on one way one holds the other.
  rcases List.prefix_or_prefix_of_prefix habove hway with hbefore | hafter
  · by_cases heq : above = stop
    · rw [heq, hmissing] at hfile
      cases hfile
    · cases (hstop.held above hbefore heq).symm.trans hfile
  · cases (node?_eq_none_below hmissing hafter).symm.trans hfile

/-- For a path that never goes up, a directory that is emptied is still reached. -/
theorem locate_clear (hup : .parent ∉ p.components) (hend : endOfPath ∉ p.toList)
    (h : t.node? p.resolve = some .directory) :
    (t.clear p.resolve).locate p = .ok p.resolve := by
  rcases locate_cases (t := t.clear p.resolve) hup hend with ⟨hlocate, -⟩ | ⟨stop, e, hstop, hat, -⟩
  · exact hlocate
  · -- All on the way is a directory as before.
    have hsame : (t.clear p.resolve).node? stop = t.node? stop :=
      node?_clear fun hbelow => hstop.eq_of_length (Nat.le_antisymm hstop.length_le hbelow.length_le)
    have hdirectory : t.node? stop = some .directory := by
      by_cases heq : stop = p.resolve
      · rw [heq, h]
      · exact isHeld_of_node? h stop hstop heq
    rw [← hsame] at hdirectory
    rcases hat.why with ⟨hmissing, -⟩ | ⟨⟨contents, hfile⟩, -⟩
    · cases hdirectory.symm.trans hmissing
    · cases hdirectory.symm.trans hfile

theorem lastPiece_ne_of_not_up (hup : .parent ∉ p.components) : lastPiece p ≠ ['.', '.'] := by
  intro hlast
  unfold lastPiece at hlast
  cases hpieces : ((Path.pieces p.toList).filter (· != [])).getLast? with
  | none =>
    rw [hpieces] at hlast
    cases hlast
  | some piece =>
    rw [hpieces] at hlast
    have hmem := List.mem_of_getLast? hpieces
    rw [show piece = ['.', '.'] from hlast] at hmem
    exact hup (Path.parent_mem_components_iff.2 (List.mem_filter.1 hmem).1)

/-- Unless it leads to the root, a path that never goes up removes its directory in one of the
ways. -/
theorem removal (hup : .parent ∉ p.components) (hroot : p.resolve ≠ [])
    (hend : endOfPath ∉ p.toList) : Removal t p (t.removeDirectory p) := by
  rcases locate_cases (t := t) hup hend with ⟨hlocate, hheld⟩ | ⟨stop, e, hstop, hat, hlocate⟩
  · cases hnode : t.node? p.resolve with
    | none =>
      have hfind : t.find p = .error .notFound := by
        simp only [find, hlocate, bind, Except.bind, hnode]
        rfl
      have hat : t.StopsAt p.resolve .notFound := ⟨hheld, .inl ⟨hnode, rfl⟩⟩
      rw [removeDirectory, hfind]
      exact .missing hnode fun above habove => not_file_of_stopsAt hat List.prefix_rfl habove
    | some node =>
      have hfind : t.find p = .ok (p.resolve, node) := by
        simp only [find, hlocate, bind, Except.bind, hnode]
        rfl
      cases node with
      | file contents =>
        rw [removeDirectory, hfind]
        exact .blocked List.prefix_rfl hnode
      | directory =>
        rw [removeDirectory, hfind]
        dsimp only
        rw [locate_clear hup hend hnode]
        dsimp only
        rw [if_neg (lastPiece_ne_of_not_up hup), if_neg hroot]
        split
        · rename_i hlast
          exact .emptied hnode hlast
        · rename_i hlast
          exact .removed hnode hlast
  · have hfind : t.find p = .error e := by
      rw [find, hlocate]
      rfl
    rw [removeDirectory, hfind]
    rcases hat.why with ⟨hmissing, rfl⟩ | ⟨⟨contents, hfile⟩, rfl⟩
    · exact .missing (node?_eq_none_below hmissing hstop) fun above habove =>
        not_file_of_stopsAt hat hstop habove
    · exact .blocked hstop hfile

end MachineFleet.Files.Tree
