import MachineFleet.Machine.Jail
import MachineFleet.Proofs.Files.Removal

namespace MachineFleet

open Files (Tree Place)

variable {t t' : Tree} {root : Path}

/-- Refused are relative paths, paths that go up and those that lead to the root of the files. -/
theorem Path.isRefusedAsRoot_iff : root.isRefusedAsRoot = true ↔
    root.isAbsolute = false ∨ .parent ∈ root.components ∨ root.resolve = [] := by
  by_cases habs : root.isAbsolute = true
  · by_cases hup : .parent ∈ root.components
    · simp [isRefusedAsRoot, hup]
    · simp [isRefusedAsRoot, habs, hup, hasNoParent_iff habs hup]
  · simp [isRefusedAsRoot, habs]

/-- A path that is not refused and that the operating system can be asked for. -/
structure Path.IsRemovable (root : Path) : Prop where
  allowed : root.isRefusedAsRoot = false
  readable : Tree.endOfPath ∉ root.toList

namespace Path.IsRemovable

theorem not_up (h : root.IsRemovable) : .parent ∉ root.components ∧ root.resolve ≠ [] := by
  have hnot : ¬ root.isRefusedAsRoot = true := by simp [h.allowed]
  rw [isRefusedAsRoot_iff, not_or, not_or] at hnot
  exact hnot.2

theorem cases (h : root.IsRemovable) (t : Tree) :
    (t.node? root.resolve = some .directory ∧ Tree.lastPiece root ≠ ['.'] ∧
      removeIsolatedRoot t root = (t.erase root.resolve, .ok ())) ∨
    (t.node? root.resolve = some .directory ∧ Tree.lastPiece root = ['.'] ∧
      removeIsolatedRoot t root = (t.clear root.resolve, .error (.io .invalidArgument))) ∨
    (t.node? root.resolve = none ∧
      (∀ above, above <+: root.resolve → ∀ contents, t.node? above ≠ some (.file contents)) ∧
      removeIsolatedRoot t root = (t, .ok ())) ∨
    ∃ above contents, above <+: root.resolve ∧ t.node? above = some (.file contents) ∧
      removeIsolatedRoot t root = (t, .error (.io .notADirectory)) := by
  obtain ⟨hup, hroot⟩ := h.not_up
  have hremoval := Tree.removal (t := t) hup hroot h.readable
  rw [removeIsolatedRoot, if_neg (by simp [h.allowed])]
  generalize t.removeDirectory root = outcome at hremoval ⊢
  cases hremoval with
  | removed hthere hlast => exact .inl ⟨hthere, hlast, rfl⟩
  | emptied hthere hlast => exact .inr (.inl ⟨hthere, hlast, rfl⟩)
  | missing hmissing hfree => exact .inr (.inr (.inl ⟨hmissing, hfree, rfl⟩))
  | blocked habove hfile => exact .inr (.inr (.inr ⟨_, _, habove, hfile, rfl⟩))

theorem eq_of_missing (h : root.IsRemovable) (hmissing : t.node? root.resolve = none)
    (hfree : ∀ above, above <+: root.resolve → ∀ contents,
      t.node? above ≠ some (.file contents)) : removeIsolatedRoot t root = (t, .ok ()) := by
  rcases h.cases t with ⟨hthere, -⟩ | ⟨hthere, -⟩ | ⟨-, -, heq⟩ | ⟨above, contents, habove, hfile, -⟩
  · cases hthere.symm.trans hmissing
  · cases hthere.symm.trans hmissing
  · exact heq
  · exact absurd hfile (hfree above habove contents)

end Path.IsRemovable

/-- What the removal of a root has done that was not refused: things at or below the root may be
gone, and all are if it went well. -/
structure KeepsToRoot (t : Tree) (root : Path) (t' : Tree) (result : Except Error Unit) : Prop where
  taken (place : Place) : t'.node? place = t.node? place ∨
    root.resolve <+: place ∧ t'.node? place = none
  gone : result = .ok () → ∀ place, root.resolve <+: place → t'.node? place = none
  again : result = .ok () → removeIsolatedRoot t' root = (t', .ok ())
  blocked (above : Place) (contents : List UInt8) : above <+: root.resolve →
    t.node? above = some (.file contents) → t' = t ∧ ∃ e, result = .error e
  failed : result ≠ .ok () → Tree.lastPiece root ≠ ['.'] → t' = t
  ok_iff : result = .ok () ↔ Tree.endOfPath ∉ root.toList ∧
    (∀ above, above <+: root.resolve → ∀ contents, t.node? above ≠ some (.file contents)) ∧
    (t.node? root.resolve = none ∨ Tree.lastPiece root ≠ ['.'])

theorem not_file_of_directory {place : Place} (h : t.node? place = some .directory) (above : Place)
    (habove : above <+: place) (contents : List UInt8) : t.node? above ≠ some (.file contents) := by
  have hdirectory : t.node? above = some .directory := by
    by_cases heq : above = place
    · rw [heq, h]
    · exact Tree.isHeld_of_node? h above habove heq
  rw [hdirectory]
  exact nofun

theorem KeepsToRoot.removed (h : root.IsRemovable) (hthere : t.node? root.resolve = some .directory)
    (hlast : Tree.lastPiece root ≠ ['.']) : KeepsToRoot t root (t.erase root.resolve) (.ok ()) := by
  have hroot := h.not_up.2
  have hfree := not_file_of_directory hthere
  have hgone (place : Place) (hplace : root.resolve <+: place) :
      (t.erase root.resolve).node? place = none := Tree.node?_erase_below hroot hplace
  have htaken (place : Place) : (t.erase root.resolve).node? place = t.node? place ∨
      root.resolve <+: place ∧ (t.erase root.resolve).node? place = none := by
    by_cases hplace : root.resolve <+: place
    · exact .inr ⟨hplace, hgone place hplace⟩
    · exact .inl (Tree.node?_erase hplace)
  refine ⟨htaken, fun _ => hgone, fun _ => ?_, ?_, nofun, ?_⟩
  · -- What is left on the way was there before, so it is no file.
    apply h.eq_of_missing (hgone _ List.prefix_rfl)
    intro above habove contents
    rcases htaken above with heq | ⟨-, heq⟩
    · rw [heq]
      exact hfree above habove contents
    · rw [heq]
      exact nofun
  · intro above contents habove hfile
    exact absurd hfile (hfree above habove contents)
  · simp only [true_iff]
    exact ⟨h.readable, hfree, .inr hlast⟩

theorem KeepsToRoot.emptied (hthere : t.node? root.resolve = some .directory)
    (hlast : Tree.lastPiece root = ['.']) :
    KeepsToRoot t root (t.clear root.resolve) (.error (.io .invalidArgument)) := by
  refine ⟨?_, nofun, nofun, ?_, fun _ hne => absurd hlast hne, ?_⟩
  · intro place
    by_cases hplace : root.resolve <+: place ∧ place ≠ root.resolve
    · exact .inr ⟨hplace.1, Tree.node?_clear_below hplace.1 hplace.2⟩
    · apply Or.inl
      apply Tree.node?_clear
      intro hbelow
      by_contra hne
      exact hplace ⟨hbelow, hne⟩
  · intro above contents habove hfile
    exact absurd hfile (not_file_of_directory hthere above habove contents)
  · simp [hthere, hlast]

theorem KeepsToRoot.unchanged {e : Error}
    (hwhy : Tree.endOfPath ∉ root.toList →
      ∃ above contents, above <+: root.resolve ∧ t.node? above = some (.file contents)) :
    KeepsToRoot t root t (.error e) := by
  refine ⟨fun _ => .inl rfl, nofun, nofun, fun _ _ _ _ => ⟨rfl, e, rfl⟩, fun _ _ => rfl, ?_⟩
  constructor
  · exact nofun
  · rintro ⟨hend, hfree, -⟩
    obtain ⟨above, contents, habove, hfile⟩ := hwhy hend
    exact absurd hfile (hfree above habove contents)

/-- A relative path, one that goes up and one that leads to the root of the files are refused. Any
other removes at most what is at or below it; if that goes well nothing of it is left, and nothing
is wrong with doing it again. It goes well unless a file is at the path or on its way, a directory
there is named with a dot at its end, or the path cannot be asked for. -/
theorem removal_keeps_to_root (t : Tree) (root : Path) :
    (root.isAbsolute = false ∨ .parent ∈ root.components ∨ root.resolve = [] →
      removeIsolatedRoot t root = (t, .error (.invalidArgument (.rootRefused root)))) ∧
    (root.isAbsolute = true → .parent ∉ root.components → root.resolve ≠ [] →
      KeepsToRoot t root (removeIsolatedRoot t root).1 (removeIsolatedRoot t root).2) := by
  constructor
  · intro h
    rw [removeIsolatedRoot, if_pos (Path.isRefusedAsRoot_iff.2 h)]
  · intro habs hup hroot
    have hallowed : root.isRefusedAsRoot = false := by
      rw [Bool.eq_false_iff, Ne, Path.isRefusedAsRoot_iff]
      simp [habs, hup, hroot]
    by_cases hend : Tree.endOfPath ∈ root.toList
    · obtain ⟨e, heq, he⟩ := Tree.removeDirectory_of_endOfPath (t := t) hend
      have hio : removeIsolatedRoot t root = (t, .error (.io e)) := by
        rw [removeIsolatedRoot, if_neg (by simp [hallowed]), heq]
        cases e with
        | notFound => exact absurd rfl he
        | _ => rfl
      rw [hio]
      exact .unchanged fun hnot => absurd hend hnot
    · have h : root.IsRemovable := ⟨hallowed, hend⟩
      rcases h.cases t with ⟨hthere, hlast, heq⟩ | ⟨hthere, hlast, heq⟩ | ⟨hmissing, hfree, heq⟩ |
        ⟨above, contents, habove, hfile, heq⟩
      · rw [heq]
        exact .removed h hthere hlast
      · rw [heq]
        exact .emptied hthere hlast
      · rw [heq]
        exact {
          taken := fun _ => .inl rfl
          gone := fun _ place hplace => Tree.node?_eq_none_below hmissing hplace
          again := fun _ => heq
          blocked := fun above contents habove hfile =>
            absurd hfile (hfree above habove contents)
          failed := nofun
          ok_iff := by
            simp only [true_iff]
            exact ⟨hend, hfree, .inl hmissing⟩ }
      · rw [heq]
        exact .unchanged fun _ => ⟨above, contents, habove, hfile⟩

def jailAndFile : Tree :=
  (((Tree.empty.put ["srv"] .directory).put ["srv", "jail"] .directory).put
    ["srv", "jail", "tun"] (.file [])).put ["srv", "keep"] (.file [7])

/-- Written in a roundabout way the jail still goes, and the file beside it stays. -/
theorem jail_goes_and_file_stays :
    let root : Path := "/srv//./jail/"
    (root.isAbsolute = true ∧ .parent ∉ root.components ∧ root.resolve ≠ []) ∧
      (∀ place, ["srv", "jail"] <+: place →
        (removeIsolatedRoot jailAndFile root).1.node? place = none) ∧
      (removeIsolatedRoot jailAndFile root).1.node? ["srv", "keep"] = some (.file [7]) ∧
      (removeIsolatedRoot (removeIsolatedRoot jailAndFile root).1 root).2 = .ok () := by
  intro root
  have habs : root.isAbsolute = true := by decide +kernel
  have hup : .parent ∉ root.components := by decide +kernel
  have hplace : root.resolve = ["srv", "jail"] := by decide +kernel
  have hroot : root.resolve ≠ [] := by simp [hplace]
  have hok : (removeIsolatedRoot jailAndFile root).2 = .ok () := by decide +kernel
  have hkeeps := (removal_keeps_to_root jailAndFile root).2 habs hup hroot
  refine ⟨⟨habs, hup, hroot⟩, ?_, ?_, ?_⟩
  · rw [← hplace]
    exact hkeeps.gone hok
  · have hbeside : ¬ root.resolve <+: ["srv", "keep"] := by
      rw [hplace]
      decide
    rcases hkeeps.taken ["srv", "keep"] with hsame | ⟨hwithin, -⟩
    · rw [hsame]
      decide +kernel
    · exact absurd hwithin hbeside
  · rw [hkeeps.again hok]

end MachineFleet
