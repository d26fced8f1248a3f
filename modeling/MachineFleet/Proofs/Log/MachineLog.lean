import MachineFleet.Log.MachineLog
import MachineFleet.Proofs.Data.Outcome
import MachineFleet.Proofs.Files.Tree
import Mathlib.Data.List.Chain

/-!
What a log keeps. The pieces that were written stand in volumes, one file each; of these the last
is the log file and the one before it the older file, and all earlier ones are gone.
-/
namespace MachineFleet.MachineLog

open Files

variable {log : MachineLog} {t before : Tree} {line contents : List UInt8}
  {chunks : List (List UInt8)}

@[simp] theorem oldPlace_ne (place : Place) : oldPlace place ≠ place := by
  intro heq
  have hlast : ((oldPlace place).getLast?.getD "").length = (place.getLast?.getD "").length := by
    rw [heq]
  simp [oldPlace] at hlast

@[simp] theorem ne_oldPlace (place : Place) : place ≠ oldPlace place :=
  (oldPlace_ne place).symm

@[simp] theorem oldPlace_ne_nil (place : Place) : oldPlace place ≠ [] := by
  simp [oldPlace]

@[simp] theorem dropLast_oldPlace (place : Place) : (oldPlace place).dropLast = place.dropLast := by
  simp [oldPlace]

@[simp] theorem append_place : (log.append t line).1.place = log.place := rfl

@[simp] theorem append_maxSize : (log.append t line).1.maxSize = log.maxSize := rfl

@[simp] theorem append_size : (log.append t line).1.size = log.size + line.length := rfl

@[simp] theorem write_place : (log.write t line).1.place = log.place := by
  unfold write
  split
  · split <;> rfl
  · rfl

@[simp] theorem write_maxSize : (log.write t line).1.maxSize = log.maxSize := by
  unfold write
  split
  · split <;> rfl
  · rfl

theorem writeAll_concat (chunks : List (List UInt8)) (line : List UInt8) :
    log.writeAll t (chunks ++ [line]) =
      (log.writeAll t chunks).1.write (log.writeAll t chunks).2 line := by
  induction chunks generalizing log t with
  | nil => rfl
  | cons chunk rest ih => exact ih

@[simp] theorem writeAll_place : (log.writeAll t chunks).1.place = log.place := by
  induction chunks using List.reverseRecOn with
  | nil => rfl
  | append_singleton chunks line ih => rw [writeAll_concat, write_place, ih]

@[simp] theorem writeAll_maxSize : (log.writeAll t chunks).1.maxSize = log.maxSize := by
  induction chunks using List.reverseRecOn with
  | nil => rfl
  | append_singleton chunks line ih => rw [writeAll_concat, write_maxSize, ih]

theorem contents?_makePlace (t : Tree) (path : Path) (other : Place) :
    (makePlace t path).1.contents? other = t.contents? other := by
  unfold makePlace
  split
  · exact Tree.contents?_makePath t _ other
  · rfl

theorem directories_of_openAt {path : Path} {maxSize : Option Nat}
    (h : openAt before path maxSize = .ok (log, t)) :
    (makePlace before path).1.openFile path = .ok (log.place, t) ∧
      log.maxSize = maxSize.getD defaultMaxSize ∧
        log.size = ((t.contents? log.place).getD []).length := by
  unfold openAt at h
  obtain ⟨-, -, h⟩ := bind_eq_ok.1 (mapError_eq_ok.1 h)
  obtain ⟨opened, hopen, h⟩ := bind_eq_ok.1 h
  cases h
  exact ⟨hopen, rfl, rfl⟩

theorem openAt_cases {path : Path} {maxSize : Option Nat}
    (h : openAt before path maxSize = .ok (log, t)) :
    t.contents? log.place = some ((before.contents? log.place).getD []) ∧
      log.maxSize = maxSize.getD defaultMaxSize ∧
      log.size = ((before.contents? log.place).getD []).length ∧
        ∀ other, other ≠ log.place → t.contents? other = before.contents? other := by
  obtain ⟨hopen, hmax, hsize⟩ := directories_of_openAt h
  obtain ⟨hfile, hother⟩ := Tree.openFile_cases hopen
  rw [contents?_makePlace] at hfile
  refine ⟨hfile, hmax, by rw [hsize, hfile, Option.getD_some], fun other hne => ?_⟩
  rw [Tree.contents?_of_node? (hother other hne), contents?_makePlace]

theorem append_frame (log : MachineLog) (line : List UInt8)
    (h : t.contents? log.place = some contents) (other : Place) :
    (log.append t line).2.node? other =
      if log.place = other then some (.file (contents ++ line)) else t.node? other :=
  Tree.node?_append h line other

theorem write_append
    (h : log.isFull line = false ∨ t.node? (oldPlace log.place) = some .directory) :
    log.write t line = log.append t line := by
  rcases h with h | h
  · rw [write, if_neg (by simp [h])]
  · have hblocked : log.rotate? t = none := by
      rw [rotate?, h]
    rw [write, hblocked]
    split <;> rfl

/-- Otherwise the file takes the place of the older one, and the line is alone in the new one. -/
theorem write_rotate (hfull : log.isFull line = true)
    (hold : t.node? (oldPlace log.place) ≠ some .directory)
    (h : t.contents? log.place = some contents) :
    (log.write t line).1.size = line.length ∧ ∀ other,
      (log.write t line).2.node? other =
        if log.place = other then some (.file line)
        else if oldPlace log.place = other then some (.file contents) else t.node? other := by
  have hdirectory := Tree.node?_dropLast (Tree.node?_of_contents? h)
  have haccepts : t.accepts (oldPlace log.place) (.file contents) = true :=
    Tree.accepts_iff.2 ⟨by simp, by simpa using hdirectory, .inr hold⟩
  have hmoved := Tree.node?_put haccepts
  -- The log file itself is still there, so that it can be emptied in its place.
  have hkept :
      (t.put (oldPlace log.place) (.file contents)).contents? log.place = some contents := by
    rw [Tree.contents?_of_node? ((hmoved _).trans (if_neg (oldPlace_ne _))), h]
  have hfresh := Tree.node?_put (Tree.accepts_file hkept [])
  have hrotate : log.rotate? t =
      some ((t.put (oldPlace log.place) (.file contents)).put log.place (.file [])) := by
    simp [rotate?, h]
  rw [write, if_pos hfull, hrotate]
  refine ⟨Nat.zero_add _, fun other => ?_⟩
  have hempty := Tree.contents?_file ((hfresh log.place).trans (if_pos rfl))
  rw [append_frame { log with size := 0 } line hempty, hfresh, hmoved]
  split <;> rfl

variable {maxSize : Nat} {pieces : List (List UInt8)} {past : List (List (List UInt8))}
  {current : List (List UInt8)}

/-- The next volume is begun with a piece that did not fit into the one before it. -/
def Overflows (maxSize : Nat) (volume next : List (List UInt8)) : Prop :=
  ∃ piece rest, next = piece :: rest ∧ volume.flatten ≠ [] ∧
    maxSize < volume.flatten.length + piece.length

/-- Pieces in volumes of a size: each is whole and in its order, and none is in a volume that it
does not fit into, unless it is alone there. -/
structure Volumes (maxSize : Nat) (pieces : List (List UInt8))
    (volumes : List (List (List UInt8))) : Prop where
  flatten_eq : volumes.flatten = pieces
  overflows : volumes.IsChain (Overflows maxSize)
  fits : ∀ volume ∈ volumes, ∀ front piece rest, volume = front ++ piece :: rest →
    front.flatten = [] ∨ front.flatten.length + piece.length ≤ maxSize

theorem Volumes.concat_piece (h : Volumes maxSize pieces (past ++ [current])) (hne : current ≠ [])
    (hfits : current.flatten = [] ∨ current.flatten.length + line.length ≤ maxSize) :
    Volumes maxSize (pieces ++ [line]) (past ++ [current ++ [line]]) where
  flatten_eq := by
    rw [← h.flatten_eq]
    simp
  overflows := by
    refine List.isChain_append.2 ⟨h.overflows.left_of_append, .singleton _, ?_⟩
    rintro volume hv next ⟨⟩
    obtain ⟨piece, rest, rfl, hover⟩ :=
      (List.isChain_append.1 h.overflows).2.2 volume hv current rfl
    exact ⟨piece, rest ++ [line], rfl, hover⟩
  fits := by
    intro volume hv front piece rest heq
    rcases List.mem_append.1 hv with hv | hv
    · exact h.fits volume (List.mem_append_left _ hv) front piece rest heq
    · obtain rfl := List.mem_singleton.1 hv
      -- Either this is about the new piece, or about one that was in the volume before.
      rcases List.eq_nil_or_concat rest with rfl | ⟨rest, last, rfl⟩
      · obtain ⟨rfl, hpiece⟩ := List.append_inj' heq rfl
        cases hpiece
        exact hfits
      · have heq' : current ++ [line] = (front ++ piece :: rest) ++ [last] := by
          rw [heq]
          simp
        exact h.fits current (by simp) front piece rest (List.append_inj' heq' rfl).1

theorem Volumes.concat_volume (h : Volumes maxSize pieces (past ++ [current]))
    (hne : current.flatten ≠ []) (hover : maxSize < current.flatten.length + line.length) :
    Volumes maxSize (pieces ++ [line]) (past ++ [current] ++ [[line]]) where
  flatten_eq := by
    rw [← h.flatten_eq]
    simp
  overflows := by
    refine List.isChain_append.2 ⟨h.overflows, .singleton _, ?_⟩
    rintro volume hv next ⟨⟩
    -- The new volume is begun since its piece does not fit into the one before.
    obtain rfl : volume = current := by simpa using hv.symm
    exact ⟨line, [], rfl, hne, hover⟩
  fits := by
    intro volume hv front piece rest heq
    rcases List.mem_append.1 hv with hv | hv
    · exact h.fits volume hv front piece rest heq
    · obtain rfl := List.mem_singleton.1 hv
      obtain rfl : front = [] := by
        rcases front with - | ⟨first, front⟩
        · rfl
        · simp at heq
      exact .inl rfl

/-- What is on disk while the rotation of a log is not blocked: the last volume in its file and the
one before it in the older file, which before the first rotation is as it was. -/
structure Keeps (log : MachineLog) (before t : Tree) (pieces : List (List UInt8))
    (past : List (List (List UInt8))) (current : List (List UInt8)) : Prop where
  volumes : Volumes log.maxSize pieces (past ++ [current])
  current_ne_nil : current ≠ []
  size_eq : log.size = current.flatten.length
  file_eq : t.contents? log.place = some current.flatten
  old_eq : t.contents? (oldPlace log.place) =
    (past.getLast?.map List.flatten).or (before.contents? (oldPlace log.place))
  old_free : t.node? (oldPlace log.place) ≠ some .directory
  others : ∀ other, other ≠ log.place → other ≠ oldPlace log.place →
    t.contents? other = before.contents? other

theorem Keeps.append (h : Keeps log before t pieces past current)
    (hfull : log.isFull line = false) :
    Keeps (log.append t line).1 before (log.append t line).2 (pieces ++ [line]) past
      (current ++ [line]) := by
  have hsize := h.size_eq
  have hframe := append_frame log line h.file_eq
  have hfits : current.flatten = [] ∨ current.flatten.length + line.length ≤ log.maxSize := by
    simp only [isFull, Bool.and_eq_false_iff, decide_eq_false_iff_not] at hfull
    rcases hfull with hempty | hfits
    · exact .inl (List.length_eq_zero_iff.1 (by omega))
    · exact .inr (by omega)
  have hold : (log.append t line).2.node? (oldPlace log.place) = t.node? (oldPlace log.place) := by
    rw [hframe, if_neg (ne_oldPlace _)]
  exact {
    volumes := h.volumes.concat_piece h.current_ne_nil hfits
    current_ne_nil := by simp
    size_eq := by simp [hsize]
    file_eq := Tree.contents?_file (by simp [hframe])
    old_eq := (Tree.contents?_of_node? hold).trans h.old_eq
    old_free := fun hdir => h.old_free (hold.symm.trans hdir)
    others := fun other hne hother =>
      (Tree.contents?_of_node? ((hframe other).trans (if_neg (Ne.symm hne)))).trans
        (h.others other hne hother) }

theorem Keeps.rotate (h : Keeps log before t pieces past current) (hfull : log.isFull line = true) :
    Keeps (log.write t line).1 before (log.write t line).2 (pieces ++ [line]) (past ++ [current])
      [line] := by
  have hsize := h.size_eq
  obtain ⟨hnew, hframe⟩ := write_rotate hfull h.old_free h.file_eq
  simp only [isFull, Bool.and_eq_true, decide_eq_true_eq] at hfull
  have hne : current.flatten ≠ [] := List.length_pos_iff.1 (by omega)
  have hold : (log.write t line).2.node? (oldPlace log.place) = some (.file current.flatten) := by
    rw [hframe, if_neg (ne_oldPlace _), if_pos rfl]
  exact {
    volumes := by
      rw [write_maxSize]
      exact h.volumes.concat_volume hne (by omega)
    current_ne_nil := by simp
    size_eq := by simp [hnew]
    file_eq := Tree.contents?_file (by simp [hframe])
    old_eq := by
      rw [write_place]
      simp [Tree.contents?_file hold]
    old_free := by
      rw [write_place, hold]
      exact nofun
    others := by
      rw [write_place]
      intro other hne hother
      rw [← h.others other hne hother]
      exact Tree.contents?_of_node? (by rw [hframe, if_neg hne.symm, if_neg hother.symm]) }

theorem Keeps.write (h : Keeps log before t pieces past current) (line : List UInt8) :
    ∃ past front, Keeps (log.write t line).1 before (log.write t line).2 (pieces ++ [line]) past
      (front ++ [line]) := by
  cases hfull : log.isFull line with
  | false =>
    rw [write_append (.inl hfull)]
    exact ⟨past, current, h.append hfull⟩
  | true => exact ⟨past ++ [current], [], h.rotate hfull⟩

theorem Keeps.length_le {front : List (List UInt8)}
    (h : Keeps log before t pieces past (front ++ [line])) :
    ∃ contents, t.contents? log.place = some contents ∧
      (contents.length ≤ log.maxSize ∨ contents = line) := by
  refine ⟨_, h.file_eq, ?_⟩
  rcases h.volumes.fits (front ++ [line]) (by simp) front line [] rfl with hempty | hfits
  · exact .inr (by simp [hempty])
  · exact .inl (by simpa using hfits)

/-- What is left on disk is the end of all that was there and was written. -/
theorem Keeps.suffix {initial : List UInt8}
    (h : Keeps log before t (initial :: chunks) past current) :
    ((t.contents? (oldPlace log.place)).getD [] ++ current.flatten) <:+
      (before.contents? (oldPlace log.place)).getD [] ++ initial ++ chunks.flatten := by
  have hpieces : initial ++ chunks.flatten = past.flatten.flatten ++ current.flatten := by
    have := congrArg List.flatten h.volumes.flatten_eq
    simpa using this.symm
  rw [h.old_eq, List.append_assoc, hpieces]
  rcases List.eq_nil_or_concat past with rfl | ⟨earlier, last, rfl⟩
  · simp
  · simp only [List.concat_eq_append, List.getLast?_concat, List.flatten_append, Option.map_some,
      Option.some_or, Option.getD_some, ← List.append_assoc]
    exact ⟨(before.contents? (oldPlace log.place)).getD [] ++ earlier.flatten.flatten, by simp⟩

theorem keeps_openAt {path : Path} {maxSize : Option Nat}
    (h : openAt before path maxSize = .ok (log, t))
    (hold : t.node? (oldPlace log.place) ≠ some .directory) :
    Keeps log before t [(before.contents? log.place).getD []] []
      [(before.contents? log.place).getD []] := by
  obtain ⟨hfile, -, hsize, hother⟩ := openAt_cases h
  exact {
    volumes := {
      flatten_eq := rfl
      overflows := .singleton _
      fits := by
        intro volume hv front piece rest heq
        obtain rfl := List.mem_singleton.1 hv
        rcases front with - | ⟨first, front⟩
        · exact .inl rfl
        · simp at heq }
    current_ne_nil := by simp
    size_eq := by simp [hsize]
    file_eq := by simp [hfile]
    old_eq := by simp [hother _ (oldPlace_ne _)]
    old_free := hold
    others := fun other hne _ => hother other hne }

theorem keeps_writeAll (h : Keeps log before t pieces past current) (chunks : List (List UInt8)) :
    ∃ past current, Keeps (log.writeAll t chunks).1 before (log.writeAll t chunks).2
      (pieces ++ chunks) past current := by
  induction chunks using List.reverseRecOn with
  | nil => exact ⟨past, current, by rwa [List.append_nil]⟩
  | append_singleton chunks line ih =>
    obtain ⟨past, current, ih⟩ := ih
    obtain ⟨past, front, h⟩ := ih.write line
    rw [writeAll_concat, ← List.append_assoc]
    exact ⟨past, _, h⟩

theorem writeAll_of_blocked (hold : t.node? (oldPlace log.place) = some .directory)
    (h : t.contents? log.place = some contents) (chunks : List (List UInt8)) :
    (log.writeAll t chunks).2.contents? log.place = some (contents ++ chunks.flatten) ∧
      ∀ other, other ≠ log.place → (log.writeAll t chunks).2.node? other = t.node? other := by
  induction chunks using List.reverseRecOn with
  | nil =>
    rw [List.flatten_nil, List.append_nil]
    exact ⟨h, fun _ _ => rfl⟩
  | append_singleton chunks line ih =>
    obtain ⟨hfile, hother⟩ := ih
    have hblocked : (log.writeAll t chunks).2.node? (oldPlace (log.writeAll t chunks).1.place) =
        some .directory := by
      rw [writeAll_place, hother _ (oldPlace_ne _), hold]
    have hframe := append_frame (log.writeAll t chunks).1 line (by rw [writeAll_place]; exact hfile)
    rw [writeAll_place] at hframe
    rw [writeAll_concat, write_append (.inr hblocked)]
    refine ⟨Tree.contents?_file ?_, fun other hne => ?_⟩
    · rw [hframe, if_pos rfl]
      simp
    · rw [hframe, if_neg (Ne.symm hne), hother other hne]

/-- Whatever the two files of a log hold when it is opened and whatever is then written, nothing
that is left is out of order, twice there or cut, and what is gone is gone with whole volumes from
the front. A directory in the place of the older file costs nothing but the bound on the length. -/
theorem log_keeps_the_end {path : Path} {maxSize : Option Nat}
    (h : openAt before path maxSize = .ok (log, t)) (chunks : List (List UInt8)) :
    let initial := (before.contents? log.place).getD []
    let older := (before.contents? (oldPlace log.place)).getD []
    let after := (log.writeAll t chunks).2
    (t.node? (oldPlace log.place) ≠ some .directory →
      (∃ past current,
        Volumes (maxSize.getD defaultMaxSize) (initial :: chunks) (past ++ [current]) ∧
          after.contents? log.place = some current.flatten ∧
          after.contents? (oldPlace log.place) =
            (past.getLast?.map List.flatten).or (before.contents? (oldPlace log.place))) ∧
      ((after.contents? (oldPlace log.place)).getD [] ++
          (after.contents? log.place).getD []) <:+ older ++ initial ++ chunks.flatten ∧
      (∀ other, other ≠ log.place → other ≠ oldPlace log.place →
        after.contents? other = before.contents? other) ∧
      ∀ done chunk, done ++ [chunk] <+: chunks →
        ∃ contents, (log.writeAll t (done ++ [chunk])).2.contents? log.place = some contents ∧
          (contents.length ≤ maxSize.getD defaultMaxSize ∨ contents = chunk)) ∧
    (t.node? (oldPlace log.place) = some .directory →
      after.contents? log.place = some (initial ++ chunks.flatten) ∧
        ∀ other, other ≠ log.place → after.node? other = t.node? other) := by
  intro initial older after
  obtain ⟨hfile, hmax, -, -⟩ := openAt_cases h
  refine ⟨fun hfree => ?_, fun hdir => writeAll_of_blocked hdir hfile chunks⟩
  have hopen := keeps_openAt h hfree
  obtain ⟨past, current, hkeeps⟩ := keeps_writeAll hopen chunks
  have hplace : (log.writeAll t chunks).1.place = log.place := writeAll_place
  have hcurrent := hkeeps.file_eq
  have hold := hkeeps.old_eq
  have hsuffix := hkeeps.suffix
  have hothers := hkeeps.others
  have hvolumes := hkeeps.volumes
  rw [hplace] at hcurrent hold hsuffix hothers
  rw [writeAll_maxSize, hmax] at hvolumes
  refine ⟨⟨past, current, hvolumes, hcurrent, hold⟩, ?_, hothers, fun done chunk _ => ?_⟩
  · rw [hcurrent, Option.getD_some]
    exact hsuffix
  · -- The bound holds after each line, so it comes from the run up to that one.
    obtain ⟨past, current, hdone⟩ := keeps_writeAll hopen done
    obtain ⟨past, front, hchunk⟩ := hdone.write chunk
    have hlength := hchunk.length_le
    rw [← writeAll_concat] at hlength
    rwa [writeAll_place, writeAll_maxSize, hmax] at hlength

def begun : Except Error (MachineLog × Tree) :=
  openAt (Tree.empty.put ["log"] (.file [1, 2])) "log" (some 4)

def begunBesideDirectory : Except Error (MachineLog × Tree) :=
  openAt ((Tree.empty.put ["log"] (.file [1, 2])).put ["log.old"] .directory) "log" (some 4)

/-- Five bytes are too many for a file, and three more for the one they are in. -/
theorem five_and_three_bytes_are_kept :
    (∃ log t, begun = .ok (log, t) ∧ t.node? (oldPlace log.place) ≠ some .directory ∧
      ∃ past current, Volumes 4 [[1, 2], [3, 4, 5, 6, 7], [8, 9, 10]] (past ++ [current]) ∧
        (log.writeAll t [[3, 4, 5, 6, 7], [8, 9, 10]]).2.contents? log.place =
          some current.flatten) ∧
    ∃ log t, begunBesideDirectory = .ok (log, t) ∧
      t.node? (oldPlace log.place) = some .directory ∧
      (log.writeAll t [[3, 4, 5, 6, 7], [8, 9, 10]]).2.contents? log.place =
        some [1, 2, 3, 4, 5, 6, 7, 8, 9, 10] := by
  have free : (begun.toOption.any fun opened =>
      opened.2.node? (oldPlace opened.1.place) != some .directory &&
        opened.1.place == ["log"]) = true := by decide +kernel
  have blocked : (begunBesideDirectory.toOption.any fun opened =>
      opened.2.node? (oldPlace opened.1.place) == some .directory &&
        opened.1.place == ["log"]) = true := by decide +kernel
  constructor
  · cases h : begun with
    | error e => simp [h, Except.toOption] at free
    | ok opened =>
      obtain ⟨log, t⟩ := opened
      obtain ⟨hfree, hplace⟩ : t.node? (oldPlace log.place) ≠ some .directory ∧
          log.place = ["log"] := by simpa [h, Except.toOption] using free
      obtain ⟨⟨past, current, hvolumes, hcurrent, -⟩, -⟩ :=
        (log_keeps_the_end h [[3, 4, 5, 6, 7], [8, 9, 10]]).1 hfree
      rw [hplace] at hvolumes hcurrent
      exact ⟨log, t, rfl, hfree, past, current, hvolumes, hplace ▸ hcurrent⟩
  · cases h : begunBesideDirectory with
    | error e => simp [h, Except.toOption] at blocked
    | ok opened =>
      obtain ⟨log, t⟩ := opened
      obtain ⟨hdir, hplace⟩ : t.node? (oldPlace log.place) = some .directory ∧
          log.place = ["log"] := by simpa [h, Except.toOption] using blocked
      obtain ⟨hfile, -⟩ := (log_keeps_the_end h [[3, 4, 5, 6, 7], [8, 9, 10]]).2 hdir
      rw [hplace] at hfile
      exact ⟨log, t, rfl, hdir, hplace ▸ hfile⟩

end MachineFleet.MachineLog
