import MachineFleet.Files.Failure
import MachineFleet.Files.Path

namespace MachineFleet.Files

abbrev Place := List String

inductive Node where
  | directory
  | file (contents : List UInt8)
  deriving DecidableEq, Repr

def nodeAt? (entries : List (Place × Node)) (place : Place) : Option Node :=
  if place = [] then some .directory else (entries.find? (·.1 == place)).map (·.2)

def Closed (entries : List (Place × Node)) : Prop :=
  ∀ e ∈ entries, nodeAt? entries e.1.dropLast = some .directory

structure Tree where
  entries : List (Place × Node)
  closed : Closed entries

namespace Tree

def empty : Tree := ⟨[], by intro e he; simp at he⟩

instance : Inhabited Tree := ⟨empty⟩

def node? (t : Tree) (place : Place) : Option Node := nodeAt? t.entries place

def isWithin (place : Place) (e : Place × Node) : Bool := place.isPrefixOf e.1

theorem find?_filter_of_imp {α : Type} {p q : α → Bool} {xs : List α}
    (h : ∀ x ∈ xs, p x = true → q x = true) : (xs.filter q).find? p = xs.find? p := by
  induction xs with
  | nil => rfl
  | cons x rest ih =>
    have hx := h x (List.mem_cons_self ..)
    have ih := ih fun y hy => h y (List.mem_cons_of_mem _ hy)
    by_cases hp : p x = true
    · simp [List.filter, hx hp, List.find?, hp]
    · cases hq : q x <;> simp [List.filter, hq, List.find?, hp, ih]

theorem nodeAt?_filter {entries : List (Place × Node)} {keep : Place → Bool} {place : Place}
    (h : keep place = true) :
    nodeAt? (entries.filter fun e => keep e.1) place = nodeAt? entries place := by
  unfold nodeAt?
  split
  · rfl
  · rw [find?_filter_of_imp]
    intro e _ he
    have : e.1 = place := by simpa using he
    simpa [this] using h

def erase (t : Tree) (place : Place) : Tree where
  entries := t.entries.filter fun e => !place.isPrefixOf e.1
  closed := by
    intro e he
    obtain ⟨hmem, hkeep⟩ := List.mem_filter.1 he
    rw [@nodeAt?_filter _ (fun p => !place.isPrefixOf p)]
    · exact t.closed e hmem
    · have hnot : ¬ place <+: e.1 := by simpa [← List.isPrefixOf_iff_prefix] using hkeep
      have : ¬ place <+: e.1.dropLast := fun h => hnot (h.trans (List.dropLast_prefix _))
      simpa [← List.isPrefixOf_iff_prefix] using this

def clear (t : Tree) (place : Place) : Tree where
  entries := t.entries.filter fun e => !(place.isPrefixOf e.1 && e.1 != place)
  closed := by
    intro e he
    obtain ⟨hmem, hkeep⟩ := List.mem_filter.1 he
    rw [@nodeAt?_filter _ (fun p => !(place.isPrefixOf p && p != place))]
    · exact t.closed e hmem
    · have hnot : place <+: e.1 → e.1 = place := by
        intro h
        simpa [List.isPrefixOf_iff_prefix.2 h] using hkeep
      have : place <+: e.1.dropLast → e.1.dropLast = place := by
        intro h
        have heq := hnot (h.trans (List.dropLast_prefix _))
        rw [heq] at h ⊢
        exact (h.eq_of_length_le (by simp)).symm
      cases hp : place.isPrefixOf e.1.dropLast
      · simp
      · simp [this (List.isPrefixOf_iff_prefix.1 hp)]

/-- Whether an entry may be put at a place: it is not the root, what holds it is a directory, and
no directory gives way to a file. -/
def accepts (t : Tree) (place : Place) (node : Node) : Bool :=
  place != [] && t.node? place.dropLast == some .directory &&
    (node == .directory || t.node? place != some .directory)

theorem nodeAt?_cons_filter {entries : List (Place × Node)} {place other : Place} {node : Node} :
    nodeAt? ((place, node) :: entries.filter fun e => e.1 != place) other =
      if other ≠ [] ∧ place = other then some node else nodeAt? entries other := by
  by_cases hnil : other = []
  · simp [nodeAt?, hnil]
  · by_cases heq : place = other
    · simp [nodeAt?, hnil, heq]
    · have := @nodeAt?_filter entries (fun p => p != place) other
        (by simpa using fun h => heq h.symm)
      rw [if_neg (by simp [heq]), ← this]
      have hne : (place == other) = false := by simpa using heq
      simp only [nodeAt?, hnil, if_false, List.find?_cons, hne]

def put (t : Tree) (place : Place) (node : Node) : Tree :=
  if h : t.accepts place node then
    { entries := (place, node) :: t.entries.filter fun e => e.1 != place
      closed := by
        obtain ⟨⟨_, hparent⟩, hkind⟩ : (place ≠ [] ∧
            nodeAt? t.entries place.dropLast = some .directory) ∧
            (node = .directory ∨ nodeAt? t.entries place ≠ some .directory) := by
          simpa [accepts, node?] using h
        have key : ∀ other, nodeAt? t.entries other = some .directory →
            nodeAt? ((place, node) :: t.entries.filter fun e => e.1 != place) other =
              some .directory := by
          intro other hother
          rw [nodeAt?_cons_filter]
          split
          · rename_i hcond
            rcases hkind with hdir | hfile
            · rw [hdir]
            · exact absurd (hcond.2 ▸ hother) hfile
          · exact hother
        intro e he
        rcases List.mem_cons.1 he with rfl | he
        · exact key _ hparent
        · exact key _ (t.closed e (List.mem_filter.1 he).1) }
  else t

def enter (t : Tree) (place : Place) (piece : List Char) : Except Failure Place :=
  match t.node? place with
  | none => .error .notFound
  | some (.file _) => .error .notADirectory
  | some .directory =>
    if piece = [] ∨ piece = ['.'] then .ok place
    else if piece = ['.', '.'] then .ok place.dropLast
    else .ok (place ++ [String.ofList piece])

def endOfPath : Char := '\x00'

/-- Where a path leads; whether something is there is left open. Relative paths are seen from the
root. -/
def locate (t : Tree) (p : Path) : Except Failure Place :=
  if p.toList.contains endOfPath then
    .error (.other "file name contained an unexpected NUL byte")
  else (Path.pieces p.toList).foldlM t.enter []

def find (t : Tree) (p : Path) : Except Failure (Place × Node) := do
  let place ← t.locate p
  match t.node? place with
  | some node => return (place, node)
  | none => throw .notFound

def lastPiece (p : Path) : List Char :=
  ((Path.pieces p.toList).filter (· != [])).getLast?.getD []

/-- Removes a directory with all that is in it. It is emptied first, and then removed by its path:
if that led through what is gone by now, the emptied directory stays. One whose path ends in a dot
or in two is not removed, nor is the root. -/
def removeDirectory (t : Tree) (p : Path) : Tree × Except Failure Unit :=
  match t.find p with
  | .error e => (t, .error e)
  | .ok (_, .file _) => (t, .error .notADirectory)
  | .ok (place, .directory) =>
    match (t.clear place).locate p with
    | .error _ => (t.clear place, .ok ())
    | .ok _ =>
      if lastPiece p = ['.'] then (t.clear place, .error .invalidArgument)
      else if lastPiece p = ['.', '.'] then
        (t.clear place, .error (.other "Directory not empty (os error 39)"))
      else if place = [] then (t.clear place, .error .busy)
      else (t.erase place, .ok ())

/-- Makes the directories along some components from a place on, as far as they are not there, and
stops at a file; `made` tells whether one was made before. A file then stands where a directory is
to be made, and so it does at the end of a path; elsewhere it is in the way of what is below it. -/
def makeAlong (made : Bool) (place : Place) (t : Tree) :
    List Path.Component → Tree × Except Failure Unit
  | [] => (t, .ok ())
  | .name text :: rest =>
    let place := place ++ [text]
    match t.node? place with
    | some .directory => makeAlong made place t rest
    | some (.file _) =>
      (t, .error (if made || rest.isEmpty then .alreadyExists else .notADirectory))
    | none => makeAlong true place (t.put place .directory) rest
  | .parent :: rest => makeAlong made place.dropLast t rest
  | _ :: rest => makeAlong made place t rest

def makePath (t : Tree) (p : Path) : Tree × Except Failure Unit :=
  makeAlong false [] t p.components

def makeDirectory (t : Tree) (p : Path) : Except Failure Tree :=
  let (made, result) := t.makePath p
  result.map fun () => made

def openFile (t : Tree) (p : Path) : Except Failure (Place × Tree) :=
  if lastPiece p = ['.'] ∨ lastPiece p = ['.', '.'] ∨ p.toList.getLast? = some '/' then
    .error .isADirectory
  else
    match t.locate p with
    | .error e => .error e
    | .ok place =>
      match t.node? place with
      | some .directory => .error .isADirectory
      | some (.file _) => .ok (place, t)
      | none =>
        if t.node? place.dropLast = some .directory then .ok (place, t.put place (.file []))
        else .error .notFound

def contents? (t : Tree) (place : Place) : Option (List UInt8) :=
  match t.node? place with
  | some (.file contents) => some contents
  | _ => none

def read (t : Tree) (p : Path) : Except Failure (List UInt8) := do
  match (← t.find p).2 with
  | .file contents => return contents
  | .directory => throw .isADirectory

def append (t : Tree) (place : Place) (bytes : List UInt8) : Tree :=
  match t.contents? place with
  | some contents => t.put place (.file (contents ++ bytes))
  | none => t

def listing (t : Tree) (place : Place) : List String :=
  (t.entries.filterMap fun (p, node) =>
    if place.isPrefixOf p && p != place then
      let text := "/".intercalate (p.drop place.length)
      some (if node = .directory then text ++ "/" else text)
    else none).mergeSort

end Tree

end MachineFleet.Files
