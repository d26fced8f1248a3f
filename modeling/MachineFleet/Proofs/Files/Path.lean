import MachineFleet.Files.Path

namespace MachineFleet.Path

variable {p child : Path} {text : String} {front back piece : List Char}

/-- A text that is one component of a path wherever it stands. -/
structure IsName (text : String) : Prop where
  ne_empty : text ≠ ""
  ne_current : text ≠ "."
  ne_parent : text ≠ ".."
  no_slash : '/' ∉ text.toList

/-- The path leads to a place below another one, by its components. -/
def IsBelow (p parent : Path) : Prop :=
  parent.components <+: p.components ∧ parent.components ≠ p.components

theorem pieces_eq_cons (text : List Char) :
    ∃ piece more, pieces text = piece :: more ∧ piece <+: text := by
  induction text with
  | nil => exact ⟨[], [], rfl, List.nil_prefix⟩
  | cons c rest ih =>
    obtain ⟨piece, more, heq, hp⟩ := ih
    by_cases hc : c = '/'
    · exact ⟨[], pieces rest, by rw [pieces, if_pos hc], List.nil_prefix⟩
    · refine ⟨c :: piece, more, by rw [pieces, if_neg hc, heq], ?_⟩
      exact List.cons_prefix_cons.2 ⟨rfl, hp⟩

theorem pieces_append_slash (front back : List Char) :
    pieces (front ++ '/' :: back) = pieces front ++ pieces back := by
  induction front with
  | nil => rfl
  | cons c rest ih =>
    obtain ⟨piece, more, heq, -⟩ := pieces_eq_cons rest
    rw [List.cons_append, pieces, pieces, ih, heq]
    split <;> rfl

theorem pieces_of_no_slash (h : '/' ∉ piece) : pieces piece = [piece] := by
  induction piece with
  | nil => rfl
  | cons c rest ih =>
    obtain ⟨hc, hrest⟩ : '/' ≠ c ∧ '/' ∉ rest := by simpa using h
    rw [pieces, if_neg (Ne.symm hc), ih hrest]

theorem no_slash_of_mem_pieces {text : List Char} (h : piece ∈ pieces text) : '/' ∉ piece := by
  induction text generalizing piece with
  | nil =>
    obtain rfl := List.mem_singleton.1 h
    exact List.not_mem_nil
  | cons c rest ih =>
    obtain ⟨first, more, heq, -⟩ := pieces_eq_cons rest
    rw [pieces, heq] at h
    rw [heq] at ih
    split at h
    · rcases List.mem_cons.1 h with rfl | h
      · exact List.not_mem_nil
      · exact ih h
    · rename_i hc
      rcases List.mem_cons.1 h with rfl | h
      · exact List.not_mem_cons_of_ne_of_not_mem (Ne.symm hc) (ih (List.mem_cons_self ..))
      · exact ih (List.mem_cons_of_mem _ h)

theorem infix_of_mem_pieces {text : List Char} (h : piece ∈ pieces text) : piece <:+: text := by
  induction text generalizing piece with
  | nil =>
    obtain rfl := List.mem_singleton.1 h
    exact List.nil_infix
  | cons c rest ih =>
    obtain ⟨first, more, heq, hfirst⟩ := pieces_eq_cons rest
    rw [pieces, heq] at h
    rw [heq] at ih
    split at h
    · rcases List.mem_cons.1 h with rfl | h
      · exact List.nil_infix
      · exact List.infix_cons (ih h)
    · rcases List.mem_cons.1 h with rfl | h
      · exact (List.cons_prefix_cons.2 ⟨rfl, hfirst⟩).isInfix
      · exact List.infix_cons (ih (List.mem_cons_of_mem _ h))

theorem component?_name (h : IsName text) : component? text.toList = some (.name text) := by
  have hne (s : String) (hs : text ≠ s) : text.toList ≠ s.toList :=
    fun heq => hs (String.toList_inj.1 heq)
  have hpiece : ¬ (text.toList = [] ∨ text.toList = ['.']) :=
    not_or.2 ⟨hne "" h.ne_empty, hne "." h.ne_current⟩
  have hup : text.toList ≠ ['.', '.'] := hne ".." h.ne_parent
  rw [component?, if_neg hpiece, if_neg hup, String.ofList_toList]

theorem component?_eq_name (h : component? piece = some (.name text)) :
    piece = text.toList ∧ piece ≠ [] ∧ piece ≠ ['.'] ∧ piece ≠ ['.', '.'] := by
  unfold component? at h
  split at h
  · cases h
  · rename_i hne
    obtain ⟨hempty, hcurrent⟩ := not_or.1 hne
    split at h
    · cases h
    · rename_i hparent
      cases h
      exact ⟨String.toList_ofList.symm, hempty, hcurrent, hparent⟩

theorem exists_name_of_component? {c : Component} (hup : piece ≠ ['.', '.'])
    (h : component? piece = some c) : ∃ text, c = .name text := by
  rw [component?, if_neg hup] at h
  split at h
  · cases h
  · cases h
    exact ⟨_, rfl⟩

theorem isName_of_component? (hslash : '/' ∉ piece) (h : component? piece = some (.name text)) :
    IsName text := by
  obtain ⟨rfl, hempty, hcurrent, hparent⟩ := component?_eq_name h
  exact ⟨fun h => hempty (by rw [h]; rfl), fun h => hcurrent (by rw [h]; rfl),
    fun h => hparent (by rw [h]; rfl), hslash⟩

theorem components_eq (h : p.isAbsolute = true) :
    p.components = .root :: (pieces p.toList).filterMap component? := by
  rw [components, if_pos h]
  rfl

theorem parent_mem_components_iff :
    .parent ∈ p.components ↔ ['.', '.'] ∈ pieces p.toList := by
  have hpiece (piece : List Char) : component? piece = some .parent ↔ piece = ['.', '.'] := by
    unfold component?
    split
    · rename_i hcurrent
      rcases hcurrent with rfl | rfl <;> simp
    · split
      · rename_i hparent
        simp [hparent]
      · rename_i hparent
        simp [hparent]
  have hstart : Component.parent ∉ (if p.isAbsolute then [Component.root]
      else if (pieces p.toList).head? = some ['.'] then [Component.current] else []) := by
    split
    · simp
    · split <;> simp
  rw [components, List.mem_append, List.mem_filterMap]
  constructor
  · intro h
    rcases h with h | ⟨piece, hmem, hparent⟩
    · exact absurd h hstart
    · rwa [(hpiece piece).1 hparent] at hmem
  · intro h
    exact .inr ⟨_, h, (hpiece _).2 rfl⟩

theorem isName_of_fileName? (h : p.fileName? = some text) : IsName text := by
  unfold fileName? at h
  split at h
  · rename_i name hlast
    cases h
    have hmem : Component.name text ∈ p.components := List.mem_of_getLast? hlast
    rw [components, List.mem_append] at hmem
    rcases hmem with hstart | hmem
    · split at hstart
      · cases List.mem_singleton.1 hstart
      · split at hstart
        · cases List.mem_singleton.1 hstart
        · cases hstart
    · obtain ⟨piece, hpiece, hname⟩ := List.mem_filterMap.1 hmem
      exact isName_of_component? (no_slash_of_mem_pieces hpiece) hname
  · cases h

theorem IsName.not_absolute (h : IsName text) : isAbsolute text = false := by
  rw [isAbsolute, beq_eq_false_iff_ne]
  exact fun hhead => h.no_slash (List.mem_of_head? hhead)

theorem join_eq (h : isAbsolute child = false) (p : Path) :
    (join p child).toList = p.toList ++ child.toList ∧ (p = "" ∨ p.toList.getLast? = some '/') ∨
      (join p child).toList = p.toList ++ '/' :: child.toList := by
  rw [join, if_neg (by simp [h])]
  split
  · rename_i hend
    refine .inl ⟨String.toList_append, ?_⟩
    simpa using hend
  · exact .inr (by simp [String.toList_append])

theorem isAbsolute_join (hp : p.isAbsolute = true) (h : isAbsolute child = false) :
    (join p child).isAbsolute = true := by
  have hhead : p.toList.head? = some '/' := by simpa [isAbsolute] using hp
  rw [isAbsolute]
  rcases join_eq h p with ⟨heq, -⟩ | heq
  · simp [heq, List.head?_append, hhead]
  · simp [heq, List.head?_append, hhead]

theorem components_join_relative (hp : p.isAbsolute = true) (h : isAbsolute child = false) :
    (join p child).components = p.components ++ (pieces child.toList).filterMap component? := by
  rw [components_eq (isAbsolute_join hp h), components_eq hp, List.cons_append]
  congr 1
  rcases join_eq h p with ⟨heq, rfl | hlast⟩ | heq
  · cases hp
  · -- The slash is there already, and the empty piece after it is no component.
    obtain ⟨front, hfront⟩ := List.getLast?_eq_some_iff.1 hlast
    rw [heq, hfront, List.append_assoc, List.singleton_append, pieces_append_slash,
      pieces_append_slash, List.filterMap_append, List.filterMap_append]
    simp [pieces, component?]
  · rw [heq, pieces_append_slash, List.filterMap_append]

/-- A plain name that is joined to a path is one more component. -/
theorem components_join (hp : p.isAbsolute = true) (h : IsName text) :
    (join p text).components = p.components ++ [.name text] := by
  rw [components_join_relative hp h.not_absolute, pieces_of_no_slash h.no_slash]
  simp [component?_name h]

def Component.name? : Component → Option String
  | .name text => some text
  | _ => none

/-- One component further; the names that have led here are in reverse order. -/
def Component.walk (up : List String) : Component → List String
  | .name text => text :: up
  | .parent => up.tail
  | _ => up

theorem resolve_eq_walk (p : Path) :
    p.resolve = (p.components.foldl Component.walk []).reverse := rfl

theorem walk_names {components : List Component} (h : .parent ∉ components) (up : List String) :
    (components.foldl Component.walk up).reverse =
      up.reverse ++ components.filterMap Component.name? := by
  induction components generalizing up with
  | nil => simp
  | cons c rest ih =>
    obtain ⟨hc, hrest⟩ : .parent ≠ c ∧ .parent ∉ rest := by simpa using h
    cases c with
    | parent => exact absurd rfl hc
    | _ => simp [ih hrest, List.filterMap_cons, Component.walk, Component.name?]

theorem resolve_eq_names (h : .parent ∉ p.components) :
    p.resolve = p.components.filterMap Component.name? := by
  simpa [resolve_eq_walk] using walk_names h []

theorem resolve_eq_pieces (h : .parent ∉ p.components) :
    p.resolve = ((pieces p.toList).filterMap component?).filterMap Component.name? := by
  rw [resolve_eq_names h, components, List.filterMap_append]
  -- What a path begins with names nothing.
  split
  · rfl
  · split <;> rfl

/-- A relative path that never goes up leads on from where the path leads that it is joined to. -/
theorem resolve_join (hp : p.isAbsolute = true) (h : isAbsolute child = false)
    (hup : .parent ∉ components child) : (join p child).resolve = p.resolve ++ resolve child := by
  have hnames : .parent ∉ (pieces child.toList).filterMap component? := by
    intro hmem
    refine hup ?_
    rw [components]
    exact List.mem_append_right _ hmem
  rw [resolve_eq_walk, components_join_relative hp h, List.foldl_append, walk_names hnames,
    ← resolve_eq_walk, resolve_eq_pieces hup]

theorem hasNoParent_iff (habs : p.isAbsolute = true) (hup : .parent ∉ p.components) :
    p.hasNoParent = true ↔ p.resolve = [] := by
  have hname (c : Component) (hc : c ∈ (pieces p.toList).filterMap component?) :
      ∃ text, c = .name text := by
    obtain ⟨piece, hpiece, heq⟩ := List.mem_filterMap.1 hc
    apply exists_name_of_component? _ heq
    rintro rfl
    exact hup (parent_mem_components_iff.2 hpiece)
  rw [resolve_eq_pieces hup, hasNoParent, components_eq habs]
  -- Behind the root only names follow, so the last component is the root or a name.
  rcases List.eq_nil_or_concat ((pieces p.toList).filterMap component?) with hnil | ⟨front, c, hc⟩
  · simp [hnil]
  · obtain ⟨text, rfl⟩ := hname c (by simp [hc])
    simp [hc, List.getLast?_cons, Component.name?]

end MachineFleet.Path
