import MachineFleet.Machine.Launch
import MachineFleet.Net.Address.Parser

/-!
The marks in the arguments of a machine. The identity is put in for its marks and then the address
for the marks that are found after that. It comes to the same as to cut the argument at its marks
first and to put both in at once: the text of an identity neither makes a mark of the address nor
breaks one.
-/
namespace MachineFleet

section Replacing

variable {first c : Char} {mark value text rest : List Char}

theorem replaceAll_nil (mark value : List Char) : replaceAll mark value [] = [] := by
  rw [replaceAll]

theorem replaceAll_mark (hmark : mark ≠ []) (value rest : List Char) :
    replaceAll mark value (mark ++ rest) = value ++ replaceAll mark value rest := by
  obtain ⟨c, more, rfl⟩ := List.exists_cons_of_ne_nil hmark
  rw [List.cons_append, replaceAll, if_pos ⟨hmark, by simp⟩]
  simp

theorem replaceAll_cons (h : ¬ mark <+: c :: rest) :
    replaceAll mark value (c :: rest) = c :: replaceAll mark value rest := by
  rw [replaceAll, if_neg fun hmark => h (List.isPrefixOf_iff_prefix.1 hmark.2)]

theorem replaceAll_append (h : first ∉ text) (mark value rest : List Char) :
    replaceAll (first :: mark) value (text ++ rest) =
      text ++ replaceAll (first :: mark) value rest := by
  induction text with
  | nil => rfl
  | cons c text ih =>
    have hne : first ≠ c := fun heq => h (by simp [heq])
    have hmore : first ∉ text := fun hmem => h (by simp [hmem])
    have hnot : ¬ first :: mark <+: c :: (text ++ rest) := fun hp =>
      hne (List.cons_prefix_cons.1 hp).1
    rw [List.cons_append, replaceAll_cons hnot, ih hmore, List.cons_append]

end Replacing

namespace Launch

inductive Piece where
  | plain (c : Char)
  | identity
  | address
  deriving DecidableEq, Repr

def pieces : List Char → List Piece
  | '\x7b' :: 'i' :: 'd' :: '\x7d' :: rest => .identity :: pieces rest
  | '\x7b' :: 'i' :: 'p' :: '\x7d' :: rest => .address :: pieces rest
  | c :: rest => .plain c :: pieces rest
  | [] => []

def render (identity address : List Char) (cut : List Piece) : List Char :=
  cut.flatMap fun
    | .plain c => [c]
    | .identity => identity
    | .address => address

section Render

variable {identity address : List Char} {cut : List Piece}

theorem render_plain (c : Char) :
    render identity address (.plain c :: cut) = c :: render identity address cut := rfl

theorem render_identity :
    render identity address (.identity :: cut) = identity ++ render identity address cut := rfl

theorem render_address :
    render identity address (.address :: cut) = address ++ render identity address cut := rfl

end Render

/-- An argument and the pieces that it is cut into. Where a mark begins, it is cut off. -/
inductive IsCut : List Char → List Piece → Prop where
  | nil : IsCut [] []
  | identity (rest : List Char) (cut : List Piece) (more : IsCut rest cut) :
      IsCut (idMark ++ rest) (.identity :: cut)
  | address (rest : List Char) (cut : List Piece) (more : IsCut rest cut) :
      IsCut (addressMark ++ rest) (.address :: cut)
  | plain (c : Char) (rest : List Char) (cut : List Piece) (noId : ¬ idMark <+: c :: rest)
      (noAddress : ¬ addressMark <+: c :: rest) (more : IsCut rest cut) :
      IsCut (c :: rest) (.plain c :: cut)

theorem isCut_pieces (arg : List Char) : IsCut arg (pieces arg) := by
  fun_induction pieces arg with
  | case1 rest ih => exact .identity rest _ ih
  | case2 rest ih => exact .address rest _ ih
  | case3 c rest noId noAddress ih =>
    refine .plain c rest _ ?_ ?_ ih
    · rintro ⟨more, h⟩
      obtain ⟨hc, hrest⟩ := List.cons.inj h
      exact noId more hc.symm hrest.symm
    · rintro ⟨more, h⟩
      obtain ⟨hc, hrest⟩ := List.cons.inj h
      exact noAddress more hc.symm hrest.symm
  | case4 => exact .nil

namespace IsCut

variable {arg : List Char} {p : Piece} {cut : List Piece}

theorem render_marks (h : IsCut arg cut) : render idMark addressMark cut = arg := by
  induction h with
  | nil => rfl
  | identity rest cut _ ih => rw [render_identity, ih]
  | address rest cut _ ih => rw [render_address, ih]
  | plain c rest cut _ _ _ ih => rw [render_plain, ih]

theorem tail (h : IsCut arg (p :: cut)) : ∃ rest, IsCut rest cut := by
  cases h with
  | identity rest _ more => exact ⟨rest, more⟩
  | address rest _ more => exact ⟨rest, more⟩
  | plain c rest _ _ _ more => exact ⟨rest, more⟩

theorem head_of_idMark (h : IsCut arg (p :: cut)) (hp : idMark <+: arg) : p = .identity := by
  cases h with
  | identity => rfl
  | address => exact absurd hp (by simp [idMark, addressMark])
  | plain c rest _ noId => exact absurd hp noId

theorem head_of_addressMark (h : IsCut arg (p :: cut)) (hp : addressMark <+: arg) :
    p = .address := by
  cases h with
  | identity => exact absurd hp (by simp [idMark, addressMark])
  | address => rfl
  | plain c rest _ _ noAddress => exact absurd hp noAddress

/-- The first of the two replacements leaves the marks of the address where they are. -/
theorem replaceAll_id (h : IsCut arg cut) (id : List Char) :
    replaceAll idMark id arg = render id addressMark cut := by
  induction h with
  | nil => rw [replaceAll_nil, render, List.flatMap_nil]
  | identity rest cut _ ih => rw [replaceAll_mark (by decide), ih, render_identity]
  | address rest cut _ ih =>
    have hnot : ¬ idMark <+: '\x7b' :: (['i', 'p', '\x7d'] ++ rest) := by simp [idMark]
    have hskip : replaceAll idMark id (addressMark ++ rest) =
        addressMark ++ replaceAll idMark id rest :=
      (replaceAll_cons hnot).trans (congrArg _ (replaceAll_append (by decide) _ id rest))
    rw [hskip, ih, render_address]
  | plain c rest cut noId _ _ ih => rw [replaceAll_cons noId, ih, render_plain]

end IsCut

structure IsIdentity (id : List Char) : Prop where
  ne_nil : id ≠ []
  char : id.all (fun c => isHexDigit c || c == '-') = true

namespace IsIdentity

variable {arg id address word : List Char} {cut : List Piece} {c : Char}

theorem not_mem (h : IsIdentity id) (hdigit : isHexDigit c = false) (hhyphen : c ≠ '-') :
    c ∉ id := by
  intro hc
  have hchar := List.all_eq_true.1 h.char c hc
  simp [hdigit, hhyphen] at hchar

theorem open_not_mem (h : IsIdentity id) : '\x7b' ∉ id := h.not_mem (by decide) (by decide)

theorem cons_prefix_render (h : IsIdentity id) (hcut : IsCut arg cut) (hc : c ∉ id)
    (hp : c :: word <+: render id addressMark cut) : c = '\x7b' ∧ addressMark <+: arg ∨
      ∃ rest more, arg = c :: rest ∧ IsCut rest more ∧ word <+: render id addressMark more := by
  cases hcut with
  | nil => exact absurd hp (by simp [render])
  | identity rest cut _ =>
    obtain ⟨d, more, rfl⟩ := List.exists_cons_of_ne_nil h.ne_nil
    rw [render_identity, List.cons_append] at hp
    have heq : c = d := (List.cons_prefix_cons.1 hp).1
    exact absurd (List.mem_cons.2 (.inl heq)) hc
  | address rest cut _ =>
    rw [render_address] at hp
    exact .inl ⟨(List.cons_prefix_cons.1 hp).1, List.prefix_append ..⟩
  | plain d rest cut _ _ more =>
    rw [render_plain] at hp
    obtain ⟨rfl, hmore⟩ := List.cons_prefix_cons.1 hp
    exact .inr ⟨rest, cut, rfl, more, hmore⟩

theorem prefix_of_prefix_render (h : IsIdentity id) (hcut : IsCut arg cut)
    (hword : ∀ c ∈ word, c ∉ id ∧ c ≠ '\x7b') (hp : word <+: render id addressMark cut) :
    word <+: arg := by
  induction word generalizing arg cut with
  | nil => exact List.nil_prefix
  | cons c word ih =>
    obtain ⟨⟨hid, hopen⟩, hmore⟩ := List.forall_mem_cons.1 hword
    rcases h.cons_prefix_render hcut hid hp with ⟨hc, -⟩ | ⟨rest, more, rfl, hcut, hp⟩
    · exact absurd hc hopen
    · exact List.cons_prefix_cons.2 ⟨rfl, ih hcut hmore hp⟩

/-- Where a mark of the address begins once the identity is put in, one began before. -/
theorem addressMark_prefix (h : IsIdentity id) (hcut : IsCut arg cut)
    (hp : addressMark <+: render id addressMark cut) : addressMark <+: arg := by
  -- What follows the opening brace of the mark cannot come from an identity.
  have hword : ∀ c ∈ ['i', 'p', '\x7d'], c ∉ id ∧ c ≠ '\x7b' := by
    intro c hc
    simp only [List.mem_cons, List.not_mem_nil, or_false] at hc
    rcases hc with rfl | rfl | rfl <;>
      exact ⟨h.not_mem (by decide) (by decide), by decide⟩
  rcases h.cons_prefix_render hcut h.open_not_mem hp with ⟨-, hmark⟩ | ⟨rest, more, rfl, hcut, hp⟩
  · exact hmark
  · exact List.cons_prefix_cons.2 ⟨rfl, h.prefix_of_prefix_render hcut hword hp⟩

theorem replaceAll_address (h : IsIdentity id) (hcut : IsCut arg cut) (address : List Char) :
    replaceAll addressMark address (render id addressMark cut) = render id address cut := by
  induction hcut with
  | nil => rw [render, List.flatMap_nil, replaceAll_nil, render, List.flatMap_nil]
  | identity rest cut _ ih =>
    rw [render_identity, addressMark, replaceAll_append h.open_not_mem, ← addressMark, ih,
      render_identity]
  | address rest cut _ ih => rw [render_address, replaceAll_mark (by decide), ih, render_address]
  | plain c rest cut noId noAddress more ih =>
    have hnot : ¬ addressMark <+: c :: render id addressMark cut := fun hp =>
      noAddress (h.addressMark_prefix (.plain c rest cut noId noAddress more) hp)
    rw [render_plain, replaceAll_cons hnot, ih, render_plain]

theorem fill_eq (h : IsIdentity id) (hcut : IsCut arg cut) (address : List Char) :
    fill id address arg = render id address cut := by
  rw [fill, hcut.replaceAll_id, h.replaceAll_address hcut]

end IsIdentity

/-- In the text of the pieces, the mark begins where this one of them is, and nowhere else. -/
def BeginsAt (mark : List Char) (p : Piece) (text : List Piece → List Char) (cut : List Piece) :
    Prop :=
  ∀ t, (t <:+ text cut ∧ mark <+: t) ↔ ∃ back, p :: back <:+ cut ∧ t = text (p :: back)

section Places

variable {id arg first second mark : List Char} {p : Piece} {cut : List Piece}

theorem render_append (front back : List Piece) :
    render first second (front ++ back) = render first second front ++ render first second back :=
  List.flatMap_append

/-- A mark begins at the pieces that it stands for, if none begins within the text of a piece, and
if the piece at whose start one begins is such a piece. -/
theorem IsCut.beginsAt (h : IsCut arg cut)
    (hmark : ∀ back, '\x7b' :: mark <+: render first second (p :: back))
    (hinside : ∀ q, '\x7b' ∉ (render first second [q]).tail)
    (hstart : ∀ rest q back, IsCut rest (q :: back) →
      '\x7b' :: mark <+: render first second (q :: back) → q = p) :
    BeginsAt ('\x7b' :: mark) p (render first second) cut := by
  intro t
  constructor
  · rintro ⟨ht, hp⟩
    induction cut generalizing arg with
    | nil =>
      obtain rfl := List.suffix_nil.1 ht
      exact absurd hp (by simp)
    | cons q cut ih =>
      have hlater (ht : t <:+ render first second cut) :
          ∃ back, p :: back <:+ q :: cut ∧ t = render first second (p :: back) := by
        obtain ⟨rest, hrest⟩ := h.tail
        obtain ⟨back, hback, heq⟩ := ih hrest ht
        exact ⟨back, hback.trans (List.suffix_cons ..), heq⟩
      obtain ⟨front, hsplit⟩ := ht
      rw [← List.singleton_append, render_append] at hsplit
      rcases List.append_eq_append_iff.1 hsplit with ⟨u, hq, rfl⟩ | ⟨u, -, hlast⟩
      · -- The place lies at the start of the piece, at its end, or in between.
        cases front with
        | nil =>
          have htext : u ++ render first second cut = render first second (q :: cut) := by
            rw [← List.singleton_append, render_append, hq, List.nil_append]
          rw [htext] at hp ⊢
          obtain rfl := hstart arg q cut h hp
          exact ⟨cut, List.suffix_rfl, rfl⟩
        | cons c front =>
          cases u with
          | nil => exact hlater List.suffix_rfl
          | cons d u =>
            obtain ⟨rfl, -⟩ := List.cons_prefix_cons.1 hp
            exact absurd (by simp [hq]) (hinside q)
      · exact hlater ⟨u, hlast.symm⟩
  · rintro ⟨back, ⟨front, rfl⟩, rfl⟩
    exact ⟨⟨render first second front, (render_append ..).symm⟩, hmark back⟩

theorem open_not_mem_tail (q : Piece) : '\x7b' ∉ (render idMark addressMark [q]).tail := by
  cases q <;> simp [render, idMark, addressMark]

theorem IsCut.beginsAt_idMark (h : IsCut arg cut) :
    BeginsAt idMark .identity (render idMark addressMark) cut := by
  refine h.beginsAt (fun back => List.prefix_append ..) open_not_mem_tail ?_
  intro rest q back hrest hp
  rw [hrest.render_marks] at hp
  exact hrest.head_of_idMark hp

theorem IsCut.beginsAt_addressMark (h : IsCut arg cut) :
    BeginsAt addressMark .address (render idMark addressMark) cut := by
  refine h.beginsAt (fun back => List.prefix_append ..) open_not_mem_tail ?_
  intro rest q back hrest hp
  rw [hrest.render_marks] at hp
  exact hrest.head_of_addressMark hp

theorem IsIdentity.beginsAt_addressMark (hid : IsIdentity id) (h : IsCut arg cut) :
    BeginsAt addressMark .address (render id addressMark) cut := by
  have hinside (q : Piece) : '\x7b' ∉ (render id addressMark [q]).tail := by
    cases q with
    | plain c => simp [render]
    | identity => simpa [render] using fun hmem => hid.open_not_mem (List.mem_of_mem_tail hmem)
    | address => simp [render, addressMark]
  refine h.beginsAt (fun back => List.prefix_append ..) hinside ?_
  intro rest q back hrest hp
  exact hrest.head_of_addressMark (hid.addressMark_prefix hrest hp)

end Places

/-- The identity and the address are put into the arguments of a machine one after the other, which
comes to the same as putting both in at once for the marks that the argument has. Its pieces are all
of the argument, with every one of its marks; and once the identity is put in, the marks of the
address are still those of the argument and no others. -/
theorem marks_are_filled_at_once (config : MachineConfig) {id : String} (hid : IsIdentity id.toList)
    (address : Ipv4) (directory : Option Path) :
    (config.launch id address directory).args = config.args.map (fun arg =>
      String.ofList (render id.toList address.renderChars (pieces arg.toList))) ∧
    ∀ arg : List Char,
      render idMark addressMark (pieces arg) = arg ∧
      BeginsAt idMark .identity (render idMark addressMark) (pieces arg) ∧
      BeginsAt addressMark .address (render idMark addressMark) (pieces arg) ∧
      replaceAll idMark id.toList arg = render id.toList addressMark (pieces arg) ∧
      BeginsAt addressMark .address (render id.toList addressMark) (pieces arg) := by
  constructor
  · refine List.map_congr_left fun arg _ => ?_
    rw [hid.fill_eq (isCut_pieces arg.toList)]
  · intro arg
    have hcut := isCut_pieces arg
    exact ⟨hcut.render_marks, hcut.beginsAt_idMark, hcut.beginsAt_addressMark,
      hcut.replaceAll_id id.toList, hid.beginsAt_addressMark hcut⟩

/-- A machine whose arguments have braces and parts of marks around their marks. -/
def bracedMachine : MachineConfig :=
  { MachineConfig.defaults "/home" with
    args := ["\x7bi\x7bid\x7dp\x7d", "\x7b\x7bip\x7d", "\x7bip\x7bid\x7d-\x7bip\x7d"] }

theorem braced_marks_are_filled :
    IsIdentity "3f-d".toList ∧
      (bracedMachine.launch "3f-d" (.ofBytes 10 0 0 2) none).args =
        ["\x7bi3f-dp\x7d", "\x7b10.0.0.2", "\x7bip3f-d-10.0.0.2"] ∧
      BeginsAt addressMark .address (render "3f-d".toList addressMark)
        (pieces "\x7bip\x7bid\x7d-\x7bip\x7d".toList) := by
  have hid : IsIdentity "3f-d".toList := ⟨by decide, by decide⟩
  have hfilled := marks_are_filled_at_once bracedMachine hid (.ofBytes 10 0 0 2) none
  obtain ⟨-, -, -, -, hplaces⟩ := hfilled.2 "\x7bip\x7bid\x7d-\x7bip\x7d".toList
  exact ⟨hid, hfilled.1.trans (by decide +kernel), hplaces⟩

end Launch

end MachineFleet
