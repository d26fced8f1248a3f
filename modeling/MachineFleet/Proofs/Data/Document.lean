import MachineFleet.Config.Record
import MachineFleet.Proofs.Data.Dict
import MachineFleet.Proofs.Data.Json
import Mathlib.Data.List.Perm.Basic

/-!
Records that are read from JSON. The fields of a record may stand in any order, at every level, and
some of them may be left out.
-/
namespace MachineFleet

namespace Json

mutual

/-- The values differ at most in the order in which their records give their fields. -/
inductive Rearranges : Json → Json → Prop where
  | refl (v : Json) : Rearranges v v
  | shuffle {fields shuffled written : List (String × Json)} (order : fields.Perm shuffled)
      (inner : FieldsRearrange shuffled written) : Rearranges (.record fields) (.record written)

inductive FieldsRearrange : List (String × Json) → List (String × Json) → Prop where
  | nil : FieldsRearrange [] []
  | cons {name : String} {v w : Json} {fields written : List (String × Json)}
      (value : Rearranges v w) (rest : FieldsRearrange fields written) :
      FieldsRearrange ((name, v) :: fields) ((name, w) :: written)

end

mutual

/-- The value without the fields that are left out. A field goes by the names that lead to it. -/
def without (omitted : List String → Bool) : Json → Json
  | record fields => record (fieldsWithout omitted fields)
  | v => v

def fieldsWithout (omitted : List String → Bool) : List (String × Json) → List (String × Json)
  | [] => []
  | (name, v) :: rest =>
    if omitted [name] then fieldsWithout omitted rest
    else (name, v.without fun path => omitted (name :: path)) :: fieldsWithout omitted rest

end

variable {v w : Json} {fields written : List (String × Json)} {omitted : List String → Bool}
  {name : String} {f : String × Json}

theorem fieldsWithout_eq : fieldsWithout omitted fields =
    (fields.filter fun f => !omitted [f.1]).map fun f =>
      (f.1, f.2.without fun path => omitted (f.1 :: path)) := by
  induction fields with
  | nil => rfl
  | cons f rest ih =>
    obtain ⟨name, v⟩ := f
    rw [fieldsWithout, ih]
    cases homit : omitted [name] with
    | true => simp [homit]
    | false => simp [homit]

mutual

@[simp] theorem without_nothing : ∀ v : Json, v.without (fun _ => false) = v
  | .record fields => congrArg record (fieldsWithout_nothing fields)
  | .null => rfl
  | .bool _ => rfl
  | .integer _ => rfl
  | .real _ => rfl
  | .text _ => rfl
  | .list _ => rfl

@[simp] theorem fieldsWithout_nothing : ∀ fields : List (String × Json),
    fieldsWithout (fun _ => false) fields = fields
  | [] => rfl
  | (name, v) :: rest => by
    rw [fieldsWithout, without_nothing v, fieldsWithout_nothing rest]
    rfl

end

theorem mem_fieldsWithout : f ∈ fieldsWithout omitted fields ↔
    ∃ v, (f.1, v) ∈ fields ∧ omitted [f.1] = false ∧
      f.2 = v.without fun path => omitted (f.1 :: path) := by
  obtain ⟨name, w⟩ := f
  rw [fieldsWithout_eq]
  simp only [List.mem_map, List.mem_filter, Bool.not_eq_true', Prod.exists, Prod.mk.injEq]
  constructor
  · rintro ⟨name, v, ⟨hmem, homit⟩, rfl, rfl⟩
    exact ⟨v, hmem, homit, rfl⟩
  · rintro ⟨v, hmem, homit, rfl⟩
    exact ⟨name, v, ⟨hmem, homit⟩, rfl, rfl⟩

theorem nodup_fieldsWithout (omitted : List String → Bool) (hd : (fields.map (·.1)).Nodup) :
    ((fieldsWithout omitted fields).map (·.1)).Nodup := by
  rw [fieldsWithout_eq, List.map_map]
  exact hd.sublist (List.filter_sublist.map _)

theorem FieldsRearrange.refl : ∀ fields : List (String × Json), FieldsRearrange fields fields
  | [] => .nil
  | (_, v) :: rest => .cons (.refl v) (refl rest)

theorem FieldsRearrange.names_eq (h : FieldsRearrange fields written) :
    written.map (·.1) = fields.map (·.1) := by
  induction fields generalizing written with
  | nil =>
    cases h
    rfl
  | cons f rest ih =>
    cases h with
    | cons _ hrest => rw [List.map_cons, List.map_cons, ih hrest]

theorem FieldsRearrange.exists_mem (h : FieldsRearrange fields written) (hv : (name, v) ∈ fields) :
    ∃ w, (name, w) ∈ written ∧ v.Rearranges w := by
  induction fields generalizing written with
  | nil => cases hv
  | cons f rest ih =>
    cases h with
    | @cons _ _ w _ _ hvalue hrest =>
      rcases List.mem_cons.1 hv with hv | hv
      · obtain ⟨rfl, rfl⟩ := Prod.mk.inj hv
        exact ⟨w, List.mem_cons_self, hvalue⟩
      · obtain ⟨w, hw, hvalue⟩ := ih hrest hv
        exact ⟨w, List.mem_cons_of_mem _ hw, hvalue⟩

theorem Rearranges.eq_of_not_record (h : v.Rearranges w) (hv : ∀ fields, v ≠ record fields) :
    w = v := by
  cases h with
  | refl => rfl
  | shuffle => exact absurd rfl (hv _)

theorem Rearranges.exists_fields (h : (record fields).Rearranges w) :
    ∃ shuffled written, w = record written ∧ fields.Perm shuffled ∧
      FieldsRearrange shuffled written := by
  cases h with
  | refl => exact ⟨fields, fields, rfl, .refl _, .refl _⟩
  | @shuffle _ shuffled written order inner => exact ⟨shuffled, written, rfl, order, inner⟩

theorem areExact_iff {items : List Json} : AreExact items ↔ ∀ item ∈ items, item.IsExact := by
  induction items with
  | nil => simp [AreExact]
  | cons item rest ih => simp [AreExact, ih]

theorem isExact_texts (texts : List String) : (list (texts.map text)).IsExact := by
  apply areExact_iff.2
  intro item hitem
  obtain ⟨s, -, rfl⟩ := List.mem_map.1 hitem
  trivial

theorem isExact_ofNat {n : Nat} (h : n < 0x10000000000000000) : (ofNat n).IsExact := by
  constructor
  · omega
  · omega

theorem isExact_uint16 (n : UInt16) : (ofNat n.toNat).IsExact := by
  have hlt := n.toNat_lt
  exact isExact_ofNat (by omega)

theorem isExact_uint32 (n : UInt32) : (ofNat n.toNat).IsExact := by
  have hlt := n.toNat_lt
  exact isExact_ofNat (by omega)

theorem isExact_uint64 (n : UInt64) : (ofNat n.toNat).IsExact :=
  isExact_ofNat n.toNat_lt

theorem fieldsExact_iff : FieldsExact fields ↔ ∀ f ∈ fields, f.2.IsExact := by
  induction fields with
  | nil => simp [FieldsExact]
  | cons f rest ih =>
    obtain ⟨name, v⟩ := f
    simp [FieldsExact, ih]

mutual

theorem IsExact.rearranges : ∀ {v w : Json}, v.Rearranges w → v.IsExact → w.IsExact
  | _, _, .refl _, h => h
  | _, _, .shuffle order inner, h =>
    FieldsExact.rearrange inner (fieldsExact_iff.2 fun f hf =>
      fieldsExact_iff.1 h f (order.mem_iff.2 hf))

theorem FieldsExact.rearrange : ∀ {fields written : List (String × Json)},
    FieldsRearrange fields written → FieldsExact fields → FieldsExact written
  | _, _, .nil, h => h
  | _, _, .cons value rest, h => ⟨IsExact.rearranges value h.1, FieldsExact.rearrange rest h.2⟩

end

mutual

theorem IsExact.without : ∀ {v : Json} (omitted : List String → Bool), v.IsExact →
    (v.without omitted).IsExact
  | .record _, omitted, h => FieldsExact.fieldsWithout omitted h
  | .null, _, h => h
  | .bool _, _, h => h
  | .integer _, _, h => h
  | .real _, _, h => h
  | .text _, _, h => h
  | .list _, _, h => h

theorem FieldsExact.fieldsWithout : ∀ {fields : List (String × Json)}
    (omitted : List String → Bool), FieldsExact fields →
    FieldsExact (Json.fieldsWithout omitted fields)
  | [], _, h => h
  | (name, v) :: rest, omitted, h => by
    rw [Json.fieldsWithout]
    split
    · exact FieldsExact.fieldsWithout omitted h.2
    · exact ⟨IsExact.without _ h.1, FieldsExact.fieldsWithout omitted h.2⟩

end

theorem isExact_dict {α : Type} (write : α → Json) (h : ∀ a, (write a).IsExact) (d : Dict α) :
    (d.toJson write).IsExact := by
  apply fieldsExact_iff.2
  intro f hf
  obtain ⟨e, -, rfl⟩ := List.mem_map.1 hf
  exact h e.2

/-- The value is read as this, in whatever order its fields are given. -/
def ReadsAs {α : Type} (value? : Document → Option α) (v : Json) (a : α) : Prop :=
  ∀ w, v.Rearranges w → value? w.document = some a

def IsRefused {α : Type} (value? : Document → Option α) (v : Json) : Prop :=
  ∀ w, v.Rearranges w → value? w.document = none

section ReadsAs

variable {α : Type} {value? : Document → Option α} {a : α}

theorem readsAs_of_not_record (hv : ∀ fields, v ≠ record fields)
    (h : value? v.document = some a) : v.ReadsAs value? a := by
  intro w hw
  rw [hw.eq_of_not_record hv, h]

theorem readsAs_text (s : String) : (text s).ReadsAs Document.text? s :=
  readsAs_of_not_record nofun rfl

theorem readsAs_bool (b : Bool) : (bool b).ReadsAs Document.truth? b :=
  readsAs_of_not_record nofun rfl

theorem natural?_ofNat {bound n : Nat} (h : n < bound) :
    (ofNat n).document.natural? bound = some n := by
  have hscalar : Scalar.ofInteger n = ⟨none, some n, none, false, false⟩ := by
    simp [Scalar.ofInteger]
  simp [ofNat, document, Document.natural?, hscalar, h]

theorem readsAs_uint16 (n : UInt16) : (ofNat n.toNat).ReadsAs Document.uint16? n := by
  refine readsAs_of_not_record nofun ?_
  rw [Document.uint16?, natural?_ofNat n.toNat_lt_size, Option.map_some, UInt16.ofNat_toNat]

theorem readsAs_uint32 (n : UInt32) : (ofNat n.toNat).ReadsAs Document.uint32? n := by
  refine readsAs_of_not_record nofun ?_
  rw [Document.uint32?, natural?_ofNat n.toNat_lt_size, Option.map_some, UInt32.ofNat_toNat]

theorem readsAs_uint64 (n : UInt64) : (ofNat n.toNat).ReadsAs Document.uint64? n := by
  refine readsAs_of_not_record nofun ?_
  rw [Document.uint64?, natural?_ofNat n.toNat_lt_size, Option.map_some, UInt64.ofNat_toNat]

theorem readsAs_texts (texts : List String) :
    (list (texts.map text)).ReadsAs Document.texts? texts := by
  refine readsAs_of_not_record nofun ?_
  have hitems : (documents (texts.map text)).mapM Document.text? = some texts := by
    induction texts with
    | nil => rfl
    | cons s texts ih =>
      rw [List.map_cons, documents, List.mapM_cons, ih]
      rfl
  rw [document, Document.texts?]
  exact hitems

theorem optional?_document (h : (record fields).Rearranges w) :
    w.document.optional? value? = (value? w.document).map some := by
  obtain ⟨shuffled, written, rfl, -, -⟩ := h.exists_fields
  rfl

theorem ReadsAs.optional (h : (record fields).ReadsAs value? a) :
    (record fields).ReadsAs (Document.optional? value?) (some a) := by
  intro w hw
  rw [optional?_document hw, h w hw, Option.map_some]

theorem IsRefused.optional (h : (record fields).IsRefused value?) :
    (record fields).IsRefused (Document.optional? value?) := by
  intro w hw
  rw [optional?_document hw, h w hw, Option.map_none]

end ReadsAs

theorem get?_cons {key : String} {d : Document} {fs : Fields} :
    Fields.get? ((key, d) :: fs) name = if key = name then some d else Fields.get? fs name := by
  rw [Fields.get?, List.find?_cons]
  by_cases h : key = name
  · simp [h]
  · have hne : (key == name) = false := by simpa using h
    rw [hne, if_neg h, Fields.get?]

theorem exists_ofEntries? (names : List String) (hd : (written.map (·.1)).Nodup) :
    ∃ fs, Fields.ofEntries? names (entryDocuments written) = some fs ∧ ∀ name,
      (∀ v, (name, v) ∈ written → name ∈ names → fs.get? name = some v.document) ∧
      (name ∉ written.map (·.1) → fs.get? name = none) := by
  induction written with
  | nil => exact ⟨[], rfl, fun name => ⟨fun v hv => absurd hv List.not_mem_nil, fun _ => rfl⟩⟩
  | cons f rest ih =>
    obtain ⟨key, v⟩ := f
    obtain ⟨hkey, hrest⟩ := List.nodup_cons.1 hd
    obtain ⟨fs, hfs, hget⟩ := ih hrest
    have hread : Fields.ofEntries? names (entryDocuments ((key, v) :: rest)) =
        if key ∈ names then some ((key, v.document) :: fs) else some fs := by
      have hmissing : (fs.get? key).isSome = false := by
        rw [(hget key).2 hkey, Option.isSome_none]
      rw [entryDocuments, Fields.ofEntries?, hfs]
      simp [Document.text?, Scalar.ofText, hmissing]
    by_cases hk : key ∈ names
    · refine ⟨(key, v.document) :: fs, by rw [hread, if_pos hk], fun name => ⟨?_, ?_⟩⟩
      · intro w hw hname
        rw [get?_cons]
        rcases List.mem_cons.1 hw with heq | hw
        · obtain ⟨rfl, rfl⟩ := Prod.mk.inj heq
          rw [if_pos rfl]
        · have hne : key ≠ name := by
            intro heq
            exact hkey (heq ▸ List.mem_map.2 ⟨(name, w), hw, rfl⟩)
          rw [if_neg hne, (hget name).1 w hw hname]
      · intro hname
        rw [List.map_cons, List.mem_cons, not_or] at hname
        rw [get?_cons, if_neg (Ne.symm hname.1), (hget name).2 hname.2]
    · -- A name that is not asked for is passed over.
      refine ⟨fs, by rw [hread, if_neg hk], fun name => ⟨?_, ?_⟩⟩
      · intro w hw hname
        rcases List.mem_cons.1 hw with heq | hw
        · obtain ⟨rfl, rfl⟩ := Prod.mk.inj heq
          exact absurd hname hk
        · exact (hget name).1 w hw hname
      · intro hname
        rw [List.map_cons, List.mem_cons, not_or] at hname
        exact (hget name).2 hname.2

/-- What is known of the fields that are read from a record: those that are left out and those that
it does not have are missing, and the others are there. -/
structure Given (names : List String) (omitted : List String → Bool)
    (fields : List (String × Json)) (fs : Fields) : Prop where
  missing : ∀ name, omitted [name] = true ∨ name ∉ fields.map (·.1) → fs.get? name = none
  present : ∀ name v, (name, v) ∈ fields → name ∈ names → omitted [name] = false →
    ∃ w, Rearranges (v.without fun path => omitted (name :: path)) w ∧
      fs.get? name = some w.document

theorem exists_given (form : RecordForm) (names : List String)
    (h : ((record fields).without omitted).Rearranges w) (hd : (fields.map (·.1)).Nodup) :
    ∃ fs, w.document.fields? form names = some fs ∧ Given names omitted fields fs := by
  rw [without] at h
  obtain ⟨shuffled, written, rfl, order, inner⟩ := h.exists_fields
  have hnames : (written.map (·.1)).Perm ((fieldsWithout omitted fields).map (·.1)) := by
    rw [inner.names_eq]
    exact (order.map _).symm
  obtain ⟨fs, hfs, hget⟩ := exists_ofEntries? names
    (hnames.nodup_iff.2 (nodup_fieldsWithout omitted hd))
  refine ⟨fs, ?_, ?_, ?_⟩
  · rw [document]
    cases form with
    | tableOnly => exact hfs
    | tableOrList => exact hfs
  · intro name hname
    apply (hget name).2
    rw [hnames.mem_iff, List.mem_map]
    rintro ⟨f, hf, rfl⟩
    obtain ⟨v, hv, homit, -⟩ := mem_fieldsWithout.1 hf
    rcases hname with homit' | hnot
    · exact absurd (homit.symm.trans homit') Bool.false_ne_true
    · exact hnot (List.mem_map.2 ⟨(f.1, v), hv, rfl⟩)
  · intro name v hv hname homit
    have hkept : (name, v.without fun path => omitted (name :: path)) ∈
        fieldsWithout omitted fields := mem_fieldsWithout.2 ⟨v, hv, homit, rfl⟩
    obtain ⟨w, hw, hvalue⟩ := inner.exists_mem (order.mem_iff.1 hkept)
    exact ⟨w, hvalue, (hget name).1 w hw hname⟩

namespace Given

variable {α : Type} {value? : Document → Option α} {a : α} {names : List String} {fs : Fields}

theorem getD_eq_of_kept (h : Given names omitted fields fs) (name : String) (v : Json)
    (hv : (name, v) ∈ fields) (hname : name ∈ names)
    (hread : omitted [name] = false →
      (v.without fun path => omitted (name :: path)).ReadsAs value? a) (default : α) :
    fs.getD name value? default = some (if omitted [name] then default else a) := by
  cases homit : omitted [name] with
  | true =>
    rw [Fields.getD, h.missing name (.inl homit)]
    rfl
  | false =>
    obtain ⟨w, hw, hget⟩ := h.present name v hv hname homit
    rw [Fields.getD, hget]
    exact hread homit w hw

theorem getD_eq (h : Given names omitted fields fs) (name : String) (v : Json)
    (hv : (name, v) ∈ fields) (hname : name ∈ names)
    (hread : (v.without fun path => omitted (name :: path)).ReadsAs value? a) (default : α) :
    fs.getD name value? default = some (if omitted [name] then default else a) :=
  h.getD_eq_of_kept name v hv hname (fun _ => hread) default

theorem getD_eq_default (h : Given names omitted fields fs) (name : String)
    (hname : name ∉ fields.map (·.1)) (default : α) :
    fs.getD name value? default = some default := by
  rw [Fields.getD, h.missing name (.inr hname)]

theorem getD_eq_none (h : Given names omitted fields fs) (name : String) (v : Json)
    (hv : (name, v) ∈ fields) (hname : name ∈ names) (homit : omitted [name] = false)
    (hread : (v.without fun path => omitted (name :: path)).IsRefused value?) (default : α) :
    fs.getD name value? default = none := by
  obtain ⟨w, hw, hget⟩ := h.present name v hv hname homit
  rw [Fields.getD, hget]
  exact hread w hw

theorem require_eq (h : Given names omitted fields fs) (name : String) (v : Json)
    (hv : (name, v) ∈ fields) (hname : name ∈ names) (homit : omitted [name] = false)
    (hread : (v.without fun path => omitted (name :: path)).ReadsAs value? a) :
    fs.require name value? = some a := by
  obtain ⟨w, hw, hget⟩ := h.present name v hv hname homit
  rw [Fields.require, hget, Option.bind_some]
  exact hread w hw

theorem require_eq_none (h : Given names omitted fields fs) (homit : omitted [name] = true) :
    fs.require name value? = none := by
  rw [Fields.require, h.missing name (.inl homit), Option.bind_none]

end Given

theorem exists_perm_of_map {α β : Type} {g : α → β} {l : List α} {m : List β}
    (h : (l.map g).Perm m) : ∃ l' : List α, l'.Perm l ∧ m = l'.map g := by
  have himage : List.Forall₂ (fun b a => b = g a) (l.map g) l :=
    List.forall₂_map_left_iff.2 (List.forall₂_same.2 fun _ _ => rfl)
  obtain ⟨l', hl', hperm⟩ := List.perm_comp_forall₂ h.symm himage
  refine ⟨l', hperm, ?_⟩
  rw [← List.forall₂_eq_eq_eq, List.forall₂_map_right_iff]
  exact hl'

section Maps

variable {α : Type} {value? : Document → Option α} (write : α → Json)

theorem mapM_entryDocuments {entries : List (String × α)}
    (hread : ∀ e ∈ entries,
      ((write e.2).without fun path => omitted (e.1 :: path)).ReadsAs value? e.2)
    (h : FieldsRearrange (entries.map fun e =>
      (e.1, (write e.2).without fun path => omitted (e.1 :: path))) written) :
    ((entryDocuments written).mapM fun (key, value) => do
      return (← key.text?, ← value? value)) = some entries := by
  induction entries generalizing written with
  | nil =>
    cases h
    rfl
  | cons e entries ih =>
    obtain ⟨hfirst, hmore⟩ := List.forall_mem_cons.1 hread
    cases h with
    | cons hvalue hrest =>
      rw [entryDocuments, List.mapM_cons, ih hmore hrest]
      simp only [hfirst _ hvalue]
      rfl

theorem readsAs_dict (hread : ∀ a omitted, ((write a).without omitted).ReadsAs value? a)
    (d : Dict α) (omitted : List String → Bool) :
    ((d.toJson write).without omitted).ReadsAs (Document.dict? value?) (d.without omitted) := by
  intro w hw
  rw [Dict.toJson, without] at hw
  obtain ⟨shuffled, written, rfl, order, inner⟩ := hw.exists_fields
  have hkept : fieldsWithout omitted (d.entries.map fun e => (e.1, write e.2)) =
      (d.without omitted).entries.map fun e =>
        (e.1, (write e.2).without fun path => omitted (e.1 :: path)) := by
    rw [fieldsWithout_eq, List.filter_map, List.map_map]
    rfl
  rw [hkept] at order
  obtain ⟨entries, hperm, rfl⟩ := exists_perm_of_map order
  have hentries := mapM_entryDocuments write (fun e _ => hread e.2 _) inner
  rw [document, Document.dict?, Document.entries?]
  rw [Option.bind_eq_bind, Option.bind_some, Option.bind_eq_bind, hentries, Option.bind_some,
    Dict.ofList_of_perm hperm]
  rfl

end Maps

end Json

end MachineFleet
