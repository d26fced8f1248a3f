import MachineFleet.Data.Dict
import Mathlib.Data.List.Nodup
import Mathlib.Data.List.Perm.Basic

namespace MachineFleet.Dict

variable {α : Type} {d : Dict α} {key key' : String} {value value' : α}

theorem mem_insertEntry_self (entries : List (String × α)) :
    (key, value) ∈ insertEntry key value entries := by
  induction entries with
  | nil => simp [insertEntry]
  | cons head rest ih =>
    rw [insertEntry]
    split
    · simp
    · split
      · simp
      · exact List.mem_cons_of_mem _ ih

theorem mem_insertEntry_of_ne {entries : List (String × α)} (h : (key', value') ∈ entries)
    (hne : key' ≠ key) : (key', value') ∈ insertEntry key value entries := by
  induction entries with
  | nil => cases h
  | cons head rest ih =>
    rw [insertEntry]
    split
    · exact List.mem_cons_of_mem _ h
    · split
      · rename_i heq
        rcases List.mem_cons.1 h with rfl | h
        · exact absurd heq.symm hne
        · exact List.mem_cons_of_mem _ h
      · rcases List.mem_cons.1 h with rfl | h
        · exact List.mem_cons_self ..
        · exact List.mem_cons_of_mem _ (ih h)

theorem eq_of_mem_sorted {entries : List (String × α)}
    (hs : entries.Pairwise (fun a b => a.1 < b.1)) (h : (key, value) ∈ entries)
    (h' : (key, value') ∈ entries) : value = value' := by
  induction hs with
  | nil => cases h
  | @cons head rest hlt _ ih =>
    rcases List.mem_cons.1 h with h | h <;> rcases List.mem_cons.1 h' with h' | h'
    · exact congrArg Prod.snd (h.trans h'.symm)
    · exact absurd (h ▸ hlt _ h') (String.lt_irrefl _)
    · exact absurd (h' ▸ hlt _ h) (String.lt_irrefl _)
    · exact ih h h'

theorem find?_eq_some_iff : d.find? key = some value ↔ (key, value) ∈ d.entries := by
  constructor
  · intro h
    obtain ⟨⟨k, v⟩, he, rfl⟩ := Option.map_eq_some_iff.1 h
    obtain rfl : k = key := by simpa using List.find?_some he
    exact List.mem_of_find?_eq_some he
  · intro h
    cases hf : d.entries.find? (·.1 == key) with
    | none =>
      have := List.find?_eq_none.1 hf _ h
      simp at this
    | some e =>
      obtain ⟨k, v⟩ := e
      obtain rfl : k = key := by simpa using List.find?_some hf
      rw [find?, hf, eq_of_mem_sorted d.sorted (List.mem_of_find?_eq_some hf) h]
      rfl

theorem find?_insert :
    (d.insert key value).find? key' = if key' = key then some value else d.find? key' := by
  split
  · rename_i h
    rw [h, find?_eq_some_iff]
    exact mem_insertEntry_self _
  · rename_i hne
    refine Option.ext fun v => ?_
    rw [find?_eq_some_iff, find?_eq_some_iff]
    constructor
    · intro h
      rcases mem_insertEntry h with h | h
      · exact absurd (congrArg Prod.fst h) hne
      · exact h
    · exact fun h => mem_insertEntry_of_ne h hne

theorem find?_erase :
    (d.erase key).find? key' = if key' = key then none else d.find? key' := by
  refine Option.ext fun v => ?_
  rw [find?_eq_some_iff, erase, List.mem_filter]
  split
  · rename_i h
    simp [h]
  · rename_i hne
    simp [find?_eq_some_iff, hne]

theorem find?_foldl_insert (entries : List (String × α)) (d : Dict α) :
    (entries.foldl (fun d e => d.insert e.1 e.2) d).find? key =
      ((entries.reverse.find? (·.1 == key)).map (·.2)).or (d.find? key) := by
  induction entries generalizing d with
  | nil => simp
  | cons e entries ih =>
    rw [List.foldl_cons, ih, find?_insert, List.reverse_cons, List.find?_append]
    by_cases he : e.1 = key
    · cases entries.reverse.find? (·.1 == key) <;> simp [he]
    · cases entries.reverse.find? (·.1 == key) <;> simp [he, Ne.symm he]

theorem find?_ofList (entries : List (String × α)) :
    (ofList entries).find? key = (entries.reverse.find? (·.1 == key)).map (·.2) := by
  rw [ofList, find?_foldl_insert]
  exact Option.or_none

theorem find?_ofList_eq_some_iff {entries : List (String × α)}
    (hunique : ∀ v v', (key, v) ∈ entries → (key, v') ∈ entries → v = v') :
    (ofList entries).find? key = some value ↔ (key, value) ∈ entries := by
  rw [find?_ofList]
  constructor
  · intro h
    obtain ⟨⟨k, v⟩, he, rfl⟩ := Option.map_eq_some_iff.1 h
    obtain rfl : k = key := by simpa using List.find?_some he
    exact List.mem_reverse.1 (List.mem_of_find?_eq_some he)
  · intro h
    cases hf : entries.reverse.find? (·.1 == key) with
    | none =>
      have hmiss := List.find?_eq_none.1 hf _ (List.mem_reverse.2 h)
      simp at hmiss
    | some e =>
      obtain ⟨k, v⟩ := e
      obtain rfl : k = key := by simpa using List.find?_some hf
      have hmem := List.mem_reverse.1 (List.mem_of_find?_eq_some hf)
      rw [Option.map_some, hunique v value hmem h]

theorem nodup_entries (d : Dict α) : d.entries.Nodup := by
  apply d.sorted.imp
  rintro a b hlt rfl
  exact String.lt_irrefl _ hlt

theorem eq_of_find? {d d' : Dict α} (h : ∀ key, d.find? key = d'.find? key) : d = d' := by
  have hmem : ∀ e : String × α, e ∈ d.entries ↔ e ∈ d'.entries := by
    intro e
    rw [← find?_eq_some_iff, ← find?_eq_some_iff, h e.1]
  have hperm : d.entries.Perm d'.entries :=
    (List.perm_ext_iff_of_nodup d.nodup_entries d'.nodup_entries).2 hmem
  apply ext
  apply hperm.eq_of_pairwise _ d.sorted d'.sorted
  intro a b _ _ hab hba
  exact absurd (String.lt_trans hab hba) (String.lt_irrefl _)

/-- A map is made from its entries in any order. -/
theorem ofList_of_perm {entries : List (String × α)} (h : entries.Perm d.entries) :
    ofList entries = d := by
  apply eq_of_find?
  intro key
  apply Option.ext
  intro value
  have hunique : ∀ v v', (key, v) ∈ entries → (key, v') ∈ entries → v = v' :=
    fun v v' hv hv' => eq_of_mem_sorted d.sorted (h.mem_iff.1 hv) (h.mem_iff.1 hv')
  rw [find?_ofList_eq_some_iff hunique, find?_eq_some_iff, h.mem_iff]

theorem entries_ofList_perm {entries : List (String × α)}
    (hkeys : (entries.map (·.1)).Nodup) : (ofList entries).entries.Perm entries := by
  refine (List.perm_ext_iff_of_nodup (nodup_entries _) hkeys.of_map).2 fun e => ?_
  rw [← find?_eq_some_iff]
  apply find?_ofList_eq_some_iff
  intro v v' hv hv'
  exact congrArg Prod.snd (List.inj_on_of_nodup_map hkeys hv hv' rfl)

/-- The map without the entries that are left out. -/
def without (omitted : List String → Bool) (d : Dict α) : Dict α where
  entries := d.entries.filter fun e => !omitted [e.1]
  sorted := d.sorted.filter _

@[simp] theorem without_nothing (d : Dict α) : d.without (fun _ => false) = d :=
  ext (List.filter_eq_self.2 fun _ _ => rfl)

end MachineFleet.Dict
