import MachineFleet.Fleet.Registry
import MachineFleet.Proofs.Data.Dict

namespace MachineFleet.Registry

variable {γ : Type} {r r' : Registry γ} {id id' : String} {e : Entry γ}

theorem id_of_get? (h : r.get? id = some e) : e.id = id :=
  r.keyed _ (Dict.find?_eq_some_iff.1 h)

theorem mem_snapshot : e ∈ r.snapshot ↔ r.get? e.id = some e := by
  rw [get?, Dict.find?_eq_some_iff, snapshot, List.mem_map]
  constructor
  · rintro ⟨⟨key, e⟩, h, rfl⟩
    obtain rfl : e.id = key := r.keyed _ h
    exact h
  · exact fun h => ⟨_, h, rfl⟩

theorem mem_snapshot_of_get? (h : r.get? id = some e) : e ∈ r.snapshot := by
  rw [mem_snapshot, id_of_get? h]
  exact h

theorem get?_put : (r.put e).get? id = if id = e.id then some e else r.get? id :=
  Dict.find?_insert

theorem get?_remove : (r.remove id').get? id = if id = id' then none else r.get? id :=
  Dict.find?_erase

theorem get?_setReady {ready : Bool} :
    (r.setReady id' ready).get? id =
      if id = id' then (r.get? id).map fun e => { e with ready } else r.get? id := by
  unfold setReady
  split
  · rename_i entry h
    have hid : entry.id = id' := id_of_get? h
    subst hid
    rw [get?_put]
    split
    · rename_i heq
      rw [heq, h]
      rfl
    · rfl
  · rename_i h
    split
    · rename_i heq
      rw [heq, h]
      rfl
    · rfl

theorem eq_of_get? (h : ∀ id, r.get? id = r'.get? id) : r = r' := by
  obtain ⟨entries, keyed⟩ := r
  obtain ⟨entries', keyed'⟩ := r'
  obtain rfl : entries = entries' := Dict.eq_of_find? h
  rfl

theorem remove_of_get?_eq_none (h : r.get? id = none) : r.remove id = r := by
  apply eq_of_get?
  intro id'
  rw [get?_remove]
  split
  · rename_i heq
    rw [heq, h]
  · rfl

/-- A machine that is taken in has an identity of its own, and its controller runs. -/
theorem eq_put_of_add {c : γ} {exited : Bool} {address : IpAddress}
    (h : r.add id c exited address = .ok r') :
    id ≠ "" ∧ exited = false ∧ r.get? id = none ∧ r' = r.put ⟨id, c, address, false⟩ := by
  unfold add at h
  split at h
  · cases h
  · rename_i hid
    split at h
    · cases h
    · rename_i hx
      split at h
      · cases h
      · rename_i hf
        cases h
        exact ⟨by simpa using hid, by simpa using hx, by simpa [get?] using hf, rfl⟩

theorem pairwise_snapshot (r : Registry γ) : r.snapshot.Pairwise (·.id < ·.id) := by
  rw [snapshot, List.pairwise_map]
  apply r.entries.sorted.imp_of_mem
  intro a b ha hb hlt
  rwa [r.keyed a ha, r.keyed b hb]

theorem nodup_ids (r : Registry γ) : (r.snapshot.map (·.id)).Nodup := by
  apply List.pairwise_map.2
  apply r.pairwise_snapshot.imp
  intro a b hlt heq
  exact String.lt_irrefl _ (heq ▸ hlt)

theorem mem_readyEntries : e ∈ r.readyEntries ↔ r.get? e.id = some e ∧ e.ready = true := by
  rw [readyEntries, List.mem_filter, mem_snapshot]

theorem size_eq_length (r : Registry γ) : r.size = r.snapshot.length :=
  (List.length_map ..).symm

end MachineFleet.Registry
