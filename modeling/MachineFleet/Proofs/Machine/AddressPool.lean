import Mathlib.Data.Set.Card
import MachineFleet.Config
import MachineFleet.Machine.AddressPool
import MachineFleet.Proofs.Config
import MachineFleet.Proofs.Net.Subnet
import MachineFleet.Proofs.Run

namespace MachineFleet

namespace Subnet

/-- An address that belongs to the subnet and is not set apart. -/
def Leasable (s : Subnet) (ip : Ipv4) : Prop :=
  s.Contains ip ∧ ip.value ≠ s.network ∧ ip.value ≠ s.gateway ∧ ip.value ≠ s.broadcast

def capacity (s : Subnet) : Nat := if s.bits ≤ 30 then 2 ^ (32 - s.bits) - 3 else 0

def leasables (s : Subnet) : List Ipv4 := (List.range' (s.network + 2) s.capacity).map .ofNat

variable {s : Subnet} {ip : Ipv4}

theorem leasable_iff : s.Leasable ip ↔ s.network + 1 < ip.value ∧ ip.value < s.broadcast := by
  have hlt := ip.value_lt
  rw [Leasable, contains_iff, gateway]
  omega

theorem capacity_eq (s : Subnet) : s.capacity = s.size - 3 := by
  have hpos := s.size_pos
  have hsize := s.size_eq
  unfold capacity
  split
  · rw [hsize]
  · rename_i h
    rw [← four_le_size_iff] at h
    omega

theorem mem_leasables : ip ∈ s.leasables ↔ s.Leasable ip := by
  have hbroadcast := s.broadcast_lt
  have hlast : s.broadcast = s.network + (s.size - 1) := rfl
  simp only [leasables, List.mem_map, List.mem_range'_1, leasable_iff, capacity_eq]
  constructor
  · rintro ⟨n, hn, rfl⟩
    rw [Ipv4.value_ofNat (by omega)]
    omega
  · intro h
    exact ⟨ip.value, by omega, Ipv4.ofNat_value ip⟩

theorem nodup_leasables (s : Subnet) : s.leasables.Nodup := by
  have hbroadcast := s.broadcast_lt
  have hlast : s.broadcast = s.network + (s.size - 1) := rfl
  refine List.Nodup.map_on ?_ List.nodup_range'
  intro a ha b hb hab
  rw [List.mem_range'_1, capacity_eq] at ha hb
  have hvalue := congrArg Ipv4.value hab
  rwa [Ipv4.value_ofNat (by omega), Ipv4.value_ofNat (by omega)] at hvalue

@[simp] theorem length_leasables (s : Subnet) : s.leasables.length = s.capacity := by
  simp [leasables]

theorem ncard_leasable (s : Subnet) : {ip | s.Leasable ip}.ncard = s.capacity := by
  have hset : {ip | s.Leasable ip} = (s.leasables.toFinset : Set Ipv4) := by
    ext ip
    simp [mem_leasables]
  rw [hset, Set.ncard_coe_finset, List.toFinset_card_of_nodup s.nodup_leasables, length_leasables]

end Subnet

namespace AddressPool

def Free (p : AddressPool) (ip : Ipv4) : Prop := p.subnet.Leasable ip ∧ ip ∉ p.leases

variable {p p' : AddressPool} {ip : Ipv4} {e : Error}

def isFree (p : AddressPool) (n : Nat) : Bool :=
  isLeasable p.subnet n && !p.leases.contains (.ofNat n)

theorem isFree_iff (h : p.subnet.Contains ip) : p.isFree ip.value = true ↔ p.Free ip := by
  simp [isFree, isLeasable, Free, Subnet.Leasable, Ipv4.ofNat_value, h, and_assoc]

theorem findFree?_eq (p : AddressPool) (count n : Nat) :
    p.findFree? count n = ((List.range' n count).find? p.isFree).map .ofNat := by
  induction count generalizing n with
  | zero => rfl
  | succ count ih =>
    rw [findFree?, List.range'_succ, List.find?_cons, ih]
    show (if p.isFree n = true then _ else _) = _
    cases p.isFree n <;> rfl

theorem mem_range_iff {n : Nat} (s : Subnet) :
    n ∈ List.range' s.network s.size ↔ ∃ ip : Ipv4, s.Contains ip ∧ ip.value = n := by
  have hlast : s.broadcast = s.network + (s.size - 1) := rfl
  have hpos := s.size_pos
  have hbroadcast := s.broadcast_lt
  simp only [List.mem_range'_1, Subnet.contains_iff]
  constructor
  · intro hn
    have hvalue : (Ipv4.ofNat n).value = n := Ipv4.value_ofNat (by omega)
    exact ⟨.ofNat n, by omega, hvalue⟩
  · rintro ⟨ip, hip, rfl⟩
    omega

/-- The address to be leased next is the lowest one that is free. -/
theorem free?_eq_some_iff :
    p.free? = some ip ↔ p.Free ip ∧ ∀ other, p.Free other → ip.value ≤ other.value := by
  rw [free?, findFree?_eq, Option.map_eq_some_iff]
  constructor
  · rintro ⟨n, hn, rfl⟩
    obtain ⟨hfree, hmem, hfirst⟩ := List.find?_range'_eq_some.1 hn
    obtain ⟨ip, hip, rfl⟩ := (mem_range_iff p.subnet).1 hmem
    rw [Ipv4.ofNat_value]
    refine ⟨(isFree_iff hip).1 hfree, fun other hother => ?_⟩
    rcases Nat.lt_or_ge other.value ip.value with hlt | hge
    · have hle := (Subnet.contains_iff _).1 hother.1.1
      have htaken := hfirst other.value hle.1 hlt
      rw [(isFree_iff hother.1.1).2 hother] at htaken
      cases htaken
    · exact hge
  · rintro ⟨hfree, hleast⟩
    have hmem : ip.value ∈ List.range' p.subnet.network p.subnet.size :=
      (mem_range_iff p.subnet).2 ⟨ip, hfree.1.1, rfl⟩
    refine ⟨ip.value, ?_, Ipv4.ofNat_value ip⟩
    refine List.find?_range'_eq_some.2 ⟨(isFree_iff hfree.1.1).2 hfree, hmem, ?_⟩
    intro n hn hlt
    rw [Bool.not_eq_true', ← Bool.not_eq_true]
    intro hother
    have hin : n ∈ List.range' p.subnet.network p.subnet.size := by
      rw [List.mem_range'_1] at hmem ⊢
      omega
    obtain ⟨other, hcontains, rfl⟩ := (mem_range_iff p.subnet).1 hin
    have hle := hleast other ((isFree_iff hcontains).1 hother)
    omega

theorem free?_eq_none_iff : p.free? = none ↔ ∀ ip, p.subnet.Leasable ip → ip ∈ p.leases := by
  rw [free?, findFree?_eq, Option.map_eq_none_iff, List.find?_eq_none]
  constructor
  · intro hnone ip hip
    have htaken := hnone ip.value ((mem_range_iff p.subnet).2 ⟨ip, hip.1, rfl⟩)
    by_contra hleased
    exact htaken ((isFree_iff hip.1).2 ⟨hip, hleased⟩)
  · intro hall n hn hfree
    obtain ⟨ip, hip, rfl⟩ := (mem_range_iff p.subnet).1 hn
    have hfree := (isFree_iff hip).1 hfree
    exact hfree.2 (hall ip hfree.1)

theorem allocate_eq_ok_iff :
    p.allocate = .ok (ip, p') ↔ p.free? = some ip ∧ p' = { p with leases := ip :: p.leases } := by
  unfold allocate
  cases h : p.free? with
  | none => simp
  | some free =>
    simp only [Except.ok.injEq, Prod.mk.injEq, Option.some.injEq]
    constructor
    · rintro ⟨rfl, rfl⟩
      exact ⟨rfl, rfl⟩
    · rintro ⟨rfl, rfl⟩
      exact ⟨rfl, rfl⟩

theorem allocate_eq_error_iff :
    p.allocate = .error e ↔ p.free? = none ∧ e = .addressesExhausted p.subnet.render := by
  unfold allocate
  cases h : p.free? with
  | none => simp [eq_comm]
  | some free => simp

inductive Call where
  | allocate
  | release (ip : Ipv4)

inductive Reply where
  | allocated (result : Except Error Ipv4)
  | released (found : Bool)

def serve (p : AddressPool) : Call → Option (AddressPool × List Reply)
  | .allocate =>
    match p.allocate with
    | .ok (ip, p') => some (p', [.allocated (.ok ip)])
    | .error e => some (p, [.allocated (.error e)])
  | .release ip => some ((p.release ip).2, [.released (p.release ip).1])

def Reply.isLease : Reply → Bool
  | allocated (.ok _) => true
  | _ => false

def Reply.isReturn : Reply → Bool
  | released found => found
  | _ => false

def replies (history : List (Happening AddressPool Call Reply)) : List Reply :=
  history.flatMap (·.effects)

structure Proper (p : AddressPool) : Prop where
  nodup : p.leases.Nodup
  leasable : ∀ ip ∈ p.leases, p.subnet.Leasable ip

theorem proper_new (s : Subnet) : Proper (new s) := ⟨List.nodup_nil, nofun⟩

theorem Proper.allocate (h : Proper p) (ha : p.allocate = .ok (ip, p')) : Proper p' := by
  obtain ⟨hfree, rfl⟩ := allocate_eq_ok_iff.1 ha
  obtain ⟨⟨hleasable, hfresh⟩, -⟩ := free?_eq_some_iff.1 hfree
  refine ⟨List.nodup_cons.2 ⟨hfresh, h.nodup⟩, fun other hother => ?_⟩
  rcases List.mem_cons.1 hother with rfl | hother
  · exact hleasable
  · exact h.leasable other hother

theorem Proper.release (h : Proper p) (ip : Ipv4) : Proper (p.release ip).2 :=
  ⟨h.nodup.erase ip, fun other hother => h.leasable other (List.mem_of_mem_erase hother)⟩

theorem Proper.mem_release (h : Proper p) {other : Ipv4} :
    other ∈ (p.release ip).2.leases ↔ other ∈ p.leases ∧ other ≠ ip := by
  rw [AddressPool.release, h.nodup.mem_erase_iff]
  exact and_comm

theorem Proper.leased_le (h : Proper p) : p.leased ≤ p.subnet.capacity := by
  rw [← Subnet.length_leasables]
  exact h.nodup.length_le_of_subset fun ip hip => Subnet.mem_leasables.2 (h.leasable ip hip)

/-- A pool has a free address as long as fewer are leased than can be. -/
theorem Proper.free?_eq_none_iff (h : Proper p) :
    p.free? = none ↔ p.subnet.capacity ≤ p.leased := by
  rw [AddressPool.free?_eq_none_iff, ← Subnet.length_leasables]
  constructor
  · intro hall
    have hsubset : p.subnet.leasables ⊆ p.leases := fun ip hip =>
      hall ip (Subnet.mem_leasables.1 hip)
    exact p.subnet.nodup_leasables.length_le_of_subset hsubset
  · intro hle ip hip
    have hsubset : p.leases ⊆ p.subnet.leasables := fun other hother =>
      Subnet.mem_leasables.2 (h.leasable other hother)
    have hperm := (h.nodup.subperm hsubset).perm_of_length_le hle
    exact hperm.mem_iff.2 (Subnet.mem_leasables.2 hip)

theorem exists_allocate_new_iff (s : Subnet) : (∃ r, (new s).allocate = .ok r) ↔ 4 ≤ s.size := by
  have hnone := (proper_new s).free?_eq_none_iff
  have hcapacity := s.capacity_eq
  have hleased : (new s).leased = 0 := rfl
  have hsubnet : (new s).subnet = s := rfl
  rw [hleased, hsubnet] at hnone
  constructor
  · rintro ⟨⟨ip, p⟩, h⟩
    obtain ⟨hfree, -⟩ := allocate_eq_ok_iff.1 h
    rw [hfree] at hnone
    simp only [reduceCtorEq, false_iff] at hnone
    omega
  · intro hsize
    cases hfree : (new s).free? with
    | none =>
      have hle := hnone.1 hfree
      omega
    | some ip => exact ⟨_, allocate_eq_ok_iff.2 ⟨hfree, rfl⟩⟩

/-- The settings of machines are accepted exactly if a new pool over their subnet has an address to
lease, given that nothing else is wrong with them. -/
theorem check_eq_ok_iff (c : MachineConfig) :
    c.check = .ok () ↔ c.shutdownTimeoutMs.toNat ≠ 0 ∧
      (∃ r, (new c.network.subnet).allocate = .ok r) ∧
      ∀ jailer, c.jailer = some jailer → jailer.check = .ok () := by
  rw [MachineConfig.check_eq_ok, exists_allocate_new_iff, Nat.pos_iff_ne_zero]

section Runs

variable {s : Subnet} {history : List (Happening AddressPool Call Reply)} {call : Call}
  {replies : List Reply}

theorem serve_cases (h : serve p call = some (p', replies)) :
    (∃ ip, call = .allocate ∧ p.allocate = .ok (ip, p') ∧ replies = [.allocated (.ok ip)]) ∨
    (∃ e, call = .allocate ∧ p.allocate = .error e ∧ p' = p ∧
      replies = [.allocated (.error e)]) ∨
    ∃ ip, call = .release ip ∧ p' = (p.release ip).2 ∧ replies = [.released (p.release ip).1] := by
  cases call with
  | allocate =>
    simp only [serve] at h
    cases ha : p.allocate with
    | ok r =>
      obtain ⟨ip, next⟩ := r
      rw [ha] at h
      cases h
      exact .inl ⟨ip, rfl, rfl, rfl⟩
    | error e =>
      rw [ha] at h
      cases h
      exact .inr (.inl ⟨e, rfl, rfl, rfl, rfl⟩)
  | release ip =>
    cases h
    exact .inr (.inr ⟨ip, rfl, rfl, rfl⟩)

theorem subnet_serve (h : serve p call = some (p', replies)) : p'.subnet = p.subnet := by
  rcases serve_cases h with ⟨ip, -, ha, -⟩ | ⟨e, -, -, rfl, -⟩ | ⟨ip, -, rfl, -⟩
  · obtain ⟨-, rfl⟩ := allocate_eq_ok_iff.1 ha
    rfl
  · rfl
  · rfl

theorem Proper.serve (hp : Proper p) (h : serve p call = some (p', replies)) : Proper p' := by
  rcases serve_cases h with ⟨ip, -, ha, -⟩ | ⟨e, -, -, rfl, -⟩ | ⟨ip, -, rfl, -⟩
  · exact hp.allocate ha
  · exact hp
  · exact hp.release ip

theorem leased_serve (h : serve p call = some (p', replies)) :
    p'.leased + replies.countP Reply.isReturn = p.leased + replies.countP Reply.isLease := by
  rcases serve_cases h with ⟨ip, -, ha, rfl⟩ | ⟨e, -, -, rfl, rfl⟩ | ⟨ip, -, rfl, rfl⟩
  · obtain ⟨-, rfl⟩ := allocate_eq_ok_iff.1 ha
    rfl
  · rfl
  · simp only [release, leased, List.countP_singleton, Reply.isReturn, Reply.isLease,
      List.contains_iff_mem, Bool.false_eq_true, if_false]
    split
    · rename_i hmem
      have hpos : 0 < p.leases.length := List.length_pos_of_mem hmem
      rw [List.length_erase_of_mem hmem]
      omega
    · rename_i hmem
      rw [List.erase_of_not_mem hmem]

theorem of_run (run : Run AddressPool.serve (new s) history p) : p.subnet = s ∧ Proper p ∧
    p.leased + (AddressPool.replies history).countP Reply.isReturn =
      (AddressPool.replies history).countP Reply.isLease := by
  induction run with
  | nil => exact ⟨rfl, proper_new s, rfl⟩
  | @snoc history p p' call replies run h ih =>
    obtain ⟨hsubnet, hproper, hcount⟩ := ih
    refine ⟨(subnet_serve h).trans hsubnet, hproper.serve h, ?_⟩
    have hstep := leased_serve h
    simp only [AddressPool.replies, List.flatMap_append, List.flatMap_cons, List.flatMap_nil,
      List.append_nil, List.countP_append] at hcount ⊢
    omega

theorem serve_allocate_ok_iff :
    serve p .allocate = some (p', [.allocated (.ok ip)]) ↔ p.allocate = .ok (ip, p') := by
  simp only [serve]
  cases p.allocate with
  | ok r => simp [Prod.ext_iff, and_comm]
  | error e => simp

theorem serve_allocate_error_iff :
    serve p .allocate = some (p', [.allocated (.error e)]) ↔ p.allocate = .error e ∧ p' = p := by
  simp only [serve]
  cases p.allocate with
  | ok r => simp
  | error e => simp [and_comm, eq_comm]

/-- However a new pool is called, its leases belong to the subnet and are none of the addresses set
apart. The lowest free address goes next; only when all are leased there is none, and nothing
changes. An address that is given back is found exactly if it was leased, and is free then, no other
one with it. There are as many leases as were made and not given back, at most as many as there are
addresses; and the settings of machines are accepted only over subnets that have one. -/
theorem leases_of_calls (run : Run AddressPool.serve (new s) history p) :
    (∀ ip ∈ p.leases, s.Contains ip ∧ ip.value ≠ s.network ∧ ip.value ≠ s.network + 1 ∧
      ip.value ≠ s.broadcast) ∧
    (∀ ip p', AddressPool.serve p .allocate = some (p', [.allocated (.ok ip)]) ↔
      (s.Leasable ip ∧ ip ∉ p.leases ∧
        ∀ other, s.Leasable other → other ∉ p.leases → ip.value ≤ other.value) ∧
      p' = { p with leases := ip :: p.leases }) ∧
    (∀ e p', AddressPool.serve p .allocate = some (p', [.allocated (.error e)]) ↔
      (∀ ip, s.Leasable ip → ip ∈ p.leases) ∧ e = .addressesExhausted s.render ∧ p' = p) ∧
    (∀ ip, ∃ p', AddressPool.serve p (.release ip) =
        some (p', [.released (p.leases.contains ip)]) ∧
      ∀ other, other ∈ p'.leases ↔ other ∈ p.leases ∧ other ≠ ip) ∧
    p.leased + (AddressPool.replies history).countP Reply.isReturn =
      (AddressPool.replies history).countP Reply.isLease ∧
    p.leased ≤ s.capacity ∧
    ((∀ ip, s.Leasable ip → ip ∈ p.leases) ↔ p.leased = s.capacity) ∧
    {ip | s.Leasable ip}.ncard = s.capacity ∧
    ∀ c : MachineConfig, c.network.subnet = s → (c.check = .ok () ↔
      c.shutdownTimeoutMs.toNat ≠ 0 ∧ (∃ r, (new s).allocate = .ok r) ∧
        ∀ jailer, c.jailer = some jailer → jailer.check = .ok ()) := by
  obtain ⟨rfl, hproper, hcount⟩ := of_run run
  have hfull := hproper.free?_eq_none_iff
  rw [free?_eq_none_iff] at hfull
  have hle := hproper.leased_le
  refine ⟨fun ip hip => ?_, fun ip p' => ?_, fun e p' => ?_, fun ip => ?_, hcount, hle, ?_,
    p.subnet.ncard_leasable, fun c hc => ?_⟩
  · have hleasable := hproper.leasable ip hip
    have hbetween := Subnet.leasable_iff.1 hleasable
    exact ⟨hleasable.1, hleasable.2.1, by omega, hleasable.2.2.2⟩
  · rw [serve_allocate_ok_iff, allocate_eq_ok_iff, free?_eq_some_iff]
    simp only [Free, and_imp, and_assoc]
  · rw [serve_allocate_error_iff, allocate_eq_error_iff, free?_eq_none_iff, and_assoc]
  · exact ⟨_, rfl, fun other => hproper.mem_release⟩
  · rw [hfull]
    exact ⟨fun h => Nat.le_antisymm hle h, fun h => Nat.le_of_eq h.symm⟩
  · rw [← hc]
    exact check_eq_ok_iff c

end Runs

/-- Two addresses are leased; the first one is given back, twice, and leased again. -/
def returningCalls : List Call :=
  [.allocate, .allocate, .release (.ofBytes 10 1 0 2), .release (.ofBytes 10 1 0 2), .allocate]

theorem returned_address_is_leased_again :
    ∃ history p, Run serve (new ⟨.ofBytes 10 1 0 5, 29, by decide⟩) history p ∧ p.leased = 2 ∧
      (replies history).countP Reply.isLease = 3 ∧ (replies history).countP Reply.isReturn = 1 ∧
      .ofBytes 10 1 0 2 ∈ p.leases ∧
      ∀ other, p.subnet.Leasable other → other ∉ p.leases →
        (Ipv4.ofBytes 10 1 0 4).value ≤ other.value := by
  obtain ⟨⟨history, p⟩, hr⟩ :
      ∃ r, replay serve (new ⟨.ofBytes 10 1 0 5, 29, by decide⟩) returningCalls = some r :=
    ⟨_, rfl⟩
  have run := Run.of_replay hr
  have hleases : p.leases = [.ofBytes 10 1 0 2, .ofBytes 10 1 0 3] :=
    last_of_replay hr (·.leases) rfl
  have hleased : (replies history).countP Reply.isLease = 3 :=
    history_of_replay hr (fun h => (replies h).countP Reply.isLease) rfl
  have hfree : (serve p .allocate).map (·.2) = some [.allocated (.ok (.ofBytes 10 1 0 4))] :=
    last_of_replay hr (fun p => (serve p .allocate).map (·.2)) rfl
  obtain ⟨⟨p', replies⟩, hserve, rfl⟩ := Option.map_eq_some_iff.1 hfree
  obtain ⟨-, hleast, -, -, hcount, -⟩ := leases_of_calls run
  obtain ⟨⟨-, -, hleast⟩, -⟩ := (hleast _ p').1 hserve
  have hlength : p.leased = 2 := congrArg List.length hleases
  refine ⟨history, p, run, hlength, hleased, by omega, by simp [hleases], ?_⟩
  rw [(of_run run).1]
  exact hleast

end AddressPool

end MachineFleet
