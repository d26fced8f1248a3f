import Mathlib.Algebra.Group.Nat.Defs
import MachineFleet.Net.Subnet

namespace MachineFleet

@[simp] theorem Ipv4.value_ofNat {n : Nat} (h : n < 2 ^ 32) : (Ipv4.ofNat n).value = n :=
  Nat.mod_eq_of_lt h

theorem Ipv4.eq_of_value {a b : Ipv4} (h : a.value = b.value) : a = b := by
  cases a
  cases b
  cases h
  rfl

theorem Ipv4.ofNat_value (ip : Ipv4) : Ipv4.ofNat ip.value = ip :=
  Ipv4.eq_of_value (Ipv4.value_ofNat ip.value_lt)

namespace Subnet

/-- The leading bits of an address are those that the subnet shares. -/
def Contains (s : Subnet) (ip : Ipv4) : Prop :=
  ip.value >>> (32 - s.bits) = s.address.value >>> (32 - s.bits)

instance (s : Subnet) (ip : Ipv4) : Decidable (s.Contains ip) := Nat.decEq _ _

variable (s : Subnet)

theorem size_eq : s.size = 2 ^ (32 - s.bits) := Nat.one_shiftLeft _

theorem size_pos : 0 < s.size := by
  rw [size_eq]
  exact Nat.two_pow_pos _

theorem four_le_size_iff : 4 ≤ s.size ↔ s.bits ≤ 30 := by
  rw [size_eq]
  constructor
  · intro h
    rcases Nat.lt_or_ge 30 s.bits with hbits | hbits
    · have hle : 32 - s.bits ≤ 1 := by omega
      have hpow : 2 ^ (32 - s.bits) ≤ 2 ^ 1 := Nat.pow_le_pow_right (by decide) hle
      omega
    · exact hbits
  · intro h
    have hle : 2 ≤ 32 - s.bits := by omega
    exact Nat.pow_le_pow_right (n := 2) (by decide) hle

theorem broadcast_lt : s.broadcast < 2 ^ 32 := by
  have hall : 2 ^ 32 = 2 ^ s.bits * s.size := by
    rw [size_eq, ← Nat.pow_add, Nat.add_sub_cancel' s.bits_le]
  have hpos := s.size_pos
  have hlt : s.address.value / s.size < 2 ^ s.bits := by
    apply Nat.div_lt_of_lt_mul
    rw [Nat.mul_comm, ← hall]
    exact s.address.value_lt
  have hle : (s.address.value / s.size + 1) * s.size ≤ 2 ^ s.bits * s.size :=
    Nat.mul_le_mul_right _ hlt
  rw [Nat.add_one_mul] at hle
  rw [hall, broadcast, network]
  omega

theorem contains_iff {ip : Ipv4} :
    s.Contains ip ↔ s.network ≤ ip.value ∧ ip.value ≤ s.broadcast := by
  have hpos := s.size_pos
  rw [Contains, Nat.shiftRight_eq_div_pow, Nat.shiftRight_eq_div_pow, ← size_eq, broadcast, network]
  rw [Nat.div_eq_iff hpos]
  omega

end Subnet

end MachineFleet
