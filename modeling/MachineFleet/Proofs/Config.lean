import MachineFleet.Config
import MachineFleet.Proofs.Data.Outcome

namespace MachineFleet

theorem requirePositive_eq_ok {field : String} {n : Nat} :
    requirePositive field n = .ok () ↔ 0 < n := by
  unfold requirePositive
  split <;> simp <;> omega

theorem requirePositive_bind {α : Type} {field : String} {n : Nat}
    {k : Unit → Except ConfigFault α} {a : α} :
    (requirePositive field n >>= k) = .ok a ↔ 0 < n ∧ k () = .ok a := by
  rw [bind_eq_ok]
  exact ⟨fun ⟨_, hn, h⟩ => ⟨requirePositive_eq_ok.1 hn, h⟩,
    fun ⟨hn, h⟩ => ⟨(), requirePositive_eq_ok.2 hn, h⟩⟩

theorem ProbeConfig.check_eq_ok {c : ProbeConfig} :
    c.check = .ok () ↔ 0 < c.periodMs.toNat ∧ 0 < c.timeoutMs.toNat ∧ 0 < c.port.toNat := by
  rw [check, requirePositive_bind, requirePositive_bind, requirePositive_eq_ok]

theorem JailerConfig.check_eq_ok {c : JailerConfig} :
    c.check = .ok () ↔ jailParent.toList <+: c.baseDir.toList ∧
      hasTwoDots c.baseDir.toList = false ∧ ∃ name, c.execFile.fileName? = some name := by
  rw [← List.isPrefixOf_iff_prefix, check]
  cases jailParent.toList.isPrefixOf c.baseDir.toList
  · simp
  · cases hasTwoDots c.baseDir.toList
    · cases c.execFile.fileName? <;> simp
    · simp

theorem MachineConfig.check_eq_ok {c : MachineConfig} :
    c.check = .ok () ↔ 0 < c.shutdownTimeoutMs.toNat ∧ 4 ≤ c.network.subnet.size ∧
      ∀ jailer, c.jailer = some jailer → jailer.check = .ok () := by
  rw [check, requirePositive_bind]
  refine and_congr_right fun _ => ?_
  rcases Nat.lt_or_ge c.network.subnet.size 4 with hsmall | hlarge
  · rw [if_pos hsmall]
    exact ⟨nofun, fun h => absurd h.1 (Nat.not_le.2 hsmall)⟩
  · rw [if_neg (Nat.not_lt.2 hlarge)]
    cases c.jailer with
    | none => exact ⟨fun _ => ⟨hlarge, nofun⟩, fun _ => rfl⟩
    | some jailer =>
      refine ⟨fun h => ⟨hlarge, ?_⟩, fun h => h.2 jailer rfl⟩
      rintro _ ⟨⟩
      exact h

theorem FleetConfig.validate_eq_ok {c : FleetConfig} :
    c.validate = .ok () ↔ 0 < c.startTimeoutMs.toNat ∧ 0 < c.stopTimeoutMs.toNat ∧
      0 < c.workloadPort.toNat ∧ c.probe.check = .ok () ∧ c.machine.check = .ok () := by
  have hcheck : c.validate = .ok () ↔ c.check = .ok () := mapError_eq_ok
  have hbind {k : Unit → Except ConfigFault Unit} :
      (c.probe.check >>= k) = .ok () ↔ c.probe.check = .ok () ∧ k () = .ok () :=
    bind_eq_ok.trans ⟨fun ⟨_, hp, h⟩ => ⟨hp, h⟩, fun ⟨hp, h⟩ => ⟨(), hp, h⟩⟩
  rw [hcheck, check, requirePositive_bind, requirePositive_bind, requirePositive_bind, hbind]

/-- Every fleet can work by its default settings. -/
theorem FleetConfig.validate_defaults (home : Path) : (defaults home).validate = .ok () := by
  have hprobe : ProbeConfig.defaults.check = .ok () :=
    ProbeConfig.check_eq_ok.2 ⟨by decide, by decide, by decide⟩
  have hsize : 4 ≤ NetworkConfig.defaults.subnet.size := by decide
  have hmachine : (MachineConfig.defaults home).check = .ok () :=
    MachineConfig.check_eq_ok.2 ⟨(by decide : 0 < (30000 : UInt64).toNat), hsize, nofun⟩
  exact validate_eq_ok.2 ⟨(by decide : 0 < (30000 : UInt64).toNat),
    (by decide : 0 < (1000 : UInt64).toNat), (by decide : 0 < (8080 : UInt16).toNat), hprobe,
    hmachine⟩

def FleetConfig.withScheme (c : FleetConfig) (scheme : String) : FleetConfig :=
  { c with probe := { c.probe with scheme } }

/-- No scheme makes a difference to whether a configuration is accepted. -/
theorem FleetConfig.validate_withScheme (c : FleetConfig) (scheme : String) :
    (c.withScheme scheme).validate = c.validate := by
  simp only [validate, check, withScheme, ProbeConfig.check]

end MachineFleet
