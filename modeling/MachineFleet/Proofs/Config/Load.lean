import MachineFleet.Config.Load
import MachineFleet.Proofs.Config

namespace MachineFleet

theorem FleetConfig.load_eq_ok_iff {home : Path} {contents : Except Files.Failure (List UInt8)}
    {c : FleetConfig} : load home contents = .ok c ↔
      ∃ bytes text, contents = .ok bytes ∧ Utf8.toString? bytes = some text ∧
        ofYaml home text = .ok c ∧ c.validate = .ok () := by
  rw [load, bind_eq_ok]
  constructor
  · rintro ⟨bytes, hbytes, h⟩
    refine ⟨bytes, ?_⟩
    split at h
    · cases h
    · rename_i text htext
      obtain ⟨said, hsaid, h⟩ := bind_eq_ok.1 h
      obtain ⟨_, hvalid, h⟩ := bind_eq_ok.1 h
      cases h
      exact ⟨text, mapError_eq_ok.1 hbytes, htext, hsaid, hvalid⟩
  · rintro ⟨bytes, text, hbytes, htext, hsaid, hvalid⟩
    refine ⟨bytes, mapError_eq_ok.2 hbytes, ?_⟩
    simp only [htext]
    exact bind_eq_ok.2 ⟨c, hsaid, bind_eq_ok.2 ⟨(), hvalid, rfl⟩⟩

/-- What the command line is put over: the default configuration if no file is given, or else the
one that the file says. -/
inductive IsBase (home : Path) :
    Option (Except Files.Failure (List UInt8)) → FleetConfig → Prop where
  | defaults : IsBase home none (.defaults home)
  | file (bytes : List UInt8) (text : String) (c : FleetConfig)
      (decoded : Utf8.toString? bytes = some text) (said : FleetConfig.ofYaml home text = .ok c)
      (accepted : c.validate = .ok ()) : IsBase home (some (.ok bytes)) c

namespace Overrides

/-- The second configuration is the first one with what the command line gives in place of three
settings of machines. -/
structure Replaces (o : Overrides) (base c : FleetConfig) : Prop where
  timeout : ∀ ms, o.shutdownTimeoutMs = some ms → c.machine.shutdownTimeoutMs = ms
  sameTimeout : o.shutdownTimeoutMs = none →
    c.machine.shutdownTimeoutMs = base.machine.shutdownTimeoutMs
  program : ∀ path, o.execPath = some path → c.machine.execPath = path
  sameProgram : o.execPath = none → c.machine.execPath = base.machine.execPath
  args : o.args ≠ [] → c.machine.args = o.args
  sameArgs : o.args = [] → c.machine.args = base.machine.args
  rest : c = { base with
    machine := { base.machine with
      shutdownTimeoutMs := c.machine.shutdownTimeoutMs
      execPath := c.machine.execPath
      args := c.machine.args } }

variable {o : Overrides} {base c : FleetConfig}

/-- Milliseconds come back from a length of time as they went into it. -/
theorem setShutdownTimeout_ofMillis (m : MachineConfig) (ms : UInt64) :
    m.setShutdownTimeout (.ofMillis ms.toNat) = { m with shutdownTimeoutMs := ms } := by
  have hms : Duration.toMillis (.ofMillis ms.toNat) = ms.toNat :=
    Nat.mul_div_cancel _ (by decide)
  rw [MachineConfig.setShutdownTimeout, hms, UInt64.ofNat_toNat]

theorem setIn_eq (o : Overrides) (m : MachineConfig) : o.setIn m =
    { m with
      shutdownTimeoutMs := o.shutdownTimeoutMs.getD m.shutdownTimeoutMs
      execPath := o.execPath.getD m.execPath
      args := if o.args = [] then m.args else o.args } := by
  obtain ⟨timeout, program, args⟩ := o
  have hargs (n : MachineConfig) : (if args.isEmpty then n else n.setArgs args) =
      { n with args := if args = [] then n.args else args } := by
    cases args <;> rfl
  rw [setIn, hargs]
  cases timeout with
  | none => cases program <;> rfl
  | some ms =>
    simp only [setShutdownTimeout_ofMillis]
    cases program <;> rfl

theorem replaces_iff : o.Replaces base c ↔ c = o.apply base := by
  rw [apply, setIn_eq]
  constructor
  · intro h
    have htimeout : c.machine.shutdownTimeoutMs =
        o.shutdownTimeoutMs.getD base.machine.shutdownTimeoutMs := by
      cases ho : o.shutdownTimeoutMs with
      | none => exact h.sameTimeout ho
      | some ms => exact h.timeout ms ho
    have hprogram : c.machine.execPath = o.execPath.getD base.machine.execPath := by
      cases ho : o.execPath with
      | none => exact h.sameProgram ho
      | some path => exact h.program path ho
    have hargs : c.machine.args = if o.args = [] then base.machine.args else o.args := by
      split
      · exact h.sameArgs ‹_›
      · exact h.args ‹_›
    rw [h.rest, htimeout, hprogram, hargs]
  · rintro rfl
    exact {
      timeout := fun ms ho => by simp [ho]
      sameTimeout := fun ho => by simp [ho]
      program := fun path ho => by simp [ho]
      sameProgram := fun ho => by simp [ho]
      args := fun ho => if_neg ho
      sameArgs := fun ho => if_pos ho
      rest := rfl }

/-- Of what the command line can say over a configuration that can work, only one thing keeps it
from working: that machines have no time to shut down. -/
theorem validate_apply (hbase : base.validate = .ok ()) :
    (o.apply base).validate = .ok () ↔ o.shutdownTimeoutMs ≠ some 0 := by
  obtain ⟨hstart, hstop, hport, hprobe, hmachine⟩ := FleetConfig.validate_eq_ok.1 hbase
  obtain ⟨htimeout, hsubnet, hjailer⟩ := MachineConfig.check_eq_ok.1 hmachine
  rw [FleetConfig.validate_eq_ok, MachineConfig.check_eq_ok, apply, setIn_eq]
  constructor
  · rintro ⟨-, -, -, -, hpositive, -⟩ hzero
    have hlt : 0 < (o.shutdownTimeoutMs.getD base.machine.shutdownTimeoutMs).toNat := hpositive
    rw [hzero] at hlt
    exact Nat.lt_irrefl 0 hlt
  · intro hnonzero
    have hpositive : 0 < (o.shutdownTimeoutMs.getD base.machine.shutdownTimeoutMs).toNat := by
      cases hgiven : o.shutdownTimeoutMs with
      | none => exact htimeout
      | some ms =>
        refine Nat.pos_of_ne_zero fun hms => hnonzero ?_
        have hzero : ms = 0 := UInt64.toNat_inj.1 hms
        rw [hgiven, hzero]
    exact ⟨hstart, hstop, hport, hprobe, hpositive, hsubnet, hjailer⟩

end Overrides

section Loading

variable {home : Path} {file? : Option (Except Files.Failure (List UInt8))} {o : Overrides}
  {base c : FleetConfig}

theorem IsBase.validate (h : IsBase home file? base) : base.validate = .ok () := by
  cases h with
  | defaults => exact FleetConfig.validate_defaults home
  | file _ _ _ _ _ accepted => exact accepted

theorem isBase_some {contents : Except Files.Failure (List UInt8)} :
    IsBase home (some contents) base ↔ FleetConfig.load home contents = .ok base := by
  rw [FleetConfig.load_eq_ok_iff]
  constructor
  · intro h
    cases h with
    | file bytes text _ decoded said accepted =>
      exact ⟨bytes, text, rfl, decoded, said, accepted⟩
  · rintro ⟨bytes, text, rfl, decoded, said, accepted⟩
    exact .file bytes text base decoded said accepted

theorem loadConfig_eq_ok_iff : loadConfig home file? o = .ok c ↔
    ∃ base, IsBase home file? base ∧ c = o.apply base ∧ c.validate = .ok () := by
  have hsecond (base : FleetConfig) :
      ((o.apply base).validate >>= fun _ => pure (o.apply base)) = Except.ok c ↔
        c = o.apply base ∧ c.validate = .ok () := by
    rw [bind_eq_ok]
    constructor
    · rintro ⟨_, hvalid, h⟩
      cases h
      exact ⟨rfl, hvalid⟩
    · rintro ⟨rfl, hvalid⟩
      exact ⟨(), hvalid, rfl⟩
  cases file? with
  | none =>
    refine (hsecond (.defaults home)).trans ⟨fun h => ⟨_, .defaults, h⟩, ?_⟩
    rintro ⟨_, ⟨⟩, h⟩
    exact h
  | some contents =>
    exact bind_eq_ok.trans (exists_congr fun base => and_congr isBase_some.symm (hsecond base))

/-- There is a configuration to run with if and only if the file, where one is given, says one that
can work, and it can work with what the command line says too. It is then the one of the file, or
else the default one, and holds what the command line says and nothing else that is new: any number
of milliseconds exactly, and arguments only if there are some. The second look at it is there for a
shutdown timeout of zero. -/
theorem command_line_replaces_settings (home : Path)
    (file? : Option (Except Files.Failure (List UInt8))) (o : Overrides) :
    (∀ c, loadConfig home file? o = .ok c ↔
      ∃ base, IsBase home file? base ∧ o.Replaces base c ∧ c.validate = .ok ()) ∧
    ((∃ c, loadConfig home file? o = .ok c) ↔
      (∃ base, IsBase home file? base) ∧ o.shutdownTimeoutMs ≠ some 0) := by
  constructor
  · intro c
    simp only [loadConfig_eq_ok_iff, Overrides.replaces_iff]
  · constructor
    · rintro ⟨c, hc⟩
      obtain ⟨base, hbase, rfl, hvalid⟩ := loadConfig_eq_ok_iff.1 hc
      exact ⟨⟨base, hbase⟩, (Overrides.validate_apply hbase.validate).1 hvalid⟩
    · rintro ⟨⟨base, hbase⟩, hnonzero⟩
      exact ⟨o.apply base, loadConfig_eq_ok_iff.2
        ⟨base, hbase, rfl, (Overrides.validate_apply hbase.validate).2 hnonzero⟩⟩

end Loading

end MachineFleet
