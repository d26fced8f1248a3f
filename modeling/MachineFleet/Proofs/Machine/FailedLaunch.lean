import MachineFleet.Proofs.Files.Making
import MachineFleet.Proofs.Machine.AddressPool
import MachineFleet.Proofs.Machine.Jail

namespace MachineFleet

namespace AddressPool

variable {p p' : AddressPool} {ip : Ipv4}

theorem release_of_allocate (h : p.allocate = .ok (ip, p')) : (p'.release ip).2 = p := by
  obtain ⟨-, rfl⟩ := allocate_eq_ok_iff.1 h
  simp [release]

end AddressPool

namespace ProcessDriver

open Files (Tree)

variable {config : MachineConfig} {refuses : Tree → Launch → Option Files.Failure} {id : String}
  {d d' : ProcessDriver} {on on' : Premises} {files after : Tree} {e : Error} {address : Ipv4}
  {root : Path}

theorem spawn_cases (h : d.spawn config refuses id address files = (after, .error e)) :
    after = (d.makeJail files).1 ∧
      ((∃ failure, (d.makeJail files).2 = .error failure ∧ e = .io failure) ∨
        (d.makeJail files).2 = .ok () ∧
          ∃ failure, refuses after (config.launch id address d.jailRoot) = some failure) := by
  unfold spawn at h
  split at h
  · rename_i made failure hmade
    cases h
    rw [hmade]
    exact ⟨rfl, .inl ⟨failure, rfl, rfl⟩⟩
  · rename_i made hmade
    dsimp only at h
    split at h
    · rename_i failure hrefused
      cases h
      rw [hmade]
      exact ⟨rfl, .inr ⟨rfl, failure, hrefused⟩⟩
    · -- Once it is launched the machine runs, with a log or without.
      split at h <;> cases h

/-- A start fails before anything has changed, or its launch fails and the address goes back. -/
theorem start_cases (h : d.start config refuses id on = (d', on', .error e)) :
    d' = d ∧ on'.pool = on.pool ∧
      (d.beginStart on.pool = .error e ∧ on'.files = on.files ∨
        ∃ address, d.spawn config refuses id address on.files = (on'.files, .error e)) := by
  rw [start_eq] at h
  cases hbegin : d.beginStart on.pool with
  | error e' =>
    rw [hbegin] at h
    cases h
    exact ⟨rfl, rfl, .inl ⟨rfl, rfl⟩⟩
  | ok leased =>
    obtain ⟨address, pool⟩ := leased
    have hallocate : on.pool.allocate = .ok (address, pool) := by
      unfold beginStart at hbegin
      split at hbegin
      · cases hbegin
      · exact hbegin
    rw [hbegin] at h
    dsimp only [endStart] at h
    split at h
    · rename_i files e' hspawn
      cases h
      exact ⟨rfl, AddressPool.release_of_allocate hallocate, .inr ⟨address, hspawn⟩⟩
    · cases h

theorem exists_beginStart (hd : d.process = none) (hfree : ∃ r, on.pool.allocate = .ok r) :
    ∃ address pool, d.beginStart on.pool = .ok (address, pool) := by
  obtain ⟨⟨address, pool⟩, hallocate⟩ := hfree
  refine ⟨address, pool, ?_⟩
  rw [beginStart, hd, hallocate]
  rfl

theorem exists_start (hd : d.process = none) (hfree : ∃ r, on.pool.allocate = .ok r)
    (hjail : (d.makeJail on.files).2 = .ok ())
    (hlaunch : ∀ address, refuses (d.makeJail on.files).1 (config.launch id address d.jailRoot) =
      none) :
    ∃ d' on' started, d.start config refuses id on = (d', on', .ok started) := by
  obtain ⟨address, pool, hbegin⟩ := exists_beginStart hd hfree
  have hspawn : ∃ files started,
      d.spawn config refuses id address on.files = (files, .ok started) := by
    unfold spawn
    generalize d.makeJail on.files = jail at hjail hlaunch ⊢
    obtain ⟨made, result⟩ := jail
    cases hjail
    simp only [hlaunch address]
    -- A log that cannot be opened is no reason to fail.
    cases MachineLog.openAt made (logPath config id) none with
    | ok opened => exact ⟨_, _, rfl⟩
    | error e => exact ⟨_, _, rfl⟩
  obtain ⟨files, started, hspawn⟩ := hspawn
  rw [start_eq, hbegin]
  dsimp only [endStart]
  rw [hspawn]
  exact ⟨_, _, _, rfl⟩

theorem exists_of_fails
    (h : ((d.start config refuses id on).2.2.map fun _ => ()) = .error e) :
    ∃ d' on', d.start config refuses id on = (d', on', .error e) := by
  generalize d.start config refuses id on = outcome at h ⊢
  obtain ⟨d', on', result⟩ := outcome
  cases result with
  | ok started => cases h
  | error e' =>
    cases h
    exact ⟨d', on', rfl⟩

theorem makeJail_eq (hroot : d.jailRoot = some root) (files : Tree) :
    d.makeJail files = files.makePath root := by
  rw [makeJail, hroot]

/-- What may have become of the tree of files: all that was there is, and what is new is a directory
on the way to the root of the jail. Nothing is new without a jail, nor with one that cannot be made
and whose path never goes up. -/
structure LeavesAtMostJail (d : ProcessDriver) (before after : Tree) : Prop where
  kept (place : Files.Place) (node : Files.Node) :
    before.node? place = some node → after.node? place = some node
  added (place : Files.Place) (node : Files.Node) : after.node? place = some node →
    before.node? place = some node ∨
      node = .directory ∧ ∃ root, d.jailRoot = some root ∧ Tree.LeadsThrough root place
  clean : (∀ root, d.jailRoot = some root →
    .parent ∉ root.components ∧ (before.makePath root).2 ≠ .ok ()) → after = before

theorem LeavesAtMostJail.refl (d : ProcessDriver) (files : Tree) :
    d.LeavesAtMostJail files files where
  kept _ _ h := h
  added _ _ h := .inl h
  clean _ := rfl

theorem LeavesAtMostJail.makeJail (d : ProcessDriver) (files : Tree) :
    d.LeavesAtMostJail files (d.makeJail files).1 := by
  cases hroot : d.jailRoot with
  | none =>
    have hsame : (d.makeJail files).1 = files := by rw [ProcessDriver.makeJail, hroot]
    rw [hsame]
    exact .refl d files
  | some root =>
    rw [makeJail_eq hroot]
    refine ⟨fun place node => Tree.node?_makeAlong_of_some, ?_, ?_⟩
    · intro place node h
      rcases Tree.node?_makeAlong_cases h with hthere | ⟨hnode, hlead⟩
      · exact .inl hthere
      · exact .inr ⟨hnode, root, hroot, hlead⟩
    · intro hclean
      obtain ⟨hup, hfails⟩ := hclean root hroot
      cases hresult : (files.makePath root).2 with
      | ok u => exact absurd hresult hfails
      | error failure => exact Tree.makeAlong_eq_of_error hup rfl hresult

/-- A start that fails leaves the driver unstarted as it was, gives its address back and leaves all
that was in the tree of files. Of what its launch has made at most the directories for its jail stay,
and they do stay, the root of the jail among them, when the jail could be made. A later start goes
well as soon as an address is free, the jail can be made and the launch is not refused. -/
theorem failed_start_leaves_at_most_its_jail
    (h : d.start config refuses id on = (d', on', .error e)) :
    d' = d ∧ on'.pool = on.pool ∧ d.LeavesAtMostJail on.files on'.files ∧
    (∀ root, d.process = none → (∃ r, on.pool.allocate = .ok r) → d.jailRoot = some root →
      (on.files.makePath root).2 = .ok () → on'.files.node? root.resolve = some .directory) ∧
    (d.process = none → ∀ refuses' id' later, (∃ r, later.pool.allocate = .ok r) →
      (d'.makeJail later.files).2 = .ok () →
      (∀ address, refuses' (d'.makeJail later.files).1
        (config.launch id' address d'.jailRoot) = none) →
      ∃ d'' on'' started, d'.start config refuses' id' later = (d'', on'', .ok started)) := by
  obtain ⟨rfl, hpool, hend⟩ := start_cases h
  refine ⟨rfl, hpool, ?_, ?_, ?_⟩
  · rcases hend with ⟨-, hsame⟩ | ⟨address, hspawn⟩
    · rw [hsame]
      exact .refl d' on.files
    · rw [(spawn_cases hspawn).1]
      exact .makeJail d' on.files
  · intro root hd hfree hroot hmade
    rcases hend with ⟨hbegin, -⟩ | ⟨address, hspawn⟩
    · -- With an address to lease the start has got as far as its launch.
      obtain ⟨address, pool, hok⟩ := exists_beginStart hd hfree
      cases hok.symm.trans hbegin
    · rw [(spawn_cases hspawn).1, makeJail_eq hroot]
      exact Tree.node?_leadsTo_of_ok rfl hmade
  · intro hd refuses' id' later hfree hjail hlaunch
    exact exists_start hd hfree hjail hlaunch

def jailed : ProcessDriver := .new ProcessFactory.jailedFleet.machine ProcessFactory.firstJail

def unleased (files : Tree) : Premises :=
  ⟨.new ProcessFactory.jailedFleet.machine.network.subnet, files⟩

/-- The jail cannot be made where a file is in its way: then nothing at all has changed. -/
theorem blocked_jail_changes_nothing :
    let blocked := unleased (Tree.empty.put ["srv"] (.file []))
    ∃ d' on', jailed.start ProcessFactory.jailedFleet.machine (fun _ _ => none) "m1" blocked =
        (d', on', .error (.io .notADirectory)) ∧
      d' = jailed ∧ on'.pool = blocked.pool ∧ on'.files = blocked.files := by
  intro blocked
  have hfails : ((jailed.start ProcessFactory.jailedFleet.machine (fun _ _ => none) "m1"
      blocked).2.2.map fun _ => ()) = .error (.io .notADirectory) := by decide +kernel
  obtain ⟨d', on', h⟩ := exists_of_fails hfails
  obtain ⟨hd, hpool, hfiles, -, -⟩ := failed_start_leaves_at_most_its_jail h
  refine ⟨d', on', h, hd, hpool, hfiles.clean ?_⟩
  intro root hroot
  have hroots : jailed.jailRoot =
      some "/srv//./jailer/firecracker/6f1c0d2e-7b1a-4c57-9d0e-2f6a3b8c9d10" := by decide +kernel
  cases hroots.symm.trans hroot
  have hresult : (blocked.files.makePath
      "/srv//./jailer/firecracker/6f1c0d2e-7b1a-4c57-9d0e-2f6a3b8c9d10").2 =
        .error .notADirectory := by rfl
  exact ⟨by decide +kernel, by simp [hresult]⟩

/-- In a fleet whose settings are accepted, a launch that is refused leaves a directory behind that
was not there before. -/
theorem refused_launch_leaves_jail :
    ProcessFactory.jailedFleet.validate = .ok () ∧
    ∃ d' on' e, jailed.start ProcessFactory.jailedFleet.machine (fun _ _ => some .notFound) "m1"
        (unleased .empty) = (d', on', .error e) ∧
      Tree.empty.node? ["srv", "jailer", "firecracker", ProcessFactory.firstJail] = none ∧
      on'.files.node? ["srv", "jailer", "firecracker", ProcessFactory.firstJail] =
        some .directory := by
  refine ⟨by decide +kernel, _, _, _, rfl, rfl, ?_⟩
  decide +kernel

end ProcessDriver

end MachineFleet
