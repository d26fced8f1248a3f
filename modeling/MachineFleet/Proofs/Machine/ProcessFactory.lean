import MachineFleet.Machine.ProcessDriver
import MachineFleet.Proofs.Data.Lists
import MachineFleet.Proofs.Machine.AddressPool

namespace MachineFleet

namespace ProcessDriver

def beginStart (d : ProcessDriver) (pool : AddressPool) : Except Error (Ipv4 × AddressPool) :=
  if d.process.isSome then .error (.invalidArgument .machineAlreadyStarted) else pool.allocate

def endStart (config : MachineConfig) (refuses : Files.Tree → Launch → Option Files.Failure)
    (id : String) (address : Ipv4) (d : ProcessDriver) (on : Premises) :
    ProcessDriver × Premises × Except Error Started :=
  match d.spawn config refuses id address on.files with
  | (files, .error e) => (d, ⟨(on.pool.release address).2, files⟩, .error e)
  | (files, .ok started) =>
    ({ d with process := some ⟨address, false, none, []⟩ }, ⟨on.pool, files⟩, .ok started)

/-- A start is both halves, if nothing comes between them. -/
theorem start_eq (config : MachineConfig) (refuses : Files.Tree → Launch → Option Files.Failure)
    (id : String) (d : ProcessDriver) (on : Premises) :
    d.start config refuses id on =
      match d.beginStart on.pool with
      | .error e => (d, on, .error e)
      | .ok (address, pool) => d.endStart config refuses id address ⟨pool, on.files⟩ := by
  unfold start beginStart
  cases d.process.isSome with
  | true => rfl
  | false =>
    cases on.pool.allocate with
    | error e => rfl
    | ok leased => rfl

def KeepsProcess (d d' : ProcessDriver) : Prop :=
  d.process = none ∧ d'.process = none ∨
    ∃ p p', d.process = some p ∧ d'.process = some p' ∧ p'.address = p.address ∧
      (p.exit.isSome = true → p'.exit.isSome = true)

theorem keepsProcess_call (n : Nat) (c : ExitCall) (d : ProcessDriver) :
    d.KeepsProcess (d.call n c).1 := by
  unfold call
  cases hp : d.process with
  | none => exact .inl ⟨hp, hp⟩
  | some p =>
    dsimp only
    split
    · exact .inr ⟨p, _, hp, rfl, rfl, id⟩
    · exact .inr ⟨p, _, hp, rfl, rfl, id⟩

theorem keepsProcess_refuse (n : Nat) (failure : Error) (d : ProcessDriver) :
    d.KeepsProcess (d.refuse n failure).1 := by
  unfold refuse
  cases hp : d.process with
  | none => exact .inl ⟨hp, hp⟩
  | some p =>
    dsimp only
    split
    · exact .inr ⟨p, _, hp, rfl, rfl, id⟩
    · exact .inr ⟨p, p, hp, hp, rfl, id⟩

theorem keepsProcess_recordExit (exit : MachineExit) (d : ProcessDriver) :
    d.KeepsProcess (d.recordExit exit).1 := by
  unfold recordExit
  cases hp : d.process with
  | none => exact .inl ⟨hp, hp⟩
  | some p =>
    dsimp only
    split
    · exact .inr ⟨p, p, hp, hp, rfl, id⟩
    · exact .inr ⟨p, _, hp, rfl, rfl, fun _ => rfl⟩

def returned? (d : ProcessDriver) : Option Ipv4 :=
  d.process.bind fun p => if p.exit.isSome then some p.address else none

theorem pool_release (config : MachineConfig) (id : String) (d : ProcessDriver) (on : Premises) :
    (d.release config id on).1.pool =
      match d.returned? with
      | some ip => (on.pool.release ip).2
      | none => on.pool := by
  unfold release returned?
  cases d.process with
  | none => rfl
  | some p =>
    simp only [Option.bind_some]
    split <;> rfl

variable {d d' : ProcessDriver} {ip : Ipv4}

theorem address_of_returned? (h : d.returned? = some ip) :
    d.process.map (·.address) = some ip := by
  obtain ⟨p, hp, hr⟩ := Option.bind_eq_some_iff.1 h
  split at hr
  · rw [hp, Option.map_some, hr]
  · cases hr

theorem KeepsProcess.address (h : d.KeepsProcess d') :
    d'.process.map (·.address) = d.process.map (·.address) := by
  rcases h with ⟨h, h'⟩ | ⟨p, p', h, h', ha, -⟩
  · rw [h, h']
  · rw [h, h', Option.map_some, Option.map_some, ha]

theorem KeepsProcess.returned? (h : d.KeepsProcess d') (hr : d.returned? = some ip) :
    d'.returned? = some ip := by
  rcases h with ⟨h, -⟩ | ⟨p, p', h, h', ha, he⟩
  · simp [ProcessDriver.returned?, h] at hr
  · simp only [ProcessDriver.returned?, h, h', Option.bind_some] at hr ⊢
    split at hr
    · rename_i hexit
      rw [if_pos (he hexit), ha]
      exact hr
    · cases hr

end ProcessDriver

structure ProcessSite where
  driver : ProcessDriver
  starting : Option Ipv4

structure ProcessFactory where
  premises : Premises
  sites : List ProcessSite

def ProcessSite.address? (site : ProcessSite) : Option Ipv4 :=
  site.starting <|> site.driver.process.map (·.address)

namespace ProcessFactory

def new (config : MachineConfig) (files : Files.Tree) : ProcessFactory where
  premises := ⟨.new config.network.subnet, files⟩
  sites := []

/-- What happens at a factory. Until a start has ended no other call of its driver is made; whatever
else goes on at the factory may come in between. -/
inductive Action where
  | create (jail : String)
  | beginStart (driver : Nat)
  | endStart (driver : Nat) (id : String) (refuses : Files.Tree → Launch → Option Files.Failure)
  | call (driver : Nat) (number : Nat) (call : ExitCall)
  | refuse (driver : Nat) (number : Nat) (failure : Error)
  | exit (driver : Nat) (exit : MachineExit)
  | release (driver : Nat) (id : String)
  | write (files : Files.Tree)

inductive Effect where
  | started (driver : Nat) (result : Except Error Metadata)
  | driver (driver : Nat) (effect : ProcessDriver.Effect)
  | released (driver : Nat) (result : Except Error Unit)

def setSite (f : ProcessFactory) (k : Nat) (site : ProcessSite) : ProcessFactory :=
  { f with sites := f.sites.set k site }

def drive (f : ProcessFactory) (k : Nat)
    (go : ProcessDriver → ProcessDriver × List ProcessDriver.Effect) :
    Option (ProcessFactory × List Effect) :=
  match f.sites[k]? with
  | some ⟨d, none⟩ => some (f.setSite k ⟨(go d).1, none⟩, (go d).2.map (.driver k))
  | _ => none

def step (config : MachineConfig) (f : ProcessFactory) : Action →
    Option (ProcessFactory × List Effect)
  | .create jail => some ({ f with sites := f.sites ++ [⟨.new config jail, none⟩] }, [])
  | .beginStart k =>
    match f.sites[k]? with
    | some ⟨d, none⟩ =>
      match d.beginStart f.premises.pool with
      | .error e => some (f, [.started k (.error e)])
      | .ok (address, pool) =>
        some ({ f with premises.pool := pool }.setSite k ⟨d, some address⟩, [])
    | _ => none
  | .endStart k id refuses =>
    match f.sites[k]? with
    | some ⟨d, some address⟩ =>
      let (d, premises, result) := d.endStart config refuses id address f.premises
      some ({ f with premises }.setSite k ⟨d, none⟩, [.started k (result.map (·.machine))])
    | _ => none
  | .call k n c => f.drive k (·.call n c)
  | .refuse k n failure => f.drive k (·.refuse n failure)
  | .exit k exit => f.drive k (·.recordExit exit)
  | .release k id =>
    match f.sites[k]? with
    | some ⟨d, none⟩ =>
      let (premises, result) := d.release config id f.premises
      some ({ f with premises }, [.released k result])
    | _ => none
  | .write files => some ({ f with premises.files := files }, [])

inductive Move (f : ProcessFactory) : Action → ProcessFactory → Prop where
  | created (jail : String) (d : ProcessDriver) (hd : d.process = none) :
      Move f (.create jail) { f with sites := f.sites ++ [⟨d, none⟩] }
  | begun (k : Nat) (d : ProcessDriver) (ip : Ipv4) (pool : AddressPool)
      (hs : f.sites[k]? = some ⟨d, none⟩) (hd : d.process = none)
      (ha : f.premises.pool.allocate = .ok (ip, pool)) :
      Move f (.beginStart k) ({ f with premises.pool := pool }.setSite k ⟨d, some ip⟩)
  | notBegun (k : Nat) : Move f (.beginStart k) f
  | failed (k : Nat) (id : String) (refuses : Files.Tree → Launch → Option Files.Failure)
      (d : ProcessDriver) (ip : Ipv4) (files : Files.Tree)
      (hs : f.sites[k]? = some ⟨d, some ip⟩) :
      Move f (.endStart k id refuses)
        ({ f with premises := ⟨(f.premises.pool.release ip).2, files⟩ }.setSite k ⟨d, none⟩)
  | started (k : Nat) (id : String) (refuses : Files.Tree → Launch → Option Files.Failure)
      (d : ProcessDriver) (ip : Ipv4) (files : Files.Tree)
      (hs : f.sites[k]? = some ⟨d, some ip⟩) :
      Move f (.endStart k id refuses)
        ({ f with premises.files := files }.setSite k
          ⟨{ d with process := some ⟨ip, false, none, []⟩ }, none⟩)
  | driven (k : Nat) (a : Action) (d d' : ProcessDriver) (hs : f.sites[k]? = some ⟨d, none⟩)
      (hd : d.KeepsProcess d') (hr : ∀ k id, a ≠ .release k id) :
      Move f a (f.setSite k ⟨d', none⟩)
  | released (k : Nat) (id : String) (d : ProcessDriver) (premises : Premises)
      (hs : f.sites[k]? = some ⟨d, none⟩)
      (hp : premises.pool = match d.returned? with
        | some ip => (f.premises.pool.release ip).2
        | none => f.premises.pool) :
      Move f (.release k id) { f with premises }
  | written (files : Files.Tree) : Move f (.write files) { f with premises.files := files }

section Steps

variable {config : MachineConfig} {f f' : ProcessFactory} {a : Action} {effects : List Effect}

theorem move_of_drive {k : Nat}
    {go : ProcessDriver → ProcessDriver × List ProcessDriver.Effect}
    (hgo : ∀ d : ProcessDriver, d.KeepsProcess (go d).1) (hr : ∀ k id, a ≠ .release k id)
    (h : f.drive k go = some (f', effects)) : Move f a f' := by
  unfold drive at h
  split at h
  · rename_i d hs
    cases h
    exact .driven k a d _ hs (hgo d) hr
  · cases h

theorem move_of_step (h : step config f a = some (f', effects)) : Move f a f' := by
  cases a with
  | create jail =>
    cases h
    exact .created jail _ rfl
  | beginStart k =>
    simp only [step] at h
    split at h
    · rename_i d hs
      split at h
      · cases h
        exact .notBegun k
      · rename_i ip pool hb
        cases h
        unfold ProcessDriver.beginStart at hb
        split at hb
        · cases hb
        · rename_i hd
          exact .begun k d ip pool hs (by simpa using hd) hb
    · cases h
  | endStart k id refuses =>
    simp only [step] at h
    split at h
    · rename_i d ip hs
      cases h
      unfold ProcessDriver.endStart
      split
      · exact .failed k id refuses d ip _ hs
      · exact .started k id refuses d ip _ hs
    · cases h
  | call k n c => exact move_of_drive (ProcessDriver.keepsProcess_call n c) nofun h
  | refuse k n failure => exact move_of_drive (ProcessDriver.keepsProcess_refuse n failure) nofun h
  | exit k exit => exact move_of_drive (ProcessDriver.keepsProcess_recordExit exit) nofun h
  | release k id =>
    simp only [step] at h
    split at h
    · rename_i d hs
      cases h
      exact .released k id d _ hs (d.pool_release config id f.premises)
    · cases h
  | write files =>
    cases h
    exact .written files

end Steps

/-- A process of the driver runs at the address, or is about to be launched there. -/
def Uses (f : ProcessFactory) (k : Nat) (ip : Ipv4) : Prop :=
  ∃ site, f.sites[k]? = some site ∧ (site.starting = some ip ∨
    ∃ p, site.driver.process = some p ∧ p.exit = none ∧ p.address = ip)

def address? (f : ProcessFactory) (k : Nat) : Option Ipv4 :=
  f.sites[k]?.bind ProcessSite.address?

def returned? (x : Happening ProcessFactory Action Effect) : Option (Nat × Ipv4) :=
  match x.input with
  | .release k _ => (x.before.sites[k]?.bind (·.driver.returned?)).map (k, ·)
  | _ => none

def returns (history : List (Happening ProcessFactory Action Effect)) : List (Nat × Ipv4) :=
  history.filterMap returned?

variable {config : MachineConfig} {f f' : ProcessFactory} {a : Action} {effects : List Effect}
  {history : List (Happening ProcessFactory Action Effect)} {files : Files.Tree} {ip : Ipv4}
  {j k : Nat}

theorem getElem?_setSite {site : ProcessSite} (h : f.sites[k]? ≠ none) :
    (f.setSite k site).sites[j]? = if k = j then some site else f.sites[j]? := by
  have hlt : k < f.sites.length := by simpa using h
  simp [setSite, List.getElem?_set, hlt]

theorem address?_setSite {site : ProcessSite} (h : f.sites[k]? ≠ none) :
    (f.setSite k site).address? j = if k = j then site.address? else f.address? j := by
  unfold address?
  rw [getElem?_setSite h]
  split <;> rfl

theorem address?_of_site {site : ProcessSite} (h : f.sites[k]? = some site) :
    f.address? k = site.address? := by
  rw [address?, h]
  rfl

theorem returns_snoc (x : Happening ProcessFactory Action Effect) :
    returns (history ++ [x]) = returns history ++ (returned? x).toList :=
  filterMap_concat returned? history x

theorem returned?_eq_none (h : ∀ k id, a ≠ .release k id) : returned? ⟨f, a, effects⟩ = none := by
  unfold returned?
  split
  · rename_i k id ha
    exact absurd ha (h k id)
  · rfl

theorem returns_snoc_release {d : ProcessDriver} {id : String} (h : f.sites[k]? = some ⟨d, none⟩) :
    returns (history ++ [⟨f, .release k id, effects⟩]) =
      returns history ++ (d.returned?.map (k, ·)).toList := by
  rw [returns_snoc, returned?]
  simp only [h, Option.bind_some]

/-- What holds of a factory whatever its drivers do: the leases are proper, no machine is started
twice, and who has given an address back has got none since. -/
structure Orderly (history : List (Happening ProcessFactory Action Effect)) (f : ProcessFactory) :
    Prop where
  proper : f.premises.pool.Proper
  fresh (k : Nat) (site : ProcessSite) : f.sites[k]? = some site → site.starting.isSome = true →
    site.driver.process = none
  gone (k : Nat) (ip : Ipv4) : (k, ip) ∈ returns history →
    ∃ site, f.sites[k]? = some site ∧ site.starting = none ∧ site.driver.returned? = some ip

theorem orderly_new : Orderly [] (new config files) := ⟨AddressPool.proper_new _, nofun, nofun⟩

theorem Orderly.setSite {site site' : ProcessSite} {premises : Premises} (o : Orderly history f)
    (hs : f.sites[k]? = some site) (hpool : premises.pool.Proper)
    (hfresh : site'.starting.isSome = true → site'.driver.process = none)
    (hgone : ∀ ip, site.starting = none → site.driver.returned? = some ip →
      site'.starting = none ∧ site'.driver.returned? = some ip)
    (hr : ∀ k id, a ≠ .release k id) :
    Orderly (history ++ [⟨f, a, effects⟩]) ({ f with premises }.setSite k site') := by
  have hne : { f with premises }.sites[k]? ≠ none := by simp [hs]
  have hset (j : Nat) : ({ f with premises }.setSite k site').sites[j]? =
      if k = j then some site' else f.sites[j]? := getElem?_setSite hne
  refine ⟨hpool, fun j other hj => ?_, fun j ip hj => ?_⟩
  · rw [hset] at hj
    split at hj
    · cases hj
      exact hfresh
    · exact o.fresh j other hj
  · rw [returns_snoc, returned?_eq_none hr, Option.toList_none, List.append_nil] at hj
    obtain ⟨other, hother, hstarting, hreturned⟩ := o.gone j ip hj
    rw [hset]
    split
    · rename_i hjk
      subst hjk
      cases hs.symm.trans hother
      exact ⟨site', rfl, hgone ip hstarting hreturned⟩
    · exact ⟨other, hother, hstarting, hreturned⟩

theorem orderly_move (o : Orderly history f) (h : Move f a f') :
    Orderly (history ++ [⟨f, a, effects⟩]) f' := by
  have hsame (hr : ∀ k id, a ≠ .release k id) :
      returns (history ++ [⟨f, a, effects⟩]) = returns history := by
    rw [returns_snoc, returned?_eq_none hr]
    exact List.append_nil _
  cases h with
  | created jail d hd =>
    refine ⟨o.proper, fun k site hs hstarting => ?_, fun k ip hk => ?_⟩
    · rcases getElem?_concat_eq_some.1 hs with hs | ⟨-, rfl⟩
      · exact o.fresh k site hs hstarting
      · cases hstarting
    · rw [hsame nofun] at hk
      obtain ⟨site, hs, h⟩ := o.gone k ip hk
      exact ⟨site, getElem?_concat_eq_some.2 (.inl hs), h⟩
  | begun k d ip pool hs hd ha =>
    refine o.setSite hs (o.proper.allocate ha) (fun _ => hd) (fun other _ hreturned => ?_) nofun
    simp [ProcessDriver.returned?, hd] at hreturned
  | notBegun k => exact ⟨o.proper, o.fresh, by rw [hsame nofun]; exact o.gone⟩
  | failed k id refuses d ip files hs =>
    exact o.setSite hs (o.proper.release ip) nofun nofun nofun
  | started k id refuses d ip files hs => exact o.setSite hs o.proper nofun nofun nofun
  | driven k a d d' hs hd hr =>
    exact o.setSite hs o.proper nofun (fun ip _ hreturned => ⟨rfl, hd.returned? hreturned⟩) hr
  | released k id d premises hs hp =>
    refine ⟨?_, o.fresh, fun j ip hj => ?_⟩
    · show premises.pool.Proper
      rw [hp]
      split
      · exact o.proper.release _
      · exact o.proper
    · rw [returns_snoc_release hs, List.mem_append] at hj
      rcases hj with hj | hj
      · exact o.gone j ip hj
      · simp only [Option.mem_toList, Option.map_eq_some_iff, Prod.mk.injEq] at hj
        obtain ⟨ip, hreturned, rfl, rfl⟩ := hj
        exact ⟨_, hs, rfl, hreturned⟩
  | written files => exact ⟨o.proper, o.fresh, by rw [hsame nofun]; exact o.gone⟩

/-- A driver that has not given back the address it has got. -/
def Holds (history : List (Happening ProcessFactory Action Effect)) (f : ProcessFactory) (k : Nat)
    (ip : Ipv4) : Prop :=
  f.address? k = some ip ∧ (k, ip) ∉ returns history

/-- An address that is held is leased, and only one driver holds it. -/
structure Exclusive (ip : Ipv4) (history : List (Happening ProcessFactory Action Effect))
    (f : ProcessFactory) : Prop where
  leased (k : Nat) : f.Holds history k ip → ip ∈ f.premises.pool.leases
  apart (j k : Nat) : f.Holds history j ip → f.Holds history k ip → j = k

variable {history' : List (Happening ProcessFactory Action Effect)}

theorem Exclusive.mono (e : Exclusive ip history f)
    (hh : ∀ k, f'.Holds history' k ip → f.Holds history k ip)
    (hl : ip ∈ f.premises.pool.leases → ip ∈ f'.premises.pool.leases) :
    Exclusive ip history' f' :=
  ⟨fun k h => hl (e.leased k (hh k h)), fun j k hj hk => e.apart j k (hh j hj) (hh k hk)⟩

theorem exclusive_of_none (h : ∀ k, ¬ f.Holds history k ip) : Exclusive ip history f :=
  ⟨fun k hk => absurd hk (h k), fun j _ hj => absurd hj (h j)⟩

theorem Orderly.holds_of_starting {d : ProcessDriver} (o : Orderly history f)
    (h : f.sites[k]? = some ⟨d, some ip⟩) : f.Holds history k ip := by
  refine ⟨address?_of_site h, fun hk => ?_⟩
  obtain ⟨site, hs, hstarting, -⟩ := o.gone k ip hk
  cases h.symm.trans hs
  cases hstarting

theorem Orderly.holds_of_uses (o : Orderly history f) (h : f.Uses k ip) : f.Holds history k ip := by
  obtain ⟨⟨d, starting⟩, hs, h⟩ := h
  rcases h with rfl | ⟨p, hp, he, ha⟩
  · exact o.holds_of_starting hs
  · have hstarting : starting = none := by
      by_contra hne
      have hfresh := o.fresh k _ hs (Option.isSome_iff_ne_none.2 hne)
      cases hp.symm.trans hfresh
    subst hstarting
    dsimp only at hp
    refine ⟨by simp [address?_of_site hs, ProcessSite.address?, hp, ha], fun hk => ?_⟩
    obtain ⟨site, hs', -, hreturned⟩ := o.gone k ip hk
    cases hs.symm.trans hs'
    simp [ProcessDriver.returned?, hp, he] at hreturned

theorem holds_of_snoc {x : Happening ProcessFactory Action Effect}
    (haddress : f'.address? k = some ip → f.address? k = some ip)
    (h : f'.Holds (history ++ [x]) k ip) : f.Holds history k ip := by
  refine ⟨haddress h.1, fun hk => h.2 ?_⟩
  rw [returns_snoc]
  exact List.mem_append_left _ hk

theorem address?_of_setSite {site site' : ProcessSite} {premises : Premises}
    (hs : f.sites[k]? = some site) (ha : site'.address? = some ip → site.address? = some ip)
    (h : ({ f with premises }.setSite k site').address? j = some ip) :
    f.address? j = some ip := by
  rw [address?_setSite (by simp [hs])] at h
  split at h
  · rename_i hjk
    subst hjk
    rw [address?_of_site hs]
    exact ha h
  · exact h

section Exclusive

variable {d : ProcessDriver} {other : Ipv4} {premises : Premises}
  {x : Happening ProcessFactory Action Effect}

theorem Exclusive.begun (e : Exclusive ip history f) (hs : f.sites[k]? = some ⟨d, none⟩)
    (ha : f.premises.pool.allocate = .ok (other, premises.pool)) :
    Exclusive ip (history ++ [x]) ({ f with premises }.setSite k ⟨d, some other⟩) := by
  obtain ⟨hfree, hpool⟩ := AddressPool.allocate_eq_ok_iff.1 ha
  obtain ⟨⟨-, hfree⟩, -⟩ := AddressPool.free?_eq_some_iff.1 hfree
  have hleases : premises.pool.leases = other :: f.premises.pool.leases := by rw [hpool]
  by_cases hip : other = ip
  · subst hip
    have hself (j : Nat)
        (hj : Holds (history ++ [x]) ({ f with premises }.setSite k ⟨d, some other⟩) j other) :
        k = j := by
      by_contra hjk
      refine hfree (e.leased j (holds_of_snoc (fun h => ?_) hj))
      rw [address?_setSite (by simp [hs]), if_neg hjk] at h
      exact h
    refine ⟨fun _ _ => ?_, fun i j hi hj => (hself i hi).symm.trans (hself j hj)⟩
    show other ∈ premises.pool.leases
    simp [hleases]
  · refine e.mono (fun j => holds_of_snoc (address?_of_setSite hs fun h => ?_)) fun h => ?_
    · exact absurd (Option.some.inj h) hip
    · show ip ∈ premises.pool.leases
      simp [hleases, h]

theorem Exclusive.failed (e : Exclusive ip history f) (o : Orderly history f)
    (hs : f.sites[k]? = some ⟨d, some other⟩)
    (hp : premises.pool = (f.premises.pool.release other).2) :
    Exclusive ip (history ++ [x]) ({ f with premises }.setSite k ⟨d, none⟩) := by
  have hfresh : d.process = none := o.fresh k _ hs rfl
  have hnone : ProcessSite.address? ⟨d, none⟩ = none := by
    simp [ProcessSite.address?, hfresh]
  have hback (j : Nat) : Holds (history ++ [x]) (setSite { f with premises } k ⟨d, none⟩) j ip →
      f.Holds history j ip :=
    holds_of_snoc (address?_of_setSite hs (by simp [hnone]))
  by_cases hip : other = ip
  · subst hip
    refine exclusive_of_none fun j hj => ?_
    have hjk := e.apart k j (o.holds_of_starting hs) (hback j hj)
    have haddress := hj.1
    rw [address?_setSite (by simp [hs]), if_pos hjk, hnone] at haddress
    cases haddress
  · refine e.mono hback fun h => ?_
    show ip ∈ premises.pool.leases
    rw [hp]
    exact o.proper.mem_release.2 ⟨h, Ne.symm hip⟩

theorem Exclusive.released {id : String} (e : Exclusive ip history f) (o : Orderly history f)
    (hs : f.sites[k]? = some ⟨d, none⟩)
    (hp : premises.pool = match d.returned? with
      | some ip => (f.premises.pool.release ip).2
      | none => f.premises.pool)
    (once : (returns (history ++ [⟨f, .release k id, effects⟩])).count (k, ip) ≤ 1) :
    Exclusive ip (history ++ [⟨f, .release k id, effects⟩]) { f with premises } := by
  have hback (j : Nat) : Holds (history ++ [⟨f, .release k id, effects⟩]) { f with premises } j ip →
      f.Holds history j ip := holds_of_snoc fun h => h
  by_cases hip : d.returned? = some ip
  · have hnow : returns (history ++ [⟨f, .release k id, effects⟩]) = returns history ++ [(k, ip)] :=
      by rw [returns_snoc_release hs, hip]; rfl
    have hfirst : (k, ip) ∉ returns history := by
      rw [hnow, List.count_append, List.count_singleton_self] at once
      rw [← List.count_pos_iff]
      omega
    have hk : f.Holds history k ip :=
      ⟨(address?_of_site hs).trans (ProcessDriver.address_of_returned? hip), hfirst⟩
    refine exclusive_of_none fun j hj => ?_
    obtain rfl := e.apart k j hk (hback j hj)
    exact hj.2 (by simp [hnow])
  · refine e.mono hback fun h => ?_
    show ip ∈ premises.pool.leases
    rw [hp]
    split
    · rename_i other hother
      refine o.proper.mem_release.2 ⟨h, ?_⟩
      rintro rfl
      exact hip hother
    · exact h

theorem exclusive_move (e : Exclusive ip history f) (o : Orderly history f) (h : Move f a f')
    (once : ∀ k, (returns (history ++ [⟨f, a, effects⟩])).count (k, ip) ≤ 1) :
    Exclusive ip (history ++ [⟨f, a, effects⟩]) f' := by
  cases h with
  | created jail d hd =>
    refine e.mono (fun k => holds_of_snoc fun h => ?_) id
    obtain ⟨site, hs, ha⟩ := Option.bind_eq_some_iff.1 h
    rcases getElem?_concat_eq_some.1 hs with hs | ⟨-, rfl⟩
    · exact (address?_of_site hs).trans ha
    · simp [ProcessSite.address?, hd] at ha
  | begun k d other pool hs hd ha => exact e.begun hs ha
  | notBegun k => exact e.mono (fun _ => holds_of_snoc id) id
  | failed k id refuses d other files hs => exact e.failed o hs rfl
  | started k id refuses d other files hs =>
    exact e.mono (fun _ => holds_of_snoc (address?_of_setSite hs fun h => h)) fun h => h
  | driven k a d d' hs hd hr =>
    refine e.mono (fun _ => holds_of_snoc (address?_of_setSite hs ?_)) id
    simp only [ProcessSite.address?, hd.address]
    exact id
  | released k id d premises hs hp => exact e.released o hs hp (once k)
  | written files => exact e.mono (fun _ => holds_of_snoc id) id

end Exclusive

/-- Of a run in which no driver gives the address back twice. -/
theorem exclusive_of_run (run : Run (step config) (new config files) history f)
    (once : ∀ k, (returns history).count (k, ip) ≤ 1) :
    Orderly history f ∧ Exclusive ip history f := by
  induction run with
  | nil => exact ⟨orderly_new, exclusive_of_none nofun⟩
  | @snoc history f f' a effects run h ih =>
    have hbefore (k : Nat) : (returns history).count (k, ip) ≤ 1 := by
      have hcount := once k
      rw [returns_snoc, List.count_append] at hcount
      omega
    obtain ⟨o, e⟩ := ih hbefore
    have hmove := move_of_step h
    exact ⟨orderly_move o hmove, exclusive_move e o hmove once⟩

/-- However the machines of a factory are started, stopped and released, an address at which a
process runs is leased, and no other process runs there, as long as no driver has given that
address back more than once: a second release takes it from whoever has got it since. -/
theorem running_addresses_are_leased (run : Run (step config) (new config files) history f)
    (once : ∀ k, (returns history).count (k, ip) ≤ 1) :
    (∀ k, f.Uses k ip → ip ∈ f.premises.pool.leases) ∧
    ∀ j k, f.Uses j ip → f.Uses k ip → j = k := by
  obtain ⟨o, e⟩ := exclusive_of_run run once
  exact ⟨fun k hk => e.leased k (o.holds_of_uses hk),
    fun j k hj hk => e.apart j k (o.holds_of_uses hj) (o.holds_of_uses hk)⟩

theorem uses_of_process {p : Process} (h : f.sites[k]?.bind (·.driver.process) = some p)
    (hp : p.exit = none) : f.Uses k p.address := by
  obtain ⟨site, hs, hprocess⟩ := Option.bind_eq_some_iff.1 h
  exact ⟨site, hs, .inr ⟨p, hprocess, hp, rfl⟩⟩

def startActions (driver : Nat) : List Action :=
  [.beginStart driver, .endStart driver "machine" fun _ _ => none]

def successionActions : List Action :=
  [.create "first", .create "second", .create "third"] ++ startActions 0 ++
    [.exit 0 .success, .release 0 "machine"] ++ startActions 1

theorem successor_has_address_to_itself :
    ∃ history f, Run (step (.defaults "")) (new (.defaults "") .empty) history f ∧
      history.map (·.input) = successionActions ∧
      returns history = [(0, .ofBytes 10 0 0 2)] ∧
      f.Uses 1 (.ofBytes 10 0 0 2) ∧
      .ofBytes 10 0 0 2 ∈ f.premises.pool.leases ∧
      ∀ k, f.Uses k (.ofBytes 10 0 0 2) → k = 1 := by
  obtain ⟨⟨history, f⟩, hr⟩ :
      ∃ r, replay (step (.defaults "")) (new (.defaults "") .empty) successionActions = some r :=
    ⟨_, rfl⟩
  have run := Run.of_replay hr
  have hreturns : returns history = [(0, .ofBytes 10 0 0 2)] :=
    history_of_replay hr returns rfl
  have hprocess : f.sites[1]?.bind (·.driver.process) =
      some ⟨.ofBytes 10 0 0 2, false, none, []⟩ :=
    last_of_replay hr (fun f => f.sites[1]?.bind (·.driver.process)) rfl
  have huses : f.Uses 1 (.ofBytes 10 0 0 2) := uses_of_process hprocess rfl
  have honce (k : Nat) : (returns history).count (k, .ofBytes 10 0 0 2) ≤ 1 := by
    rw [hreturns]
    exact List.count_le_length
  obtain ⟨hleased, hapart⟩ := running_addresses_are_leased run honce
  exact ⟨history, f, run, map_input_of_replay hr, hreturns, huses, hleased 1 huses,
    fun k hk => hapart k 1 hk huses⟩

/-- A driver that is released again takes the address from the machine that has it now, and the
next machine gets it too. -/
theorem second_release_frees_address_in_use :
    (∃ history f, Run (step (.defaults "")) (new (.defaults "") .empty) history f ∧
      history.map (·.input) = successionActions ++ [.release 0 "machine"] ∧
      f.Uses 1 (.ofBytes 10 0 0 2) ∧ .ofBytes 10 0 0 2 ∉ f.premises.pool.leases) ∧
    ∃ history f, Run (step (.defaults "")) (new (.defaults "") .empty) history f ∧
      history.map (·.input) = successionActions ++ [.release 0 "machine"] ++ startActions 2 ∧
      f.Uses 1 (.ofBytes 10 0 0 2) ∧ f.Uses 2 (.ofBytes 10 0 0 2) := by
  constructor
  · obtain ⟨⟨history, f⟩, hr⟩ :
        ∃ r, replay (step (.defaults "")) (new (.defaults "") .empty)
          (successionActions ++ [.release 0 "machine"]) = some r := ⟨_, rfl⟩
    have hprocess : f.sites[1]?.bind (·.driver.process) =
        some ⟨.ofBytes 10 0 0 2, false, none, []⟩ :=
      last_of_replay hr (fun f => f.sites[1]?.bind (·.driver.process)) rfl
    have hleases : f.premises.pool.leases = [] := last_of_replay hr (·.premises.pool.leases) rfl
    exact ⟨history, f, Run.of_replay hr, map_input_of_replay hr, uses_of_process hprocess rfl,
      by simp [hleases]⟩
  · obtain ⟨⟨history, f⟩, hr⟩ :
        ∃ r, replay (step (.defaults "")) (new (.defaults "") .empty)
          (successionActions ++ [.release 0 "machine"] ++ startActions 2) = some r := ⟨_, rfl⟩
    have hrunning (k : Nat) (hk : k = 1 ∨ k = 2) : f.sites[k]?.bind (·.driver.process) =
        some ⟨.ofBytes 10 0 0 2, false, none, []⟩ := by
      rcases hk with rfl | rfl
      · exact last_of_replay hr (fun f => f.sites[1]?.bind (·.driver.process)) rfl
      · exact last_of_replay hr (fun f => f.sites[2]?.bind (·.driver.process)) rfl
    exact ⟨history, f, Run.of_replay hr, map_input_of_replay hr,
      uses_of_process (hrunning 1 (.inl rfl)) rfl, uses_of_process (hrunning 2 (.inr rfl)) rfl⟩

end ProcessFactory

end MachineFleet
