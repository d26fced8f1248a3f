import MachineFleet.Proofs.Fleet.Registry
import MachineFleet.Proofs.Run
import MachineFleet.Server.Api

namespace MachineFleet

namespace Registry

variable {γ : Type}

inductive Operation (γ : Type) where
  | add (id : String) (controller : γ) (address : IpAddress)
  | remove (id : String)
  | setReady (id : String) (ready : Bool)
  | exit (controller : γ)

inductive Reply (γ : Type) where
  | added (result : Except Error Unit)
  | removed (controller : Option γ)
  | done

def Operation.readySet? (id : String) : Operation γ → Option Bool
  | .setReady id' ready => if id' = id then some ready else none
  | _ => none

end Registry

namespace Server.Api

variable {γ : Type}

theorem answerEntries_eq_of_perm {entries ordered : List (Entry γ)} (hperm : entries.Perm ordered)
    (hordered : ordered.Pairwise (·.id < ·.id)) :
    answerEntries entries = ⟨200, some (.list (ordered.map entryJson))⟩ := by
  let le (a b : Entry γ) : Bool := decide (a.id ≤ b.id)
  have hsame : (entries.mergeSort le).Perm ordered := (entries.mergeSort_perm le).trans hperm
  have hsorted : (entries.mergeSort le).Pairwise (le · ·) := by
    apply List.pairwise_mergeSort
    · intro a b c hab hbc
      simp only [le, decide_eq_true_eq] at hab hbc ⊢
      exact String.le_trans hab hbc
    · intro a b
      simpa [le] using String.le_total a.id b.id
  -- No identity stands twice, so the order that sorting leaves is strict, and there is one such.
  have hdistinct : (entries.mergeSort le).Pairwise (·.id ≠ ·.id) := by
    apply hsame.symm.pairwise _ Ne.symm
    apply hordered.imp
    intro a b hlt heq
    exact String.lt_irrefl _ (heq ▸ hlt)
  have hstrict : (entries.mergeSort le).Pairwise (·.id < ·.id) := by
    apply (hsorted.and hdistinct).imp
    intro a b hab
    have hle : a.id ≤ b.id := by simpa [le] using hab.1
    exact Dict.lt_of_not_lt_of_ne (String.not_lt.2 hle) hab.2.symm
  have heq : entries.mergeSort le = ordered := by
    apply hsame.eq_of_pairwise _ hstrict hordered
    intro a b _ _ hab hba
    exact absurd (String.lt_trans hab hba) (String.lt_irrefl _)
  rw [answerEntries, heq]

end Server.Api

structure Directory (γ : Type) where
  registry : Registry γ
  exited : List γ

namespace Directory

open Registry (Operation Reply)

variable {γ : Type} {d d' : Directory γ} {op : Operation γ} {reply : Reply γ} {id : String}
  {e : Entry γ} {c : γ}

def start : Directory γ := ⟨.empty, []⟩

def step [DecidableEq γ] (d : Directory γ) : Operation γ → Option (Directory γ × List (Reply γ))
  | .add id c address =>
    match d.registry.add id c (d.exited.contains c) address with
    | .ok registry => some ({ d with registry }, [.added (.ok ())])
    | .error e => some (d, [.added (.error e)])
  | .remove id =>
    let (controller, registry) := d.registry.take id
    some ({ d with registry }, [.removed controller])
  | .setReady id ready => some ({ d with registry := d.registry.setReady id ready }, [.done])
  | .exit c => some ({ d with exited := c :: d.exited }, [.done])

/-- Only what stands under one identity is another. -/
structure Changes (d : Directory γ) (id : String) (entry : Option (Entry γ)) (d' : Directory γ) :
    Prop where
  there : d'.registry.get? id = entry
  elsewhere : ∀ id' ≠ id, d'.registry.get? id' = d.registry.get? id'
  exited : d'.exited = d.exited

/-- What an operation hands back and leaves behind. A machine that is not taken in, is not there to
be removed or is not known leaves everything as it was; of the faults of a machine that is not taken
in the first one is told. -/
inductive Outcome (d : Directory γ) : Operation γ → Reply γ → Directory γ → Prop
  | unnamed (c : γ) (address : IpAddress) :
      Outcome d (.add "" c address) (.added (.error (.invalidArgument .emptyMachineId))) d
  | exited {id : String} {c : γ} (address : IpAddress) (named : id ≠ "") (gone : c ∈ d.exited) :
      Outcome d (.add id c address) (.added (.error (.invalidArgument (.controllerExited id)))) d
  | present {id : String} {c : γ} {e : Entry γ} (address : IpAddress) (named : id ≠ "")
      (runs : c ∉ d.exited) (there : d.registry.get? id = some e) :
      Outcome d (.add id c address) (.added (.error (.alreadyExists id))) d
  | added {id : String} {c : γ} {address : IpAddress} {d' : Directory γ} (named : id ≠ "")
      (runs : c ∉ d.exited) (free : d.registry.get? id = none)
      (changes : d.Changes id (some ⟨id, c, address, false⟩) d') :
      Outcome d (.add id c address) (.added (.ok ())) d'
  | absent {id : String} (free : d.registry.get? id = none) :
      Outcome d (.remove id) (.removed none) d
  | removed {id : String} {e : Entry γ} {d' : Directory γ} (there : d.registry.get? id = some e)
      (changes : d.Changes id none d') : Outcome d (.remove id) (.removed (some e.controller)) d'
  | unknown {id : String} (ready : Bool) (free : d.registry.get? id = none) :
      Outcome d (.setReady id ready) .done d
  | set {id : String} {ready : Bool} {e : Entry γ} {d' : Directory γ}
      (there : d.registry.get? id = some e) (changes : d.Changes id (some { e with ready }) d') :
      Outcome d (.setReady id ready) .done d'
  | exit (c : γ) : Outcome d (.exit c) .done { d with exited := c :: d.exited }

theorem changes_put (he : e.id = id) :
    d.Changes id (some e) { d with registry := d.registry.put e } where
  there := by rw [Registry.get?_put, if_pos he.symm]
  elsewhere id' hid' := by rw [Registry.get?_put, if_neg (he ▸ hid')]
  exited := rfl

theorem changes_remove : d.Changes id none { d with registry := d.registry.remove id } where
  there := by rw [Registry.get?_remove, if_pos rfl]
  elsewhere id' hid' := by rw [Registry.get?_remove, if_neg hid']
  exited := rfl

theorem outcome_add [DecidableEq γ] (d : Directory γ) (id : String) (c : γ) (address : IpAddress) :
    ∃ reply d', d.step (.add id c address) = some (d', [reply]) ∧
      Outcome d (.add id c address) reply d' := by
  simp only [step, Registry.add]
  by_cases hid : id = ""
  · subst hid
    exact ⟨_, d, rfl, .unnamed c address⟩
  have hnamed : ¬ id.isEmpty = true := by simpa using hid
  rw [if_neg hnamed]
  by_cases hc : c ∈ d.exited
  · rw [if_pos (List.contains_iff_mem.2 hc)]
    exact ⟨_, d, rfl, .exited address hid hc⟩
  rw [if_neg (mt List.contains_iff_mem.1 hc)]
  cases he : d.registry.get? id with
  | some e =>
    have hsome : (d.registry.entries.find? id).isSome = true := by
      rw [← Registry.get?, he]
      rfl
    rw [if_pos hsome]
    exact ⟨_, d, rfl, .present address hid hc he⟩
  | none =>
    have hnone : ¬ (d.registry.entries.find? id).isSome = true := by
      rw [← Registry.get?, he]
      simp
    rw [if_neg hnone]
    exact ⟨_, _, rfl, .added hid hc he (changes_put rfl)⟩

theorem outcome_remove [DecidableEq γ] (d : Directory γ) (id : String) :
    ∃ reply d', d.step (.remove id) = some (d', [reply]) ∧ Outcome d (.remove id) reply d' := by
  simp only [step, Registry.take]
  cases he : d.registry.get? id with
  | some e => exact ⟨_, _, rfl, .removed he changes_remove⟩
  | none =>
    rw [Registry.remove_of_get?_eq_none he]
    exact ⟨_, d, rfl, .absent he⟩

theorem outcome_setReady [DecidableEq γ] (d : Directory γ) (id : String) (ready : Bool) :
    ∃ reply d', d.step (.setReady id ready) = some (d', [reply]) ∧
      Outcome d (.setReady id ready) reply d' := by
  simp only [step, Registry.setReady]
  cases he : d.registry.get? id with
  | some e =>
    have hid : e.id = id := Registry.id_of_get? he
    exact ⟨_, _, rfl, .set he (changes_put hid)⟩
  | none => exact ⟨_, d, rfl, .unknown ready he⟩

theorem exists_outcome [DecidableEq γ] (d : Directory γ) (op : Operation γ) :
    ∃ reply d', d.step op = some (d', [reply]) ∧ Outcome d op reply d' := by
  cases op with
  | add id c address => exact outcome_add d id c address
  | remove id => exact outcome_remove d id
  | setReady id ready => exact outcome_setReady d id ready
  | exit c => exact ⟨_, _, rfl, .exit c⟩

theorem outcome_of_step [DecidableEq γ] {replies : List (Reply γ)}
    (h : d.step op = some (d', replies)) : ∃ reply, replies = [reply] ∧ Outcome d op reply d' := by
  obtain ⟨reply, after, hstep, houtcome⟩ := exists_outcome d op
  rw [hstep] at h
  cases h
  exact ⟨reply, rfl, houtcome⟩

theorem Changes.get?_eq {entry : Option (Entry γ)} (h : d.Changes id entry d') (id' : String) :
    d'.registry.get? id' = if id' = id then entry else d.registry.get? id' := by
  split
  · rename_i heq
    rw [heq, h.there]
  · rename_i hne
    exact h.elsewhere id' hne

theorem Outcome.get?_eq_some_iff (h : Outcome d op reply d') (id : String) (e : Entry γ) :
    d'.registry.get? id = some e ↔
      (op = .add id e.controller e.address ∧ reply = .added (.ok ()) ∧ e.id = id ∧
          e.ready = false) ∨
        (op ≠ .remove id ∧ ∃ old, d.registry.get? id = some old ∧
          e = { old with ready := (op.readySet? id).getD old.ready }) := by
  -- Operations that change nothing, or nothing under this identity, leave what was there.
  cases h with
  | unnamed c address => simp [Operation.readySet?]
  | exited address named gone => simp [Operation.readySet?]
  | present address named runs there => simp [Operation.readySet?]
  | exit c => simp [Operation.readySet?]
  | @added id' c address d' named runs free changes =>
    rw [changes.get?_eq]
    by_cases hid : id = id'
    · subst hid
      rw [if_pos rfl]
      constructor
      · intro heq
        cases heq
        exact .inl ⟨rfl, rfl, rfl, rfl⟩
      · rintro (⟨hop, -, hid, hready⟩ | ⟨-, old, hold, -⟩)
        · cases e
          cases hop
          simp_all
        · cases free.symm.trans hold
    · have hne : id' ≠ id := Ne.symm hid
      simp [hid, hne, Operation.readySet?]
  | @absent id' free =>
    have hne (he : d.registry.get? id = some e) : id' ≠ id := by
      rintro rfl
      cases free.symm.trans he
    simpa [Operation.readySet?] using hne
  | @removed id' old d' there changes =>
    rw [changes.get?_eq]
    by_cases hid : id = id'
    · simp [hid]
    · have hne : id' ≠ id := Ne.symm hid
      simp [hid, hne, Operation.readySet?]
  | @unknown id' ready free =>
    by_cases hid : id = id'
    · simp [hid, free]
    · have hne : id' ≠ id := Ne.symm hid
      simp [hne, Operation.readySet?]
  | @set id' ready old d' there changes =>
    rw [changes.get?_eq]
    by_cases hid : id = id'
    · subst hid
      simpa [there, Operation.readySet?] using eq_comm
    · have hne : id' ≠ id := Ne.symm hid
      simp [hid, hne, Operation.readySet?]

theorem Outcome.mem_exited_iff (h : Outcome d op reply d') (c : γ) :
    c ∈ d'.exited ↔ c ∈ d.exited ∨ op = .exit c := by
  cases h with
  | exit c' => simp [or_comm, eq_comm]
  | added named runs free changes => simp [changes.exited]
  | removed there changes => simp [changes.exited]
  | set there changes => simp [changes.exited]
  | _ => simp

abbrev Past (γ : Type) := List (Happening (Directory γ) (Operation γ) (Reply γ))

variable {history since : Past γ} {x : Happening (Directory γ) (Operation γ) (Reply γ)}

def lastReady (id : String) (since : Past γ) : Bool :=
  ((since.filterMap (·.input.readySet? id)).getLast?).getD false

/-- A machine was taken in with this controller and this address, and not removed since then. -/
def TakenIn (history : Past γ) (id : String) (c : γ) (address : IpAddress) (since : Past γ) :
    Prop :=
  (∃ past x, history = past ++ x :: since ∧ x.input = .add id c address ∧
    x.effects = [.added (.ok ())]) ∧ ∀ y ∈ since, y.input ≠ .remove id

/-- By the history this is what stands under an identity. -/
def Stands (history : Past γ) (id : String) (e : Entry γ) : Prop :=
  ∃ since, TakenIn history id e.controller e.address since ∧ e.id = id ∧
    e.ready = lastReady id since

theorem lastReady_concat (id : String) (since : Past γ) :
    lastReady id (since ++ [x]) = (x.input.readySet? id).getD (lastReady id since) := by
  cases h : x.input.readySet? id <;> simp [lastReady, h]

theorem takenIn_concat {address : IpAddress} :
    TakenIn (history ++ [x]) id c address since ↔
      (since = [] ∧ x.input = .add id c address ∧ x.effects = [.added (.ok ())]) ∨
        ∃ since', since = since' ++ [x] ∧ TakenIn history id c address since' ∧
          x.input ≠ .remove id := by
  constructor
  · rintro ⟨⟨past, y, hhistory, hinput, heffects⟩, hkept⟩
    -- Either nothing has happened since the machine was taken in, or the last step is part of it.
    rcases List.eq_nil_or_concat since with rfl | ⟨since', z, rfl⟩
    · obtain ⟨-, hxy⟩ := List.append_inj' hhistory rfl
      cases hxy
      exact .inl ⟨rfl, hinput, heffects⟩
    · rw [List.concat_eq_append] at hhistory hkept
      rw [← List.cons_append, ← List.append_assoc] at hhistory
      obtain ⟨rfl, hxz⟩ := List.append_inj' hhistory rfl
      cases hxz
      have hlast : x.input ≠ .remove id := hkept x (by simp)
      have hfront : ∀ y ∈ since', y.input ≠ .remove id := fun y hy => hkept y (by simp [hy])
      exact .inr ⟨since', List.concat_eq_append, ⟨⟨past, y, rfl, hinput, heffects⟩, hfront⟩, hlast⟩
  · rintro (⟨rfl, hinput, heffects⟩ | ⟨since', rfl, ⟨⟨past, y, rfl, hinput, heffects⟩, hkept⟩, hlast⟩)
    · exact ⟨⟨history, x, rfl, hinput, heffects⟩, by simp⟩
    · refine ⟨⟨past, y, by simp, hinput, heffects⟩, ?_⟩
      intro z hz
      rcases List.mem_append.1 hz with hz | hz
      · exact hkept z hz
      · rwa [List.mem_singleton.1 hz]

theorem stands_concat :
    Stands (history ++ [x]) id e ↔
      (x.input = .add id e.controller e.address ∧ x.effects = [.added (.ok ())] ∧ e.id = id ∧
          e.ready = false) ∨
        (x.input ≠ .remove id ∧ ∃ old, Stands history id old ∧
          e = { old with ready := (x.input.readySet? id).getD old.ready }) := by
  constructor
  · rintro ⟨since, htaken, hid, hready⟩
    rcases takenIn_concat.1 htaken with ⟨rfl, hinput, heffects⟩ | ⟨since', rfl, htaken, hlast⟩
    · exact .inl ⟨hinput, heffects, hid, hready⟩
    · refine .inr ⟨hlast, { e with ready := lastReady id since' }, ⟨since', htaken, hid, rfl⟩, ?_⟩
      rw [← lastReady_concat, ← hready]
  · rintro (⟨hinput, heffects, hid, hready⟩ | ⟨hlast, old, ⟨since, htaken, hid, hready⟩, rfl⟩)
    · exact ⟨[], takenIn_concat.2 (.inl ⟨rfl, hinput, heffects⟩), hid, hready⟩
    · refine ⟨since ++ [x], takenIn_concat.2 (.inr ⟨since, rfl, htaken, hlast⟩), hid, ?_⟩
      rw [lastReady_concat, ← hready]

variable [DecidableEq γ]

theorem get?_eq_some_iff_stands (run : Run step start history d) :
    ∀ id e, d.registry.get? id = some e ↔ Stands history id e := by
  apply run.invariant (P := fun history d => ∀ id e, d.registry.get? id = some e ↔ Stands history id e)
  · -- Nothing stands in an empty registry, and nothing by an empty history.
    intro id e
    have hnone : ¬ Stands [] id e := by
      rintro ⟨since, ⟨⟨past, x, h, -⟩, -⟩, -⟩
      simp at h
    have hempty : (start : Directory γ).registry.get? id = none := rfl
    simp [hnone, hempty]
  · -- One operation changes both sides by the same rule.
    intro history d op d' replies ih hstep id e
    obtain ⟨reply, rfl, houtcome⟩ := outcome_of_step hstep
    rw [houtcome.get?_eq_some_iff, stands_concat]
    simp [ih]

theorem mem_exited_iff (run : Run step start history d) :
    ∀ c, c ∈ d.exited ↔ ∃ x ∈ history, x.input = .exit c := by
  apply run.invariant (P := fun history d => ∀ c, c ∈ d.exited ↔ ∃ x ∈ history, x.input = .exit c)
  · simp [start]
  · intro history d op d' replies ih hstep c
    obtain ⟨reply, rfl, houtcome⟩ := outcome_of_step hstep
    rw [houtcome.mem_exited_iff, ih]
    simp [or_and_right, exists_or]

theorem get?_empty_id (run : Run step start history d) : d.registry.get? "" = none := by
  apply run.invariant (P := fun _ d => d.registry.get? "" = none)
  · rfl
  · intro history d op d' replies ih hstep
    obtain ⟨reply, rfl, houtcome⟩ := outcome_of_step hstep
    cases houtcome with
    | added named runs free changes => rw [changes.elsewhere "" (Ne.symm named), ih]
    | removed there changes => rw [changes.get?_eq, ih, ite_self]
    | @set id ready e d' there changes =>
      -- The machine whose readiness is set stands there, so its identity is not empty.
      have hne : "" ≠ id := by
        rintro rfl
        cases ih.symm.trans there
      rw [changes.elsewhere "" hne, ih]
    | _ => exact ih

theorem take_eq_some_iff_takenIn (run : Run step start history d) (id : String) (c : γ) :
    (d.registry.take id).1 = some c ↔ ∃ address since, TakenIn history id c address since := by
  have hstands := get?_eq_some_iff_stands run id
  rw [Registry.take, Option.map_eq_some_iff]
  constructor
  · rintro ⟨e, he, rfl⟩
    obtain ⟨since, htaken, -, -⟩ := (hstands e).1 he
    exact ⟨e.address, since, htaken⟩
  · rintro ⟨address, since, htaken⟩
    have he : Stands history id ⟨id, c, address, lastReady id since⟩ := ⟨since, htaken, rfl, rfl⟩
    exact ⟨_, (hstands _).2 he, rfl⟩

/-- A directory with this history is a finite map from identities to machines. -/
structure IsFiniteMap (history : Past γ) (d : Directory γ) : Prop where
  stands (id : String) (e : Entry γ) : d.registry.get? id = some e ↔ Stands history id e
  exited (c : γ) : c ∈ d.exited ↔ ∃ x ∈ history, x.input = .exit c
  outcome (op : Operation γ) :
    ∃ reply d', d.step op = some (d', [reply]) ∧ Outcome d op reply d'
  take (id : String) (c : γ) :
    (d.registry.take id).1 = some c ↔ ∃ address since, TakenIn history id c address since
  named : d.registry.get? "" = none
  nodup_ids : (d.registry.snapshot.map (·.id)).Nodup
  mem_snapshot (id : String) (e : Entry γ) :
    e ∈ d.registry.snapshot ∧ e.id = id ↔ d.registry.get? id = some e
  mem_readyEntries (e : Entry γ) :
    e ∈ d.registry.readyEntries ↔ e ∈ d.registry.snapshot ∧ e.ready = true
  nodup_readyEntries : (d.registry.readyEntries.map (·.id)).Nodup
  size : d.registry.size = d.registry.snapshot.length
  /-- The list that is served has every machine once, in increasing order of identities, and is the
  same for every order in which the map may give them. -/
  listed : ∃ ordered : List (Entry γ), ordered.Perm d.registry.snapshot ∧
    ordered.Pairwise (·.id < ·.id) ∧ ∀ entries, entries.Perm d.registry.snapshot →
      Server.Api.answerEntries entries =
        ⟨200, some (.list (ordered.map Server.Api.entryJson))⟩

/-- After any sequence of machines taken in, removed and changed in readiness, and of controllers
that exit, the registry is a finite map of the machines that the history leaves in it: what the next
operation hands back and changes, and what every reader sees, are those of the map. -/
theorem run_isFiniteMap (run : Run step start history d) : d.IsFiniteMap history where
  stands := get?_eq_some_iff_stands run
  exited := mem_exited_iff run
  outcome := exists_outcome d
  take := take_eq_some_iff_takenIn run
  named := get?_empty_id run
  nodup_ids := d.registry.nodup_ids
  mem_snapshot id e := by
    constructor
    · rintro ⟨he, rfl⟩
      exact Registry.mem_snapshot.1 he
    · intro he
      exact ⟨Registry.mem_snapshot_of_get? he, Registry.id_of_get? he⟩
  mem_readyEntries e := by rw [Registry.readyEntries, List.mem_filter]
  nodup_readyEntries := (List.filter_sublist.map _).nodup d.registry.nodup_ids
  size := d.registry.size_eq_length
  listed := by
    have hordered := d.registry.pairwise_snapshot
    refine ⟨d.registry.snapshot, .refl _, hordered, ?_⟩
    intro entries hperm
    exact Server.Api.answerEntries_eq_of_perm hperm hordered

/-- A machine that is refused twice over, since its identity is taken and since its controller has
exited, and one that takes the place of a removed one. -/
def twoMachines : List (Operation Nat) :=
  [.add "b" 1 default, .add "a" 2 default, .setReady "b" true, .add "b" 3 default, .exit 4,
    .add "c" 4 default, .remove "b", .add "b" 3 default, .setReady "a" true]

theorem twoMachines_isFiniteMap :
    ∃ history d, replay step start twoMachines = some (history, d) ∧
      d.registry.snapshot = [⟨"a", 2, default, true⟩, ⟨"b", 3, default, false⟩] ∧
      d.IsFiniteMap history := by
  obtain ⟨⟨history, d⟩, hr⟩ : ∃ r, replay step start twoMachines = some r :=
    Option.isSome_iff_exists.1 (by decide +kernel)
  have hsnapshot := last_of_replay hr (fun d => d.registry.snapshot)
    (b := [⟨"a", 2, default, true⟩, ⟨"b", 3, default, false⟩]) (by decide +kernel)
  exact ⟨history, d, hr, hsnapshot, run_isFiniteMap (Run.of_replay hr)⟩

end Directory

end MachineFleet
