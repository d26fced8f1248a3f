import MachineFleet.Proofs.Config
import MachineFleet.Proofs.Files.Removal
import MachineFleet.Proofs.Machine.ProcessFactory

namespace MachineFleet

theorem hasTwoDots_of_adjacent {text : List Char} (h : ['.', '.'] <:+: text) :
    hasTwoDots text = true := by
  fun_induction hasTwoDots text with
  | case1 => rfl
  | case2 c rest hdots ih =>
    rcases List.infix_cons_iff.1 h with ⟨after, heq⟩ | hrest
    · cases heq
      exact absurd rfl (hdots after rfl)
    · exact ih hrest
  | case3 => cases List.infix_nil.1 h

namespace Path

variable {root : Path} {names : List String}

theorem isName_of_hex {text : String} (hne : text ≠ "")
    (h : text.toList.all (fun c => isHexDigit c || c == '-') = true) : IsName text where
  ne_empty := hne
  ne_current := by
    rintro rfl
    exact absurd h (by decide)
  ne_parent := by
    rintro rfl
    exact absurd h (by decide)
  no_slash := fun hslash => absurd (List.all_eq_true.1 h '/' hslash) (by decide)

/-- An absolute path to something below the directory of jails that never goes up. -/
structure IsJailRoot (root : Path) (names : List String) : Prop where
  isAbsolute : root.isAbsolute = true
  components_eq : root.components = .root :: .name "srv" :: names.map .name
  names_ne_nil : names ≠ []

theorem IsJailRoot.parent_notMem (h : root.IsJailRoot names) : .parent ∉ root.components := by
  simp [h.components_eq]

theorem IsJailRoot.resolve_eq (h : root.IsJailRoot names) : root.resolve = "srv" :: names := by
  rw [resolve_eq_names h.parent_notMem, h.components_eq]
  simp [List.filterMap_cons, List.filterMap_map, Function.comp_def, Component.name?]

theorem IsJailRoot.isBelow (h : root.IsJailRoot names) : root.IsBelow "/srv" := by
  have hsrv : components "/srv" = [.root, .name "srv"] := by decide +kernel
  rw [IsBelow, hsrv, h.components_eq]
  refine ⟨List.prefix_append [_, _] _, fun heq => h.names_ne_nil ?_⟩
  simpa using heq

theorem IsJailRoot.not_refused (h : root.IsJailRoot names) : root.isRefusedAsRoot = false := by
  have hparent : root.hasNoParent = false := by
    obtain ⟨front, last, rfl⟩ := (List.eq_nil_or_concat names).resolve_left h.names_ne_nil
    simp [hasNoParent, h.components_eq, List.getLast?_cons]
  simp [isRefusedAsRoot, h.isAbsolute, hparent, h.parent_notMem]

/-- Its removal is not refused, and changes nothing but what is at or below it. -/
theorem IsJailRoot.removed (h : root.IsJailRoot names) (t : Files.Tree) :
    (removeIsolatedRoot t root).2 ≠ .error (.invalidArgument (.rootRefused root)) ∧
      ∀ place, ¬ "srv" :: names <+: place →
        (removeIsolatedRoot t root).1.node? place = t.node? place := by
  have hframe (place : Files.Place) (hp : ¬ "srv" :: names <+: place) :
      (t.removeDirectory root).1.node? place = t.node? place :=
    Files.Tree.node?_removeDirectory (by rwa [h.resolve_eq])
  rw [removeIsolatedRoot, if_neg (by simp [h.not_refused])]
  split <;> rename_i hr <;> rw [hr] at hframe <;> exact ⟨nofun, hframe⟩

end Path

namespace JailerConfig

variable {c : JailerConfig} {jail : String}

theorem baseDir_of_check (h : c.check = .ok ()) :
    c.baseDir.isAbsolute = true ∧
      ∃ names : List String, c.baseDir.components = .root :: .name "srv" :: names.map .name := by
  obtain ⟨⟨rest, hbase⟩, hdots, -⟩ := check_eq_ok.1 h
  have hsrv : jailParent.toList = ['/', 's', 'r', 'v'] ++ ['/'] := by decide +kernel
  have habs : c.baseDir.isAbsolute = true := by
    rw [Path.isAbsolute, ← hbase, hsrv]
    rfl
  have hup (piece : List Char) (hp : piece ∈ Path.pieces rest) : piece ≠ ['.', '.'] := by
    rintro rfl
    have hinfix : ['.', '.'] <:+: c.baseDir.toList :=
      hbase ▸ (Path.infix_of_mem_pieces hp).trans (List.suffix_append ..).isInfix
    rw [hasTwoDots_of_adjacent hinfix] at hdots
    cases hdots
  have hnames (pieces : List (List Char)) (hp : ∀ piece ∈ pieces, piece ≠ ['.', '.']) :
      ∃ names : List String, pieces.filterMap Path.component? = names.map .name := by
    induction pieces with
    | nil => exact ⟨[], rfl⟩
    | cons piece more ih =>
      obtain ⟨names, heq⟩ := ih fun other ho => hp other (List.mem_cons_of_mem _ ho)
      have hpiece := hp piece (List.mem_cons_self ..)
      rw [List.filterMap_cons, heq]
      cases hc : Path.component? piece with
      | none => exact ⟨names, rfl⟩
      | some component =>
        obtain ⟨name, rfl⟩ := Path.exists_name_of_component? hpiece hc
        exact ⟨name :: names, rfl⟩
  refine ⟨habs, ?_⟩
  obtain ⟨names, heq⟩ := hnames _ hup
  refine ⟨names, ?_⟩
  rw [Path.components_eq habs, ← hbase, hsrv, List.append_assoc, List.singleton_append,
    Path.pieces_append_slash, List.filterMap_append, heq]
  rfl

theorem root?_of_check (h : c.check = .ok ()) :
    ∃ name below, c.execFile.fileName? = some name ∧ ∀ jail, Path.IsName jail →
      ∃ root, c.root? jail = some root ∧ root = Path.join (Path.join c.baseDir name) jail ∧
        root.IsJailRoot (below ++ [jail]) := by
  obtain ⟨habs, names, hbase⟩ := baseDir_of_check h
  obtain ⟨-, -, name, hname⟩ := check_eq_ok.1 h
  have hplain := Path.isName_of_fileName? hname
  have hinner := Path.isAbsolute_join habs hplain.not_absolute
  refine ⟨name, names ++ [name], hname, fun jail hjail => ⟨_, ?_, rfl, ?_⟩⟩
  · rw [root?, hname]
    rfl
  · exact {
      isAbsolute := Path.isAbsolute_join hinner hjail.not_absolute
      components_eq := by
        rw [Path.components_join hinner hjail, Path.components_join habs hplain, hbase]
        simp
      names_ne_nil := by simp }

end JailerConfig

namespace ProcessDriver

variable {config : MachineConfig}

theorem jailRoot_call (n : Nat) (c : ExitCall) (d : ProcessDriver) :
    (d.call n c).1.jailRoot = d.jailRoot := by
  unfold call
  split
  · rfl
  · dsimp only
    split <;> rfl

theorem jailRoot_refuse (n : Nat) (failure : Error) (d : ProcessDriver) :
    (d.refuse n failure).1.jailRoot = d.jailRoot := by
  unfold refuse
  split
  · split <;> rfl
  · rfl

theorem jailRoot_recordExit (exit : MachineExit) (d : ProcessDriver) :
    (d.recordExit exit).1.jailRoot = d.jailRoot := by
  unfold recordExit
  split
  · split <;> rfl
  · rfl

theorem jailRoot_endStart (refuses : Files.Tree → Launch → Option Files.Failure) (id : String)
    (address : Ipv4) (d : ProcessDriver) (on : Premises) :
    (d.endStart config refuses id address on).1.jailRoot = d.jailRoot := by
  unfold endStart
  split <;> rfl

end ProcessDriver

namespace ProcessFactory

variable {config : MachineConfig} {f f' : ProcessFactory} {a : Action} {effects : List Effect}
  {history : List (Happening ProcessFactory Action Effect)} {files : Files.Tree}

def Action.jail? : Action → Option String
  | .create jail => some jail
  | _ => none

def jails (history : List (Happening ProcessFactory Action Effect)) : List String :=
  history.filterMap (·.input.jail?)

def jailRoots (f : ProcessFactory) : List (Option Path) := f.sites.map (·.driver.jailRoot)

theorem jailRoots_setSite {k : Nat} {site site' : ProcessSite} (hs : f.sites[k]? = some site)
    (hd : site'.driver.jailRoot = site.driver.jailRoot) (premises : Premises) :
    ({ f with premises }.setSite k site').jailRoots = f.jailRoots := by
  refine List.ext_getElem? fun i => ?_
  have hne : { f with premises }.sites[k]? ≠ none := by simp [hs]
  have hset : ({ f with premises }.setSite k site').sites[i]? =
      if k = i then some site' else f.sites[i]? := getElem?_setSite hne
  rw [jailRoots, jailRoots, List.getElem?_map, List.getElem?_map, hset]
  split
  · rename_i hk
    rw [← hk, hs, Option.map_some, Option.map_some, hd]
  · rfl

theorem jailRoots_drive {k : Nat} {go : ProcessDriver → ProcessDriver × List ProcessDriver.Effect}
    (hgo : ∀ d : ProcessDriver, (go d).1.jailRoot = d.jailRoot)
    (h : f.drive k go = some (f', effects)) : f'.jailRoots = f.jailRoots := by
  unfold drive at h
  split at h
  · rename_i d hs
    cases h
    exact jailRoots_setSite hs (hgo d) f.premises
  · cases h

theorem jailRoots_step (h : step config f a = some (f', effects)) (ha : a.jail? = none) :
    f'.jailRoots = f.jailRoots := by
  cases a with
  | create jail => cases ha
  | beginStart k =>
    simp only [step] at h
    split at h
    · rename_i d hs
      split at h
      · cases h
        rfl
      · rename_i pool _
        cases h
        refine jailRoots_setSite hs ?_ { f.premises with pool }
        rfl
    · cases h
  | endStart k id refuses =>
    simp only [step] at h
    split at h
    · rename_i d ip hs
      cases h
      exact jailRoots_setSite hs (ProcessDriver.jailRoot_endStart ..) _
    · cases h
  | call k n c => exact jailRoots_drive (ProcessDriver.jailRoot_call n c) h
  | refuse k n failure => exact jailRoots_drive (ProcessDriver.jailRoot_refuse n failure) h
  | exit k exit => exact jailRoots_drive (ProcessDriver.jailRoot_recordExit exit) h
  | release k id =>
    simp only [step] at h
    split at h
    · cases h
      rfl
    · cases h
  | write files =>
    cases h
    rfl

/-- At all times a driver reports the root that belongs to the name of its jail. -/
theorem jailRoots_of_run (run : Run (step config) (new config files) history f) :
    f.jailRoots = (jails history).map fun jail => (ProcessDriver.new config jail).jailRoot := by
  refine run.invariant (P := fun history f => f.jailRoots = (jails history).map fun jail =>
    (ProcessDriver.new config jail).jailRoot) rfl fun history f a f' effects ih h => ?_
  rw [jails, filterMap_concat, List.map_append, ← jails, ← ih]
  cases ha : a.jail? with
  | none => simpa using jailRoots_step h ha
  | some jail =>
    cases a with
    | create _ =>
      cases ha
      cases h
      simp [jailRoots]
    | _ => cases ha

/-- Whatever a factory and its drivers go through, if its configuration was accepted each driver
has an isolated root of its own below the directory of jails, at the base directory, the name of
the jailed executable and the name of the jail. Its removal is never refused and reaches nothing
outside that directory, nor anything in the root of another driver. -/
theorem isolated_roots_lie_apart {c : FleetConfig} {jailer : JailerConfig}
    (hvalid : c.validate = .ok ()) (hjailer : c.machine.jailer = some jailer)
    (run : Run (step c.machine) (new c.machine files) history f)
    (hplain : ∀ jail ∈ jails history, Path.IsName jail) :
    ∃ name, jailer.execFile.fileName? = some name ∧
      ∀ (k : Nat) (site : ProcessSite), f.sites[k]? = some site → ∃ jail root,
        (jails history)[k]? = some jail ∧ site.driver.jailRoot = some root ∧
        root = Path.join (Path.join jailer.baseDir name) jail ∧
        .parent ∉ root.components ∧ root.IsBelow "/srv" ∧
        (∀ t, (removeIsolatedRoot t root).2 ≠ .error (.invalidArgument (.rootRefused root)) ∧
          ∀ place, (removeIsolatedRoot t root).1.node? place ≠ t.node? place →
            ["srv"] <+: place ∧ place ≠ ["srv"]) ∧
        ∀ (j : Nat) (other : ProcessSite) (otherRoot : Path), f.sites[j]? = some other →
          other.driver.jailRoot = some otherRoot → (jails history)[j]? ≠ some jail →
            ¬ root.components <+: otherRoot.components ∧
            ∀ t place, otherRoot.resolve <+: place →
              (removeIsolatedRoot t root).1.node? place = t.node? place := by
  have hcheck : jailer.check = .ok () :=
    (MachineConfig.check_eq_ok.1 (FleetConfig.validate_eq_ok.1 hvalid).2.2.2.2).2.2 jailer hjailer
  obtain ⟨name, below, hname, hroot⟩ := JailerConfig.root?_of_check hcheck
  have hroots := jailRoots_of_run run
  -- What the driver made for each name reports.
  have hsite (k : Nat) (site : ProcessSite) (hs : f.sites[k]? = some site) :
      ∃ jail root, (jails history)[k]? = some jail ∧ site.driver.jailRoot = some root ∧
        root = Path.join (Path.join jailer.baseDir name) jail ∧
        root.IsJailRoot (below ++ [jail]) := by
    have hk := congrArg (·[k]?) hroots
    simp only [jailRoots, List.getElem?_map, hs, Option.map_some] at hk
    obtain ⟨jail, hjail, hd⟩ := Option.map_eq_some_iff.1 hk.symm
    obtain ⟨root, hr, heq, hin⟩ := hroot jail (hplain jail (List.mem_of_getElem? hjail))
    refine ⟨jail, root, hjail, ?_, heq, hin⟩
    rw [← hd, ProcessDriver.new, hjailer]
    exact hr
  refine ⟨name, hname, fun k site hs => ?_⟩
  obtain ⟨jail, root, hjail, hr, heq, hin⟩ := hsite k site hs
  refine ⟨jail, root, hjail, hr, heq, hin.parent_notMem, hin.isBelow, fun t => ?_, ?_⟩
  · obtain ⟨hresult, hframe⟩ := hin.removed t
    refine ⟨hresult, fun place hchanged => ?_⟩
    obtain ⟨rest, rfl⟩ := Classical.byContradiction fun hn => hchanged (hframe place hn)
    simp
  · intro j other otherRoot ho hor hne
    obtain ⟨otherJail, otherRoot', hoj, hor', -, hoin⟩ := hsite j other ho
    cases hor.symm.trans hor'
    have hjails : jail ≠ otherJail := fun h => hne (h ▸ hoj)
    -- Both roots are equally deep, so that only one and the same can hold the other.
    have hdiffer : below ++ [jail] ≠ below ++ [otherJail] := by simpa using hjails
    refine ⟨fun hprefix => ?_, fun t place hplace => (hin.removed t).2 place fun hprefix => ?_⟩
    · rw [hin.components_eq, hoin.components_eq] at hprefix
      have hsame := hprefix.eq_of_length (by simp)
      exact hdiffer (by simpa using hsame)
    · rw [hoin.resolve_eq] at hplace
      have hshort := List.prefix_of_prefix_length_le hprefix hplace (by simp)
      have hsame := hshort.eq_of_length (by simp)
      exact hdiffer (by simpa using hsame)

/-- A fleet that is jailed below a directory written in a roundabout way. -/
def jailedFleet : FleetConfig :=
  let plain := FleetConfig.defaults ""
  { plain with machine := { plain.machine with
      jailer := some ⟨"/usr/bin/firecracker/.", "/srv//./jailer/"⟩ } }

def firstJail : String := "6f1c0d2e-7b1a-4c57-9d0e-2f6a3b8c9d10"

def secondJail : String := "0b9e4d77-51c2-4f3e-8a66-c0ffee123456"

/-- The second of two machines loses nothing when the root of the first is removed. -/
theorem two_jails_lie_apart :
    jailedFleet.validate = .ok () ∧
    ∃ history f first second,
      Run (step jailedFleet.machine) (new jailedFleet.machine .empty) history f ∧
      history.map (·.input) = [.create firstJail, .create secondJail] ∧
      f.jailRoots = [some first, some second] ∧
      first = "/srv//./jailer/firecracker/6f1c0d2e-7b1a-4c57-9d0e-2f6a3b8c9d10" ∧
      first.IsBelow "/srv" ∧ ¬ first.components <+: second.components ∧
      ∀ t, (removeIsolatedRoot t first).1.node? second.resolve = t.node? second.resolve := by
  have hvalid : jailedFleet.validate = .ok () := by decide +kernel
  obtain ⟨⟨history, f⟩, hr⟩ :
      ∃ r, replay (step jailedFleet.machine) (new jailedFleet.machine .empty)
        [.create firstJail, .create secondJail] = some r := ⟨_, rfl⟩
  have run := Run.of_replay hr
  have hjails : jails history = [firstJail, secondJail] := history_of_replay hr jails rfl
  have hplain (jail : String) (hj : jail ∈ jails history) : Path.IsName jail := by
    rw [hjails] at hj
    rcases List.mem_cons.1 hj with rfl | hj
    · exact Path.isName_of_hex (by decide +kernel) (by decide +kernel)
    · obtain rfl := List.mem_singleton.1 hj
      exact Path.isName_of_hex (by decide +kernel) (by decide +kernel)
  obtain ⟨name, hname, hroots⟩ := isolated_roots_lie_apart hvalid rfl run hplain
  obtain rfl : name = "firecracker" := Option.some.inj (hname.symm.trans (by decide +kernel))
  have hlength : f.sites.length = 2 := last_of_replay hr (·.sites.length) rfl
  obtain ⟨one, two, hsites⟩ := List.length_eq_two.1 hlength
  obtain ⟨jail, first, hjail, hfirst, heq, -, hbelow, -, hapart⟩ :=
    hroots 0 one (by rw [hsites]; rfl)
  obtain ⟨otherJail, second, -, hsecond, -⟩ := hroots 1 two (by rw [hsites]; rfl)
  rw [hjails] at hjail hapart
  cases hjail
  obtain ⟨hnot, hframe⟩ := hapart 1 two second (by rw [hsites]; rfl) hsecond (by decide +kernel)
  refine ⟨hvalid, history, f, first, second, run, map_input_of_replay hr, ?_,
    heq.trans (by decide +kernel), hbelow, hnot, fun t => hframe t _ List.prefix_rfl⟩
  rw [jailRoots, hsites, List.map_cons, List.map_cons, List.map_nil, hfirst, hsecond]

end ProcessFactory

end MachineFleet
