import MachineFleet.Machine.ProcessDriver
import MachineFleet.Proofs.Files.Removal
import Mathlib.Data.List.Infix

namespace MachineFleet

open Files (Tree Place Node)

namespace Files.Tree

/-- Nothing has changed but at or below one entry of a directory. -/
def KeepsToOneEntry (directory : Place) (before after : Tree) : Prop :=
  ∃ entry, ∀ place, after.node? place ≠ before.node? place → directory ++ [entry] <+: place

theorem nodeAt?_of_directories {entries : List (Place × Node)} {place : Place}
    (h : ∀ e ∈ entries, e.2 = .directory) (hmem : place = [] ∨ ∃ e ∈ entries, e.1 = place) :
    nodeAt? entries place = some .directory := by
  unfold nodeAt?
  split
  · rfl
  · rename_i hne
    obtain ⟨e, he, heq⟩ := hmem.resolve_left hne
    cases hfind : entries.find? (·.1 == place) with
    | none => exact absurd heq (by simpa using List.find?_eq_none.1 hfind e he)
    | some first => simp [h first (List.mem_of_find?_eq_some hfind)]

def ofDirectories (places : List Place) : Tree where
  entries := (places.flatMap List.inits).map fun place => (place, .directory)
  closed := by
    intro e he
    obtain ⟨place, hplace, rfl⟩ := List.mem_map.1 he
    obtain ⟨deepest, hdeepest, hinit⟩ := List.mem_flatMap.1 hplace
    apply nodeAt?_of_directories
    · intro other hother
      obtain ⟨_, -, rfl⟩ := List.mem_map.1 hother
      rfl
    · refine .inr ⟨(place.dropLast, .directory), List.mem_map.2 ⟨place.dropLast, ?_, rfl⟩, rfl⟩
      refine List.mem_flatMap.2 ⟨deepest, hdeepest, (List.mem_inits _ _).2 ?_⟩
      exact (List.dropLast_prefix place).trans (((List.mem_inits _ _).1 hinit))

theorem node?_ofDirectories {places : List Place} {place : Place} (h : place ∈ places) :
    (ofDirectories places).node? place = some .directory := by
  apply nodeAt?_of_directories
  · intro other hother
    obtain ⟨_, -, rfl⟩ := List.mem_map.1 hother
    rfl
  · refine .inr ⟨(place, .directory), List.mem_map.2 ⟨place, ?_, rfl⟩, rfl⟩
    exact List.mem_flatMap.2 ⟨place, h, (List.mem_inits _ _).2 List.prefix_rfl⟩

def alongPath (p : Path) (more : List Place) : Tree :=
  ofDirectories (p.components.inits.map (leadsTo []) ++ more)

theorem find_alongPath {p : Path} (hend : endOfPath ∉ p.toList) (more : List Place) :
    (alongPath p more).find p = .ok (p.resolve, .directory) := by
  have hthrough (place : Place) (h : LeadsThrough p place) :
      (alongPath p more).node? place = some .directory := by
    obtain ⟨front, hfront, rfl⟩ := h
    apply node?_ofDirectories
    exact List.mem_append_left _ (List.mem_map.2 ⟨front, (List.mem_inits _ _).2 hfront, rfl⟩)
  have hlast : (alongPath p more).node? p.resolve = some .directory :=
    hthrough _ ⟨p.components, List.prefix_rfl, resolve_eq_leadsTo p⟩
  rw [find, locate_eq_ok hend hthrough]
  simp only [bind, Except.bind, hlast]
  rfl

end Files.Tree

namespace ProcessDriver

variable {config : MachineConfig} {id : String} {files : Tree} {place : Place}

theorem removeCache_of_directory
    (h : files.find (cachePath config id) = .ok (place, .directory)) :
    (removeCache config id files).1 = (files.removeDirectory (cachePath config id)).1 := by
  rw [removeCache, h]

theorem removeCache_of_file {contents : List UInt8}
    (h : files.find (cachePath config id) = .ok (place, .file contents)) :
    removeCache config id files =
      (files, .error (.invalidArgument (.cacheNotDirectory (cachePath config id)))) := by
  rw [removeCache, h]

theorem removeCache_of_error {e : Files.Failure}
    (h : files.find (cachePath config id) = .error e) : (removeCache config id files).1 = files := by
  rw [removeCache, h]
  cases e <;> rfl

theorem node?_removeCache (h : ¬ (cachePath config id).resolve <+: place) :
    (removeCache config id files).1.node? place = files.node? place := by
  cases hfind : files.find (cachePath config id) with
  | error e => rw [removeCache_of_error hfind]
  | ok found =>
    obtain ⟨there, node⟩ := found
    cases node with
    | file contents => rw [removeCache_of_file hfind]
    | directory => rw [removeCache_of_directory hfind, Tree.node?_removeDirectory h]

/-- The identity leads to something below the directory of caches. -/
def LeadsBelowCache (config : MachineConfig) (id : String) : Prop :=
  config.network.cacheDir.resolve <+: (cachePath config id).resolve ∧
    config.network.cacheDir.resolve ≠ (cachePath config id).resolve

theorem keepsToOneEntry_of_leadsBelowCache (h : LeadsBelowCache config id) (files : Tree) :
    files.KeepsToOneEntry config.network.cacheDir.resolve (removeCache config id files).1 := by
  obtain ⟨⟨rest, hrest⟩, hne⟩ := h
  obtain ⟨entry, more, rfl⟩ := List.exists_cons_of_ne_nil
    (l := rest) (fun hnil => hne (by simpa [hnil] using hrest))
  refine ⟨entry, fun place hchanged => ?_⟩
  have hplace : (cachePath config id).resolve <+: place := by
    by_contra hnot
    exact hchanged (node?_removeCache hnot)
  refine List.IsPrefix.trans ⟨more, ?_⟩ hplace
  simpa using hrest

/-- An identity that leads nowhere below the directory of caches reaches beyond one entry of it, in
some tree of files. -/
theorem leadsBelowCache_of_keeps (hend : Tree.endOfPath ∉ (cachePath config id).toList)
    (h : ∀ files : Tree, files.KeepsToOneEntry config.network.cacheDir.resolve
      (removeCache config id files).1) : LeadsBelowCache config id := by
  let caches := config.network.cacheDir.resolve
  let target := (cachePath config id).resolve
  -- Two entries of the directory of caches, and one of the directory that is removed.
  let more : List Place := [caches ++ ["a"], caches ++ ["b"], target ++ ["a"]]
  let files := Tree.alongPath (cachePath config id) more
  obtain ⟨entry, hentry⟩ := h files
  have hkept (place : Place) (hmem : place ∈ more) (hbelow : target <+: place)
      (hne : place ≠ target) : caches ++ [entry] <+: place := by
    have hfind := Tree.find_alongPath hend more
    have hbefore : files.node? place = some .directory :=
      Tree.node?_ofDirectories (List.mem_append_right _ hmem)
    apply hentry
    rw [removeCache_of_directory hfind, Tree.node?_removeDirectory_below hfind hbelow hne, hbefore]
    exact nofun
  by_cases habove : target <+: caches
  · -- Both entries of the directory of caches go, and they are different.
    have hgone (text : String) (hmem : caches ++ [text] ∈ more) : entry = text := by
      have hway := hkept _ hmem (habove.trans (List.prefix_append _ _)) ?_
      · simpa using hway.eq_of_length (by simp)
      · intro heq
        have hlength := habove.length_le
        rw [← heq, List.length_append, List.length_singleton] at hlength
        omega
    have hab : "a" = "b" := (hgone "a" (by simp [more])).symm.trans (hgone "b" (by simp [more]))
    exact absurd hab (by decide)
  · have hway := hkept (target ++ ["a"]) (by simp [more]) (List.prefix_append _ _) (by simp)
    rcases List.prefix_concat_iff.1 hway with heq | hbelow
    · obtain ⟨hsame, -⟩ := List.append_inj' heq rfl
      exact absurd (hsame ▸ List.prefix_rfl) habove
    · refine ⟨(List.prefix_append _ _).trans hbelow, fun heq => habove ?_⟩
      show target <+: caches
      rw [show caches = target from heq]

theorem leadsBelowCache_of_relative (habs : config.network.cacheDir.isAbsolute = true)
    (hrelative : Path.isAbsolute id = false) (hup : .parent ∉ Path.components id)
    (hnames : Path.resolve id ≠ []) : LeadsBelowCache config id := by
  rw [LeadsBelowCache, cachePath, Path.resolve_join habs hrelative hup]
  refine ⟨List.prefix_append _ _, fun heq => hnames ?_⟩
  simpa using heq

/-- The release of a machine's network changes nothing in the tree of files but at or below the place
to which the identity leads from the directory of caches. This is one entry of the directory, in
every tree, exactly if the identity leads below the directory or cannot be asked for; every relative
identity that names something and does not go up leads below it. What is found there and is not a
directory is left as it is. -/
theorem release_keeps_to_cache (config : MachineConfig) (id : String)
    (habs : config.network.cacheDir.isAbsolute = true) :
    (∀ (d : ProcessDriver) (on : Premises) (place : Place),
      (d.release config id on).1.files.node? place ≠ on.files.node? place →
        (cachePath config id).resolve <+: place) ∧
    ((∀ (d : ProcessDriver) (on : Premises), on.files.KeepsToOneEntry
        config.network.cacheDir.resolve (d.release config id on).1.files) ↔
      Tree.endOfPath ∈ (cachePath config id).toList ∨ LeadsBelowCache config id) ∧
    (Path.isAbsolute id = false → .parent ∉ Path.components id → Path.resolve id ≠ [] →
      LeadsBelowCache config id) ∧
    (∀ (d : ProcessDriver) (on : Premises),
      (∀ place, on.files.find (cachePath config id) ≠ .ok (place, .directory)) →
        (d.release config id on).1.files = on.files) ∧
    ∀ (d : ProcessDriver) (on : Premises) (place : Place) (contents : List UInt8),
      on.files.find (cachePath config id) = .ok (place, .file contents) →
        (d.release config id on).2 =
          .error (.invalidArgument (.cacheNotDirectory (cachePath config id))) := by
  have hfiles (d : ProcessDriver) (on : Premises) :
      (d.release config id on).1.files = (removeCache config id on.files).1 := rfl
  have hunfound (files : Tree)
      (h : ∀ place, files.find (cachePath config id) ≠ .ok (place, .directory)) :
      (removeCache config id files).1 = files := by
    cases hfind : files.find (cachePath config id) with
    | error e => exact removeCache_of_error hfind
    | ok found =>
      obtain ⟨place, node⟩ := found
      cases node with
      | file contents => rw [removeCache_of_file hfind]
      | directory => exact absurd hfind (h place)
  refine ⟨?_, ⟨?_, ?_⟩, leadsBelowCache_of_relative habs, ?_, ?_⟩
  · intro d on place hchanged
    by_contra hnot
    exact hchanged (node?_removeCache hnot)
  · intro hkeeps
    by_cases hend : Tree.endOfPath ∈ (cachePath config id).toList
    · exact .inl hend
    · exact .inr (leadsBelowCache_of_keeps hend fun files =>
        hkeeps (.new config id) ⟨.new config.network.subnet, files⟩)
  · rintro (hend | hbelow) d on
    · rw [hfiles, hunfound on.files fun place => by rw [Tree.find_of_endOfPath hend]; exact nofun]
      exact ⟨"", fun place hchanged => absurd rfl hchanged⟩
    · exact keepsToOneEntry_of_leadsBelowCache hbelow on.files
  · intro d on h
    exact hunfound on.files h
  · intro d on place contents h
    rw [release, removeCache_of_file h]

def twoCaches : Premises where
  pool := .new (FleetConfig.defaults "").machine.network.subnet
  files := Tree.ofDirectories [["var", "lib", "cni", "m1", "results"], ["var", "lib", "cni", "m2"],
    ["etc"]]

theorem other_cache_stays :
    let config := (FleetConfig.defaults "").machine
    config.network.cacheDir.isAbsolute = true ∧
      twoCaches.files.KeepsToOneEntry ["var", "lib", "cni"]
        ((ProcessDriver.new config "").release config "m1" twoCaches).1.files ∧
      ((ProcessDriver.new config "").release config "m1" twoCaches).1.files.node?
        ["var", "lib", "cni", "m1"] = none ∧
      ((ProcessDriver.new config "").release config "m1" twoCaches).1.files.node?
        ["var", "lib", "cni", "m2"] = some .directory := by
  intro config
  have habs : config.network.cacheDir.isAbsolute = true := by decide +kernel
  have hcaches : config.network.cacheDir.resolve = ["var", "lib", "cni"] := by decide +kernel
  obtain ⟨-, hkeeps, hbelow, -, -⟩ := release_keeps_to_cache config "m1" habs
  have hleads : LeadsBelowCache config "m1" :=
    hbelow (by decide +kernel) (by decide +kernel) (by decide +kernel)
  refine ⟨habs, ?_, by decide +kernel, by decide +kernel⟩
  rw [← hcaches]
  exact hkeeps.2 (.inr hleads) (.new config "") twoCaches

/-- A directory that is no entry of the one with the caches is not to change. -/
theorem not_keepsToOneEntry {directory : Place} {before after : Tree} (place : Place)
    (hplace : place.length ≤ directory.length) (hbefore : before.node? place = some .directory)
    (hafter : after.node? place = none) : ¬ before.KeepsToOneEntry directory after := by
  rintro ⟨entry, hentry⟩
  have hway := hentry place (by rw [hbefore, hafter]; exact nofun)
  have hlength := hway.length_le
  rw [List.length_append, List.length_singleton] at hlength
  omega

/-- The empty identity removes the directory of caches itself, with the caches of all machines; an
identity that goes up does so too, and an absolute one removes what it names. -/
theorem identities_reach_beyond_cache :
    let config := (FleetConfig.defaults "").machine
    config.network.cacheDir.isAbsolute = true ∧ ∀ id ∈ ["", "..", "/etc"],
      ((ProcessDriver.new config "").release config id twoCaches).2 = .ok () ∧
      ¬ twoCaches.files.KeepsToOneEntry config.network.cacheDir.resolve
        ((ProcessDriver.new config "").release config id twoCaches).1.files := by
  intro config
  refine ⟨by decide +kernel, ?_⟩
  simp only [List.forall_mem_cons, List.not_mem_nil, false_imp_iff, implies_true, and_true]
  refine ⟨⟨by decide +kernel, ?_⟩, ⟨by decide +kernel, ?_⟩, by decide +kernel, ?_⟩
  · exact not_keepsToOneEntry ["var", "lib", "cni"] (by decide +kernel)
      (by decide +kernel) (by decide +kernel)
  · exact not_keepsToOneEntry ["var", "lib", "cni"] (by decide +kernel)
      (by decide +kernel) (by decide +kernel)
  · exact not_keepsToOneEntry ["etc"] (by decide +kernel) (by decide +kernel)
      (by decide +kernel)

end ProcessDriver

end MachineFleet
