import MachineFleet.Proofs.Data.Document

namespace MachineFleet

open Json (Given)

variable (omitted : List String → Bool)

namespace ProbeConfig

def without (c : ProbeConfig) : ProbeConfig where
  scheme := if omitted ["scheme"] then defaults.scheme else c.scheme
  port := if omitted ["port"] then defaults.port else c.port
  path := if omitted ["path"] then defaults.path else c.path
  initialDelayMs := if omitted ["initial_delay_ms"] then defaults.initialDelayMs
    else c.initialDelayMs
  periodMs := if omitted ["period_ms"] then defaults.periodMs else c.periodMs
  timeoutMs := if omitted ["timeout_ms"] then defaults.timeoutMs else c.timeoutMs
  successThreshold := if omitted ["success_threshold"] then defaults.successThreshold
    else c.successThreshold
  failureThreshold := if omitted ["failure_threshold"] then defaults.failureThreshold
    else c.failureThreshold

theorem readsAs_toJson (form : RecordForm) (c : ProbeConfig) :
    (c.toJson.without omitted).ReadsAs (ofDocument? form) (c.without omitted) := by
  intro w hw
  obtain ⟨fs, hfs, given⟩ := Json.exists_given form fieldNames hw (by simp)
  have hscheme := given.getD_eq "scheme" (.text c.scheme) (by simp) (by decide)
    (Json.readsAs_text _) defaults.scheme
  have hport := given.getD_eq "port" (.ofNat c.port.toNat) (by simp) (by decide)
    (Json.readsAs_uint16 _) defaults.port
  have hpath := given.getD_eq "path" (.text c.path) (by simp) (by decide)
    (Json.readsAs_text _) defaults.path
  have hinitialDelay := given.getD_eq "initial_delay_ms" (.ofNat c.initialDelayMs.toNat)
    (by simp) (by decide) (Json.readsAs_uint64 _) defaults.initialDelayMs
  have hperiod := given.getD_eq "period_ms" (.ofNat c.periodMs.toNat) (by simp) (by decide)
    (Json.readsAs_uint64 _) defaults.periodMs
  have htimeout := given.getD_eq "timeout_ms" (.ofNat c.timeoutMs.toNat) (by simp) (by decide)
    (Json.readsAs_uint64 _) defaults.timeoutMs
  have hsuccess := given.getD_eq "success_threshold" (.ofNat c.successThreshold.toNat)
    (by simp) (by decide) (Json.readsAs_uint32 _) defaults.successThreshold
  have hfailure := given.getD_eq "failure_threshold" (.ofNat c.failureThreshold.toNat)
    (by simp) (by decide) (Json.readsAs_uint32 _) defaults.failureThreshold
  rw [ofDocument?, hfs]
  simp only [Option.bind_eq_bind, Option.bind_some, hscheme, hport, hpath, hinitialDelay, hperiod,
    htimeout, hsuccess, hfailure]
  rfl

theorem isExact_toJson (c : ProbeConfig) : c.toJson.IsExact :=
  ⟨trivial, Json.isExact_uint16 _, trivial, Json.isExact_uint64 _, Json.isExact_uint64 _,
    Json.isExact_uint64 _, Json.isExact_uint32 _, Json.isExact_uint32 _, trivial⟩

end ProbeConfig

namespace NetworkConfig

def without (c : NetworkConfig) : NetworkConfig where
  subnet := if omitted ["subnet"] then defaults.subnet else c.subnet
  cacheDir := if omitted ["cni_cache_dir"] then defaults.cacheDir else c.cacheDir

theorem readsAs_subnet (s : Subnet) : (Json.text s.render).ReadsAs Document.subnet? s := by
  refine Json.readsAs_of_not_record nofun ?_
  have htext : (Json.text s.render).document.text? = some s.render := rfl
  rw [Document.subnet?, htext, Option.bind_some, s.parse?_render]

theorem readsAs_toJson (form : RecordForm) (c : NetworkConfig) :
    (c.toJson.without omitted).ReadsAs (ofDocument? form) (c.without omitted) := by
  intro w hw
  obtain ⟨fs, hfs, given⟩ := Json.exists_given form fieldNames hw (by simp)
  have hsubnet := given.getD_eq "subnet" (.text c.subnet.render) (by simp) (by decide)
    (readsAs_subnet _) defaults.subnet
  have hcacheDir := given.getD_eq "cni_cache_dir" (.text c.cacheDir) (by simp) (by decide)
    (Json.readsAs_text _) defaults.cacheDir
  rw [ofDocument?, hfs]
  simp only [Option.bind_eq_bind, Option.bind_some, hsubnet, hcacheDir]
  rfl

theorem isExact_toJson (c : NetworkConfig) : c.toJson.IsExact :=
  ⟨trivial, trivial, trivial⟩

end NetworkConfig

namespace JailerConfig

theorem readsAs_toJson (form : RecordForm) (c : JailerConfig)
    (hgiven : ∀ name ∈ fieldNames, omitted [name] = false) :
    (c.toJson.without omitted).ReadsAs (ofDocument? form) c := by
  intro w hw
  obtain ⟨fs, hfs, given⟩ := Json.exists_given form fieldNames hw (by simp)
  have hexecFile := given.require_eq "exec_file" (.text c.execFile) (by simp) (by decide)
    (hgiven _ (by decide)) (Json.readsAs_text _)
  have hbaseDir := given.require_eq "chroot_base_dir" (.text c.baseDir) (by simp) (by decide)
    (hgiven _ (by decide)) (Json.readsAs_text _)
  rw [ofDocument?, hfs]
  simp only [Option.bind_eq_bind, Option.bind_some, hexecFile, hbaseDir]
  rfl

theorem isRefused_toJson (form : RecordForm) (c : JailerConfig) {name : String}
    (hname : name ∈ fieldNames) (homit : omitted [name] = true) :
    (c.toJson.without omitted).IsRefused (ofDocument? form) := by
  intro w hw
  obtain ⟨fs, hfs, given⟩ := Json.exists_given form fieldNames hw (by simp)
  have hmissing {value? : Document → Option String} : fs.require name value? = none :=
    given.require_eq_none homit
  rw [ofDocument?, hfs]
  simp only [fieldNames, List.mem_cons, List.not_mem_nil, or_false] at hname
  rcases hname with rfl | rfl
  · simp [hmissing]
  · simp [hmissing]

end JailerConfig

namespace MachineConfig

variable (home : Path)

def without (c : MachineConfig) : MachineConfig where
  execPath := if omitted ["exec_path"] then (defaults home).execPath else c.execPath
  args := if omitted ["args"] then (defaults home).args else c.args
  env := if omitted ["env"] then (defaults home).env
    else c.env.without fun path => omitted ("env" :: path)
  shutdownTimeoutMs := if omitted ["shutdown_timeout_ms"] then (defaults home).shutdownTimeoutMs
    else c.shutdownTimeoutMs
  logDir := if omitted ["log_dir"] then (defaults home).logDir else c.logDir
  network := if omitted ["network"] then (defaults home).network
    else c.network.without fun path => omitted ("network" :: path)
  jailer := if omitted ["jailer"] then (defaults home).jailer else c.jailer

theorem nodup_names (c : MachineConfig) {fields : List (String × Json)}
    (h : c.toJson = .record fields) : (fields.map (·.1)).Nodup := by
  cases h
  cases c.jailer with
  | none => simp
  | some jailer => simp

theorem readsAs_toJson (form : RecordForm) (c : MachineConfig)
    (hgiven : c.jailer.isSome → omitted ["jailer"] = false → ∀ name ∈ JailerConfig.fieldNames,
      omitted ["jailer", name] = false) :
    (c.toJson.without omitted).ReadsAs (ofDocument? form home) (c.without omitted home) := by
  intro w hw
  obtain ⟨fs, hfs, given⟩ := Json.exists_given form fieldNames hw (c.nodup_names rfl)
  have hexecPath := given.getD_eq "exec_path" (.text c.execPath) (by simp) (by decide)
    (Json.readsAs_text _) (defaults home).execPath
  have hargs := given.getD_eq "args" (.list (c.args.map .text)) (by simp) (by decide)
    (Json.readsAs_texts _) (defaults home).args
  have henv := given.getD_eq "env" (c.env.toJson .text) (by simp) (by decide)
    (Json.readsAs_dict _ (fun s _ => Json.readsAs_text s) c.env _) (defaults home).env
  have hshutdown := given.getD_eq "shutdown_timeout_ms" (.ofNat c.shutdownTimeoutMs.toNat)
    (by simp) (by decide) (Json.readsAs_uint64 _) (defaults home).shutdownTimeoutMs
  have hlogDir := given.getD_eq "log_dir" (.text c.logDir) (by simp) (by decide)
    (Json.readsAs_text _) (defaults home).logDir
  have hnetwork := given.getD_eq "network" c.network.toJson (by simp) (by decide)
    (NetworkConfig.readsAs_toJson _ form c.network) (defaults home).network
  -- A machine that is not jailed has no field for it, which means the same as the default.
  have hjailer : fs.getD "jailer" (Document.optional? (JailerConfig.ofDocument? form))
      (defaults home).jailer =
        some (if omitted ["jailer"] then (defaults home).jailer else c.jailer) := by
    cases hjail : c.jailer with
    | none =>
      rw [given.getD_eq_default "jailer" (by simp [hjail])]
      exact congrArg some (ite_self none).symm
    | some jailer =>
      have hread (hkept : omitted ["jailer"] = false) :=
        JailerConfig.readsAs_toJson (fun path => omitted ("jailer" :: path)) form jailer
          (hgiven (by simp [hjail]) hkept)
      exact given.getD_eq_of_kept "jailer" jailer.toJson (by simp [hjail]) (by decide)
        (fun hkept => (hread hkept).optional) _
  rw [ofDocument?, hfs]
  simp only [Option.bind_eq_bind, Option.bind_some, hexecPath, hargs, henv, hshutdown, hlogDir,
    hnetwork, hjailer]
  rfl

theorem isRefused_toJson (form : RecordForm) {c : MachineConfig} {jailer : JailerConfig}
    (hjail : c.jailer = some jailer) {name : String} (hname : name ∈ JailerConfig.fieldNames)
    (hkept : omitted ["jailer"] = false) (homit : omitted ["jailer", name] = true) :
    (c.toJson.without omitted).IsRefused (ofDocument? form home) := by
  intro w hw
  obtain ⟨fs, hfs, given⟩ := Json.exists_given form fieldNames hw (c.nodup_names rfl)
  have hrefused := JailerConfig.isRefused_toJson (fun path => omitted ("jailer" :: path)) form
    jailer hname homit
  have hnone := given.getD_eq_none "jailer" jailer.toJson (by simp [hjail]) (by decide) hkept
    hrefused.optional (defaults home).jailer
  rw [ofDocument?, hfs]
  simp [hnone]

theorem isExact_toJson (c : MachineConfig) : c.toJson.IsExact := by
  obtain ⟨execPath, args, env, shutdownTimeoutMs, logDir, network, jailer⟩ := c
  have hargs := Json.isExact_texts args
  have henv := Json.isExact_dict .text (fun _ => trivial) env
  have htimeout := Json.isExact_uint64 shutdownTimeoutMs
  have hnetwork := network.isExact_toJson
  cases jailer with
  | none => exact ⟨trivial, hargs, henv, htimeout, trivial, hnetwork, trivial⟩
  | some jailer =>
    exact ⟨trivial, hargs, henv, htimeout, trivial, hnetwork, ⟨trivial, trivial, trivial⟩, trivial⟩

end MachineConfig

namespace FleetConfig

variable (home : Path)

/-- The configuration with default values for what is left out, at any depth. -/
def without (c : FleetConfig) : FleetConfig where
  startTimeoutMs := if omitted ["start_timeout_ms"] then (defaults home).startTimeoutMs
    else c.startTimeoutMs
  stopTimeoutMs := if omitted ["stop_timeout_ms"] then (defaults home).stopTimeoutMs
    else c.stopTimeoutMs
  workloadPort := if omitted ["workload_port"] then (defaults home).workloadPort
    else c.workloadPort
  probe := if omitted ["probe"] then (defaults home).probe
    else c.probe.without fun path => omitted ("probe" :: path)
  machine := if omitted ["machine"] then (defaults home).machine
    else c.machine.without (fun path => omitted ("machine" :: path)) home

theorem readsAs_toJson (form : RecordForm) (c : FleetConfig)
    (hgiven : c.machine.jailer.isSome → omitted ["machine"] = false →
      omitted ["machine", "jailer"] = false → ∀ name ∈ JailerConfig.fieldNames,
        omitted ["machine", "jailer", name] = false) :
    (c.toJson.without omitted).ReadsAs (ofDocument? form home) (c.without omitted home) := by
  intro w hw
  obtain ⟨fs, hfs, given⟩ := Json.exists_given form fieldNames hw (by simp)
  have hstart := given.getD_eq "start_timeout_ms" (.ofNat c.startTimeoutMs.toNat) (by simp)
    (by decide) (Json.readsAs_uint64 _) (defaults home).startTimeoutMs
  have hstop := given.getD_eq "stop_timeout_ms" (.ofNat c.stopTimeoutMs.toNat) (by simp)
    (by decide) (Json.readsAs_uint64 _) (defaults home).stopTimeoutMs
  have hport := given.getD_eq "workload_port" (.ofNat c.workloadPort.toNat) (by simp)
    (by decide) (Json.readsAs_uint16 _) (defaults home).workloadPort
  have hprobe := given.getD_eq "probe" c.probe.toJson (by simp) (by decide)
    (ProbeConfig.readsAs_toJson _ form c.probe) (defaults home).probe
  have hmachine := given.getD_eq_of_kept "machine" c.machine.toJson (by simp) (by decide)
    (fun hkept => MachineConfig.readsAs_toJson _ home form c.machine fun hjailed =>
      hgiven hjailed hkept) (defaults home).machine
  rw [ofDocument?, hfs]
  simp only [Option.bind_eq_bind, Option.bind_some, hstart, hstop, hport, hprobe, hmachine]
  rfl

theorem isRefused_toJson (form : RecordForm) {c : FleetConfig} {jailer : JailerConfig}
    (hjail : c.machine.jailer = some jailer) {name : String}
    (hname : name ∈ JailerConfig.fieldNames) (hmachine : omitted ["machine"] = false)
    (hkept : omitted ["machine", "jailer"] = false)
    (homit : omitted ["machine", "jailer", name] = true) :
    (c.toJson.without omitted).IsRefused (ofDocument? form home) := by
  intro w hw
  obtain ⟨fs, hfs, given⟩ := Json.exists_given form fieldNames hw (by simp)
  have hrefused := MachineConfig.isRefused_toJson (fun path => omitted ("machine" :: path)) home
    form hjail hname hkept homit
  have hnone := given.getD_eq_none "machine" c.machine.toJson (by simp) (by decide) hmachine
    hrefused (defaults home).machine
  rw [ofDocument?, hfs]
  simp [hnone]

theorem isExact_toJson (c : FleetConfig) : c.toJson.IsExact :=
  ⟨Json.isExact_uint64 _, Json.isExact_uint64 _, Json.isExact_uint16 _, c.probe.isExact_toJson,
    c.machine.isExact_toJson, trivial⟩

variable {omitted}

theorem parse?_render {c : FleetConfig} {written : Json}
    (h : (c.toJson.without omitted).Rearranges written) :
    Json.parse? written.render = some written :=
  Json.parse?_render ((c.isExact_toJson.without omitted).rearranges h)

theorem without_nothing (c : FleetConfig) : c.without (fun _ => false) home = c := by
  simp [without, ProbeConfig.without, MachineConfig.without, NetworkConfig.without]

/-- Every configuration is read back from its text. Where settings were left out of the text, at any
depth, the configuration that is read has their default values and is the same in all others; the
order in which they stand makes no difference. Only the settings of a jailer have no default values:
a jailer that is there is refused without them. -/
theorem configuration_is_read_back (home : Path) (c : FleetConfig) :
    (Json.parse? c.toJson.render).map (ofJson home) = some (.ok c) ∧
    ∀ (omitted : List String → Bool) (written : Json),
      (c.toJson.without omitted).Rearranges written →
        ((c.machine.jailer.isSome → omitted ["machine"] = false →
            omitted ["machine", "jailer"] = false → ∀ name ∈ ["exec_file", "chroot_base_dir"],
              omitted ["machine", "jailer", name] = false) →
          (Json.parse? written.render).map (ofJson home) = some (.ok (c.without omitted home))) ∧
        (c.machine.jailer.isSome → omitted ["machine"] = false →
          omitted ["machine", "jailer"] = false →
          (∃ name ∈ ["exec_file", "chroot_base_dir"], omitted ["machine", "jailer", name] = true) →
          (Json.parse? written.render).map (ofJson home) = some (.error .json)) := by
  have hread (omitted : List String → Bool) (written : Json)
      (h : (c.toJson.without omitted).Rearranges written)
      (hgiven : c.machine.jailer.isSome → omitted ["machine"] = false →
        omitted ["machine", "jailer"] = false → ∀ name ∈ JailerConfig.fieldNames,
          omitted ["machine", "jailer", name] = false) :
      (Json.parse? written.render).map (ofJson home) = some (.ok (c.without omitted home)) := by
    rw [parse?_render h, Option.map_some, ofJson,
      readsAs_toJson omitted home .tableOrList c hgiven written h]
  refine ⟨?_, fun omitted written h => ⟨hread omitted written h, ?_⟩⟩
  · have hall : (c.toJson.without fun _ => false).Rearranges c.toJson := by
      rw [Json.without_nothing]
      exact .refl _
    have hwhole := hread (fun _ => false) c.toJson hall fun _ _ _ _ _ => rfl
    rwa [without_nothing] at hwhole
  · rintro hjailed hmachine hkept ⟨name, hname, homit⟩
    obtain ⟨jailer, hjail⟩ := Option.isSome_iff_exists.1 hjailed
    rw [parse?_render h, Option.map_some, ofJson,
      isRefused_toJson omitted home .tableOrList hjail hname hmachine hkept homit written h]

/-- A fleet of jailed machines, whose start may take any time, in a subnet with host bits. -/
def jailedFleet : FleetConfig :=
  { defaults "/home" with
    startTimeoutMs := 18446744073709551615
    machine := { MachineConfig.defaults "/home" with
      network := { NetworkConfig.defaults with
        subnet := { address := .ofBytes 10 1 2 3, bits := 16 } }
      jailer := some { execFile := "/bin/vm", baseDir := "/srv/jail" } } }

def jailedRecord : Json := .record [
  ("machine", .record [
    ("network", .record [("subnet", .text "10.1.2.3/16")]),
    ("jailer", .record [("chroot_base_dir", .text "/srv/jail"), ("exec_file", .text "/bin/vm")])]),
  ("start_timeout_ms", .integer 18446744073709551615)]

/-- All that is not said has its default value. -/
theorem partial_configuration_is_read :
    let omitted (path : List String) : Bool := path ∉ [["start_timeout_ms"], ["machine"],
      ["machine", "network"], ["machine", "network", "subnet"], ["machine", "jailer"],
      ["machine", "jailer", "exec_file"], ["machine", "jailer", "chroot_base_dir"]]
    (jailedFleet.toJson.without omitted).Rearranges jailedRecord ∧
      jailedRecord.render = "\x7b\"machine\":\x7b\"network\":\x7b\"subnet\":\"10.1.2.3/16\"\x7d," ++
        "\"jailer\":\x7b\"chroot_base_dir\":\"/srv/jail\",\"exec_file\":\"/bin/vm\"\x7d\x7d," ++
        "\"start_timeout_ms\":18446744073709551615\x7d" ∧
      (Json.parse? jailedRecord.render).map (ofJson "/home") = some (.ok jailedFleet) := by
  intro omitted
  have hwritten : (jailedFleet.toJson.without omitted).Rearranges jailedRecord :=
    .shuffle (.swap _ _ _) (.cons (.shuffle (.refl _) (.cons (.refl _)
      (.cons (.shuffle (.swap _ _ _) (.refl _)) .nil))) (.cons (.refl _) .nil))
  refine ⟨hwritten, by decide +kernel, ?_⟩
  exact ((configuration_is_read_back "/home" jailedFleet).2 omitted jailedRecord hwritten).1
    fun _ _ _ => by decide

end FleetConfig

end MachineFleet
