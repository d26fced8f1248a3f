import MachineFleet.Config
import MachineFleet.Data.Document
import MachineFleet.Net.Address.Parser

/-!
Configurations as records. Every field but those of a jailer may be left out and then has its
default value; fields that are not known are passed over.
-/
namespace MachineFleet

def Document.subnet? (d : Document) : Option Subnet := d.text?.bind Subnet.parse?

def Document.address? (d : Document) : Option IpAddress := d.text?.bind IpAddress.parse?

namespace ProbeConfig

def fieldNames : List String :=
  ["scheme", "port", "path", "initial_delay_ms", "period_ms", "timeout_ms", "success_threshold",
    "failure_threshold"]

def ofDocument? (form : RecordForm) (d : Document) : Option ProbeConfig := do
  let fields ← d.fields? form fieldNames
  return {
    scheme := ← fields.getD "scheme" Document.text? defaults.scheme
    port := ← fields.getD "port" Document.uint16? defaults.port
    path := ← fields.getD "path" Document.text? defaults.path
    initialDelayMs := ← fields.getD "initial_delay_ms" Document.uint64? defaults.initialDelayMs
    periodMs := ← fields.getD "period_ms" Document.uint64? defaults.periodMs
    timeoutMs := ← fields.getD "timeout_ms" Document.uint64? defaults.timeoutMs
    successThreshold :=
      ← fields.getD "success_threshold" Document.uint32? defaults.successThreshold
    failureThreshold :=
      ← fields.getD "failure_threshold" Document.uint32? defaults.failureThreshold }

def toJson (c : ProbeConfig) : Json := .record [
  ("scheme", .text c.scheme),
  ("port", .ofNat c.port.toNat),
  ("path", .text c.path),
  ("initial_delay_ms", .ofNat c.initialDelayMs.toNat),
  ("period_ms", .ofNat c.periodMs.toNat),
  ("timeout_ms", .ofNat c.timeoutMs.toNat),
  ("success_threshold", .ofNat c.successThreshold.toNat),
  ("failure_threshold", .ofNat c.failureThreshold.toNat)]

end ProbeConfig

namespace NetworkConfig

def fieldNames : List String := ["subnet", "cni_cache_dir"]

def ofDocument? (form : RecordForm) (d : Document) : Option NetworkConfig := do
  let fields ← d.fields? form fieldNames
  return {
    subnet := ← fields.getD "subnet" Document.subnet? defaults.subnet
    cacheDir := ← fields.getD "cni_cache_dir" Document.text? defaults.cacheDir }

def toJson (c : NetworkConfig) : Json := .record [
  ("subnet", .text c.subnet.render),
  ("cni_cache_dir", .text c.cacheDir)]

end NetworkConfig

namespace JailerConfig

def fieldNames : List String := ["exec_file", "chroot_base_dir"]

def ofDocument? (form : RecordForm) (d : Document) : Option JailerConfig := do
  let fields ← d.fields? form fieldNames
  return {
    execFile := ← fields.require "exec_file" Document.text?
    baseDir := ← fields.require "chroot_base_dir" Document.text? }

def toJson (c : JailerConfig) : Json := .record [
  ("exec_file", .text c.execFile),
  ("chroot_base_dir", .text c.baseDir)]

end JailerConfig

def Dict.toJson {α : Type} (write : α → Json) (d : Dict α) : Json :=
  .record (d.entries.map fun (key, value) => (key, write value))

namespace MachineConfig

def fieldNames : List String :=
  ["exec_path", "args", "env", "shutdown_timeout_ms", "log_dir", "network", "jailer"]

def ofDocument? (form : RecordForm) (home : Path) (d : Document) : Option MachineConfig := do
  let fields ← d.fields? form fieldNames
  let defaults := defaults home
  return {
    execPath := ← fields.getD "exec_path" Document.text? defaults.execPath
    args := ← fields.getD "args" Document.texts? defaults.args
    env := ← fields.getD "env" (Document.dict? Document.text?) defaults.env
    shutdownTimeoutMs :=
      ← fields.getD "shutdown_timeout_ms" Document.uint64? defaults.shutdownTimeoutMs
    logDir := ← fields.getD "log_dir" Document.text? defaults.logDir
    network := ← fields.getD "network" (NetworkConfig.ofDocument? form) defaults.network
    jailer := ← fields.getD "jailer" (Document.optional? (JailerConfig.ofDocument? form))
      defaults.jailer }

def toJson (c : MachineConfig) : Json := .record ([
  ("exec_path", .text c.execPath),
  ("args", .list (c.args.map .text)),
  ("env", c.env.toJson .text),
  ("shutdown_timeout_ms", .ofNat c.shutdownTimeoutMs.toNat),
  ("log_dir", .text c.logDir),
  ("network", c.network.toJson)] ++
  match c.jailer with
  | some jailer => [("jailer", jailer.toJson)]
  | none => [])

end MachineConfig

namespace FleetConfig

def fieldNames : List String :=
  ["start_timeout_ms", "stop_timeout_ms", "workload_port", "probe", "machine"]

def ofDocument? (form : RecordForm) (home : Path) (d : Document) : Option FleetConfig := do
  let fields ← d.fields? form fieldNames
  let defaults := defaults home
  return {
    startTimeoutMs := ← fields.getD "start_timeout_ms" Document.uint64? defaults.startTimeoutMs
    stopTimeoutMs := ← fields.getD "stop_timeout_ms" Document.uint64? defaults.stopTimeoutMs
    workloadPort := ← fields.getD "workload_port" Document.uint16? defaults.workloadPort
    probe := ← fields.getD "probe" (ProbeConfig.ofDocument? form) defaults.probe
    machine := ← fields.getD "machine" (MachineConfig.ofDocument? form home) defaults.machine }

def toJson (c : FleetConfig) : Json := .record [
  ("start_timeout_ms", .ofNat c.startTimeoutMs.toNat),
  ("stop_timeout_ms", .ofNat c.stopTimeoutMs.toNat),
  ("workload_port", .ofNat c.workloadPort.toNat),
  ("probe", c.probe.toJson),
  ("machine", c.machine.toJson)]

def ofJson (home : Path) (value : Json) : Except Error FleetConfig :=
  match ofDocument? .tableOrList home value.document with
  | some c => .ok c
  | none => .error .json

end FleetConfig

end MachineFleet
