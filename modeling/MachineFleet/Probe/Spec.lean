import MachineFleet.Config.Record
import MachineFleet.Net.Url.Parser

namespace MachineFleet

structure HttpGet where
  scheme : String
  host : IpAddress
  port : UInt16
  path : String
  deriving DecidableEq, Repr

structure ProbeSpec where
  httpGet : HttpGet
  initialDelay : Duration
  period : Duration
  timeout : Duration
  successThreshold : UInt32
  failureThreshold : UInt32
  deriving DecidableEq, Repr

namespace HttpGet

/-- The text of the URL; the path gets a slash in front unless it has one. -/
def urlText (g : HttpGet) : String :=
  let path := if g.path.toList.head? = some '/' then g.path else "/" ++ g.path
  g.scheme ++ "://" ++ String.ofList g.host.renderHost ++ ":" ++ g.port.toNat.repr ++ path

def url (g : HttpGet) : Except Error Url :=
  (Url.parse g.urlText).mapError fun fault =>
    .invalidUrl (g.urlText ++ ": " ++ fault.message)

def ofDocument? (form : RecordForm) (d : Document) : Option HttpGet := do
  let fields ← d.fields? form ["scheme", "host", "port", "path"]
  return {
    scheme := ← fields.require "scheme" Document.text?
    host := ← fields.require "host" Document.address?
    port := ← fields.require "port" Document.uint16?
    path := ← fields.require "path" Document.text? }

def ofJson (value : Json) : Except Error HttpGet :=
  match ofDocument? .tableOrList value.document with
  | some g => .ok g
  | none => .error .json

def toJson (g : HttpGet) : Json := .record [
  ("scheme", .text g.scheme),
  ("host", .text g.host.render),
  ("port", .ofNat g.port.toNat),
  ("path", .text g.path)]

end HttpGet

namespace ProbeSpec

def url (s : ProbeSpec) : Except Error Url := s.httpGet.url

def durationJson (d : Duration) : Json := .record [
  ("secs", .ofNat (d / 1000000000)),
  ("nanos", .ofNat (d % 1000000000))]

def toJson (s : ProbeSpec) : Json := .record [
  ("http_get", s.httpGet.toJson),
  ("initial_delay", durationJson s.initialDelay),
  ("period", durationJson s.period),
  ("timeout", durationJson s.timeout),
  ("success_threshold", .ofNat s.successThreshold.toNat),
  ("failure_threshold", .ofNat s.failureThreshold.toNat)]

end ProbeSpec

namespace ProbeConfig

def toSpec (c : ProbeConfig) (host : IpAddress) : ProbeSpec where
  httpGet := { scheme := c.scheme, host, port := c.port, path := c.path }
  initialDelay := .ofMillis c.initialDelayMs.toNat
  period := .ofMillis c.periodMs.toNat
  timeout := .ofMillis c.timeoutMs.toNat
  successThreshold := c.successThreshold
  failureThreshold := c.failureThreshold

def ofJson (value : Json) : Except Error ProbeConfig :=
  match ofDocument? .tableOrList value.document with
  | some c => .ok c
  | none => .error .json

end ProbeConfig

end MachineFleet
