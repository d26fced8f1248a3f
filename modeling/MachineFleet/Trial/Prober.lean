import MachineFleet.Duration
import MachineFleet.Net.Url
import MachineFleet.Readiness

/-!
Checks with outcomes that are given beforehand. Each host has a script; a check takes its outcome
from the script when it begins, and one that would outlast its time limit ends unready then.
-/
namespace MachineFleet.Trial

structure ProbeScript where
  script : List Signal
  thenAlways : Signal
  latency : Duration
  deriving Repr

abbrev Prober := List (String × ProbeScript)

structure Check where
  time : Instant
  url : Url
  timeout : Duration

structure PendingCheck where
  ends : Instant
  outcome : Signal

namespace Prober

def unknownHost : ProbeScript := ⟨[], .unready, 0⟩

def hostOf (url : Url) : String :=
  match url.host with
  | some host => String.ofList (Url.renderHost host)
  | none => ""

def find (p : Prober) (host : String) : ProbeScript :=
  ((p.find? (·.1 == host)).map (·.2)).getD unknownHost

def put (p : Prober) (host : String) (s : ProbeScript) : Prober :=
  (host, s) :: p.filter (·.1 != host)

def begin (p : Prober) (now : Instant) (url : Url) (timeout : Duration) : PendingCheck × Prober :=
  let host := hostOf url
  let s := p.find host
  let outcome := s.script.headD s.thenAlways
  let check := if timeout < s.latency then ⟨now + timeout, .unready⟩
    else ⟨now + s.latency, outcome⟩
  (check, p.put host { s with script := s.script.tail })

def setSignal (p : Prober) (host : String) (outcome : Signal) : Prober :=
  p.put host { p.find host with script := [], thenAlways := outcome }

end Prober

end MachineFleet.Trial
