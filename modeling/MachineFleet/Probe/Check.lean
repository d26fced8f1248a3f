import MachineFleet.Error
import MachineFleet.Http.Client
import MachineFleet.Readiness

/-!
Checking a machine over HTTP. A check is one `GET`, and only an answer of success within the time
limit counts as ready.
-/
namespace MachineFleet

structure Checker where
  userAgent : List UInt8
  deriving DecidableEq, Repr

namespace Checker

def defaultUserAgent : String := "monofleet/0.1.0"

def new (userAgent : String) : Except Error Checker :=
  let bytes := Utf8.ofString userAgent
  if Http.isHeaderValue bytes then .ok ⟨bytes⟩ else .error .httpRequest

def request (c : Checker) (url : Url) : Http.Request where
  method := "GET"
  url
  headers := [⟨"connection", Utf8.ofString "close"⟩, ⟨"accept", Utf8.ofString "*/*"⟩,
    ⟨"user-agent", c.userAgent⟩]
  body := []

def classify : Option Http.Response → Signal
  | some response => if response.isSuccess then .ready else .unready
  | none => .unready

def check (c : Checker) (network : Http.Network) (url : Url) (timeout : Duration) :
    List Http.Request × Signal :=
  let (sent, response) := Http.send network (some timeout) (c.request url)
  (sent, classify response)

def checkMany (c : Checker) (network : Http.Network) (url : Url) (timeout : Duration)
    (times : Nat) : List Http.Request × List Signal :=
  let outcomes := List.replicate times (c.check network url timeout)
  (outcomes.flatMap (·.1), outcomes.map (·.2))

end Checker

end MachineFleet
