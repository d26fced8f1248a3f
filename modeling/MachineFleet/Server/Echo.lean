import MachineFleet.Data.Dict
import MachineFleet.Data.Json
import MachineFleet.Server.Request

namespace MachineFleet.Server.Echo

def joinedHeaders (headers : List Http.Header) : Dict String :=
  .ofList ((Http.headerNames headers).map fun name =>
    (name, ", ".intercalate ((Http.valuesOf name headers).map Utf8.toStringLossy)))

def describe (r : Request) : Json := .record [
  ("method", .text r.method),
  ("path", .text r.path),
  ("query", .text r.query),
  ("headers", .record ((joinedHeaders r.headers).entries.map fun (name, value) =>
    (name, .text value))),
  ("body", .text (Utf8.toStringLossy r.body))]

def respond (r : Request) : Response :=
  if r.path == "/health" then
    if r.method == "GET" || r.method == "HEAD" then .bare 200 else .methodNotAllowed
  else if bodyLimit < r.body.length then .tooLarge
  else .seenBy ⟨200, some (describe r)⟩ r.method

end MachineFleet.Server.Echo
