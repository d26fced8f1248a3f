import MachineFleet.Fleet.Supervisor
import MachineFleet.Server.Request

namespace MachineFleet.Server.Api

inductive Demand where
  | run
  | invoke (request : WorkloadRequest)
  | list
  | readiness
  | liveness
  | refused (response : Response)

def onMethod (r : Request) (methods : List String) (demand : Demand) : Demand :=
  if methods.contains r.method then demand else .refused .methodNotAllowed

/-- Reads the envelope of a request for work. A body that is no JSON is refused for that only if
what it has begun to write may still become an envelope. -/
def readInvoke (r : Request) : Demand :=
  if !r.hasJsonBody then .refused (.bare 415)
  else if bodyLimit < r.body.length then .refused .tooLarge
  else
    match (Utf8.toString? r.body).map Json.read with
    | none => .refused (.bare 400)
    | some (.error begun) =>
      match begun.map WorkloadRequest.ofJson with
      | some (.error _) => .refused (.bare 422)
      | _ => .refused (.bare 400)
    | some (.ok value) =>
      match WorkloadRequest.ofJson value with
      | .error _ => .refused (.bare 422)
      | .ok request => .invoke request

def demand (r : Request) : Demand :=
  match r.path with
  | "/vm" => onMethod r ["GET", "HEAD"] .list
  | "/vm/run" => onMethod r ["POST"] .run
  | "/service/invoke" => if r.method == "POST" then readInvoke r else .refused .methodNotAllowed
  | "/health/ready" => onMethod r ["GET", "HEAD"] .readiness
  | "/health/alive" => onMethod r ["GET", "HEAD"] .liveness
  | _ => .refused .notFound

def failure (status : UInt16) (text : String) : Response :=
  ⟨status, some (.record [("code", .ofNat status.toNat), ("message", .text text)])⟩

def answerRun : Except Error Metadata → Response
  | .ok machine => ⟨200, some machine.runAnswer⟩
  | .error e => failure 500 ("machine start error: " ++ e.message)

def answerInvoke : Except Error WorkloadResponse → Response
  | .ok response => ⟨200, some response.toJson⟩
  | .error e => failure 503 ("HTTP invocation error: " ++ e.message)

def entryJson {γ : Type} (e : Entry γ) : Json := .record [
  ("id", .text e.id),
  ("ip", .text e.address.render),
  ("ready", .bool e.ready)]

def answerEntries {γ : Type} (entries : List (Entry γ)) : Response :=
  ⟨200, some (.list ((entries.mergeSort fun a b => decide (a.id ≤ b.id)).map entryJson))⟩

def answerList {γ : Type} (r : Registry γ) : Response := answerEntries r.snapshot

def answerHealth (up : Bool) : Response :=
  if up then ⟨200, some (.record [("status", .text "ok")])⟩
  else ⟨503, some (.record [("status", .text "unavailable")])⟩

def answerNow? (f : Fleet) : Demand → Option Response
  | .list => some (answerList f.registry)
  | .readiness => some (answerHealth f.health.accepting)
  | .liveness => some (answerHealth f.health.healthy)
  | .refused response => some response
  | _ => none

def Demand.request? : Demand → Option Fleet.Request
  | run => some .start
  | invoke request => some (.invoke request)
  | _ => none

def answerOutcome : Fleet.Outcome → Response
  | .started result => answerRun result
  | .invoked result => answerInvoke result
  | .closed => .bare 200

end MachineFleet.Server.Api
