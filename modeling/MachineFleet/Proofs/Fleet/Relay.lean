import MachineFleet.Proofs.Data.Outcome
import MachineFleet.Proofs.Fleet.WorkloadResponse
import MachineFleet.Proofs.Fleet.WorkloadUrl
import MachineFleet.Proofs.Http.Client

namespace MachineFleet

namespace WorkloadRequest

variable {r : WorkloadRequest}

/-- The method, the body and the headers of the envelope are well formed. -/
structure IsSendable (r : WorkloadRequest) : Prop where
  method : ∃ method, r.httpMethod = .ok method
  body : ∃ body, r.decodedBody = .ok body
  headers : ∀ field ∈ r.headerTexts, (Http.Header.ofText? field.1 field.2).isSome

theorem exists_toHttp (hr : r.IsSendable) (e : Endpoint) :
    ∃ request, r.toHttp e = .ok request ∧ request.url.IsAt e ∧
      r.httpMethod = .ok request.method ∧ r.decodedBody = .ok request.body := by
  obtain ⟨url, hurl, hat, -, -⟩ := r.url_eq e
  obtain ⟨method, hmethod⟩ := hr.method
  obtain ⟨body, hbody⟩ := hr.body
  obtain ⟨headers, hheaders⟩ := exists_mapM hr.headers
  let accept : List Http.Header := if (Http.valuesOf "accept" headers).isEmpty then
    [⟨"accept", Utf8.ofString "*/*"⟩] else []
  refine ⟨{ method, url, headers := headers ++ accept, body }, ?_, hat, hmethod, hbody⟩
  simp only [toHttp, hurl, hmethod, hbody, hheaders, bind, Except.bind]
  rfl

end WorkloadRequest

theorem relay_eq {r : WorkloadRequest} {e : Endpoint} {request : Http.Request}
    (hrequest : r.toHttp e = .ok request) (network : Http.Network) :
    relay network e r = ((Http.send network none request).1,
      ((Http.send network none request).2.map .ofHttp).elim (.error .httpRequest) .ok) := by
  unfold relay
  split
  · rename_i hfault
    cases hrequest.symm.trans hfault
  · rename_i hread
    cases hrequest.symm.trans hread
    split <;> rename_i hsend <;> rw [hsend] <;> rfl

/-- A well-formed request is sent to the endpoint with its method and its body. It is all that is
sent as long as the machine that answers sends the client nowhere else, and then the answer of the
machine is what comes back: its status, the values of its headers and its body. -/
theorem relay_gives_answer {r : WorkloadRequest} (hr : r.IsSendable) (e : Endpoint) :
    ∃ request, r.toHttp e = .ok request ∧ request.url.IsAt e ∧
      r.httpMethod = .ok request.method ∧ r.decodedBody = .ok request.body ∧
      ∀ network reply, network request = some reply →
        ((relay network e r).1 = [request] ↔ ¬ Http.Redirects request reply.response) ∧
        (¬ Http.Redirects request reply.response →
          ∃ answer, relay network e r = ([request], .ok answer) ∧ answer.Gives reply.response) := by
  obtain ⟨request, hrequest, hat, hmethod, hbody⟩ := WorkloadRequest.exists_toHttp hr e
  refine ⟨request, hrequest, hat, hmethod, hbody, fun network reply hreply => ?_⟩
  have hanswer (h : ¬ Http.Redirects request reply.response) :
      relay network e r = ([request], .ok (.ofHttp reply.response)) := by
    rw [relay_eq hrequest, Http.send_of_not_redirects hreply h]
    rfl
  refine ⟨⟨fun hsent h => ?_, fun h => by rw [hanswer h]⟩,
    fun h => ⟨_, hanswer h, WorkloadResponse.gives_ofHttp _⟩⟩
  -- Had the answer sent the client elsewhere, there would be a second request.
  obtain ⟨next, sent, -, hmore⟩ := Http.exists_send_of_redirects hreply h
  have hall : (relay network e r).1 = (Http.send network none request).1 := by
    rw [relay_eq hrequest]
  rw [hall, hmore] at hsent
  cases hsent

def worker : Endpoint := ⟨.v4 (.ofBytes 10 0 0 2), 8080⟩

def created : Http.Reply where
  response := ⟨201, [⟨"x-part", Utf8.ofString "1"⟩, ⟨"x-part", Utf8.ofString "2"⟩],
    Utf8.ofString "made"⟩
  delay := 0

theorem isSendable_empty : WorkloadRequest.empty.IsSendable where
  method := ⟨"GET", rfl⟩
  body := ⟨[], rfl⟩
  headers := show ∀ field ∈ ([] : List (String × String)), _ by simp

theorem created_comes_back :
    WorkloadRequest.empty.IsSendable ∧ ∃ request answer,
      relay (fun _ => some created) worker .empty = ([request], .ok answer) ∧
        answer.Gives created.response := by
  obtain ⟨request, -, -, -, -, hanswer⟩ := relay_gives_answer isSendable_empty worker
  obtain ⟨answer, hrelay, hgives⟩ := (hanswer (fun _ => some created) created rfl).2
    fun h => absurd h.1 (by decide)
  exact ⟨isSendable_empty, request, answer, hrelay, hgives⟩

def moved : Http.Network := fun request =>
  if request.url.target = "/elsewhere" then some ⟨⟨200, [], Utf8.ofString "other"⟩, 0⟩
  else some ⟨⟨302, [⟨"location", Utf8.ofString "/elsewhere"⟩], Utf8.ofString "moved"⟩, 0⟩

/-- A redirection does not come back: the client asks once more, at the other place, and the answer
from there is the one that is given. -/
theorem redirection_is_followed :
    WorkloadRequest.empty.IsSendable ∧
      ((relay moved worker .empty).1.map fun request =>
        (request.url.target, (moved request).map (·.response.status))) =
        [("/", some 302), ("/elsewhere", some 200)] ∧
      (relay moved worker .empty).2.toOption =
        some (.ofHttp ⟨200, [], Utf8.ofString "other"⟩) :=
  ⟨isSendable_empty, by decide +kernel, by decide +kernel⟩

end MachineFleet
