import MachineFleet.Probe.Check
import MachineFleet.Proofs.Http.Client

namespace MachineFleet.Checker

variable {c : Checker} {network : Http.Network} {url : Url} {timeout : Duration}

/-- The answer of the server that is asked, if it comes in time. -/
def ownAnswer? (network : Http.Network) (timeout : Duration) (request : Http.Request) :
    Option Http.Response :=
  ((network request).filter (·.delay ≤ timeout)).map (·.response)

theorem classify_eq_ready_iff {answer : Option Http.Response} :
    classify answer = .ready ↔ ∃ response ∈ answer, response.isSuccess = true := by
  cases answer with
  | none => simp [classify]
  | some response => simp [classify]

theorem mem_ownAnswer?_iff {request : Http.Request} {response : Http.Response} :
    response ∈ ownAnswer? network timeout request ↔
      ∃ reply, network request = some reply ∧ reply.delay ≤ timeout ∧ reply.response = response := by
  simp [ownAnswer?, Option.filter_eq_some_iff, and_assoc]

/-- A check finds a machine ready exactly if a course that begins with its question, within ten
redirections and the time limit, ends in an answer of success. -/
theorem check_eq_ready_iff :
    (c.check network url timeout).2 = .ready ↔
      ∃ steps last, Http.Course network (c.request url) steps ∧
        steps.length ≤ Http.maxRedirects + 1 ∧ Http.totalDelay steps ≤ timeout ∧
        steps.getLast? = some last ∧ last.2.response.isSuccess = true := by
  have hverdict : (c.check network url timeout).2 =
      classify (Http.send network (some timeout) (c.request url)).2 := rfl
  rw [hverdict, classify_eq_ready_iff]
  constructor
  · rintro ⟨response, hresponse, hsuccess⟩
    obtain ⟨steps, last, course, hshort, hquick, -, hlast, rfl⟩ :=
      Http.exchange_eq_some_iff.1 (Prod.ext rfl hresponse)
    exact ⟨steps, last, course, hshort, hquick timeout rfl, hlast, hsuccess⟩
  · rintro ⟨steps, last, course, hshort, hquick, hlast, hsuccess⟩
    have hsend : Http.send network (some timeout) (c.request url) =
        (steps.map (·.1), some last.2.response) :=
      Http.exchange_of_course course hshort (by simpa using hquick) hlast
    exact ⟨last.2.response, by rw [hsend]; rfl, hsuccess⟩

theorem check_eq_ready_iff_of_not_redirects
    (h : ∀ response ∈ ownAnswer? network timeout (c.request url),
      ¬ Http.Redirects (c.request url) response) :
    (c.check network url timeout).2 = .ready ↔
      ∃ response ∈ ownAnswer? network timeout (c.request url), response.isSuccess = true := by
  rw [check_eq_ready_iff]
  constructor
  · rintro ⟨steps, last, course, -, hquick, hlast, hsuccess⟩
    have hin {reply : Http.Reply} {more : List (Http.Request × Http.Reply)}
        (hsteps : steps = (c.request url, reply) :: more) : reply.delay ≤ timeout := by
      rw [hsteps] at hquick
      exact Nat.le_trans (Nat.le_add_right ..) hquick
    cases course with
    | arrived answered stays =>
      obtain rfl := Option.some.inj hlast
      exact ⟨_, mem_ownAnswer?_iff.2 ⟨_, answered, hin rfl, rfl⟩, hsuccess⟩
    | onward answered follows more =>
      have hstays := h _ (mem_ownAnswer?_iff.2 ⟨_, answered, hin rfl, rfl⟩)
      rw [Http.follow?_eq_none_iff.2 hstays] at follows
      cases follows
  · rintro ⟨response, hown, hsuccess⟩
    obtain ⟨reply, answered, hin, rfl⟩ := mem_ownAnswer?_iff.1 hown
    exact ⟨_, _, .arrived answered (h _ hown), by simp, hin, rfl, hsuccess⟩

theorem check_fst_of_not_redirects
    (h : ∀ response ∈ ownAnswer? network timeout (c.request url),
      ¬ Http.Redirects (c.request url) response) :
    (c.check network url timeout).1 = [c.request url] := by
  refine Http.exchange_fst_of_not_redirects fun reply answered hin => ?_
  exact h _ (mem_ownAnswer?_iff.2 ⟨reply, answered, hin timeout rfl, rfl⟩)

/-- A check begins with one `GET` for the URL, whatever the network does and however long it takes,
and what it finds is what the last server on its course has answered. As long as the server that is
asked does not answer in time that the client should go elsewhere, the check makes no other request,
and the machine is ready exactly if that server has answered in time and with success. -/
theorem check_judges_last_answer (c : Checker) (network : Http.Network) (url : Url)
    (timeout : Duration) :
    (c.request url).method = "GET" ∧ (c.request url).url = url ∧
      (c.check network url timeout).1.head? = some (c.request url) ∧
      ((c.check network url timeout).2 = .ready ↔
        ∃ steps last, Http.Course network (c.request url) steps ∧ steps.length ≤ 11 ∧
          Http.totalDelay steps ≤ timeout ∧ steps.getLast? = some last ∧
          last.2.response.isSuccess = true) ∧
      ((∀ response ∈ ownAnswer? network timeout (c.request url),
          ¬ Http.Redirects (c.request url) response) →
        (c.check network url timeout).1 = [c.request url] ∧
          ((c.check network url timeout).2 = .ready ↔
            ∃ response ∈ ownAnswer? network timeout (c.request url),
              response.isSuccess = true)) := by
  refine ⟨rfl, rfl, Http.head?_exchange .., check_eq_ready_iff, fun h => ⟨?_, ?_⟩⟩
  · exact check_fst_of_not_redirects h
  · exact check_eq_ready_iff_of_not_redirects h

def usual : Checker := ⟨Utf8.ofString defaultUserAgent⟩

def checkedUrl : Url where
  scheme := "http".toList
  username := []
  password := []
  host := some (.v4 (.ofBytes 10 0 0 2))
  port := some 8080
  path := .segments ["health".toList]
  query := none
  fragment := none

def slow : Http.Network := fun _ => some ⟨⟨204, [], []⟩, .ofParts 2 0⟩

theorem slow_machine_is_ready :
    (∀ response ∈ ownAnswer? slow (.ofParts 3 0) (usual.request checkedUrl),
        ¬ Http.Redirects (usual.request checkedUrl) response) ∧
      (usual.check slow checkedUrl (.ofParts 3 0)).1 = [usual.request checkedUrl] ∧
      (usual.check slow checkedUrl (.ofParts 3 0)).2 = .ready := by
  have hown : ownAnswer? slow (.ofParts 3 0) (usual.request checkedUrl) = some ⟨204, [], []⟩ := rfl
  have hstays : ∀ response ∈ ownAnswer? slow (.ofParts 3 0) (usual.request checkedUrl),
      ¬ Http.Redirects (usual.request checkedUrl) response := by
    intro response hresponse
    rw [hown] at hresponse
    obtain rfl := Option.some.inj hresponse
    exact Http.not_redirects_of_isSuccess rfl
  obtain ⟨-, -, -, -, hjudged⟩ :=
    check_judges_last_answer usual slow checkedUrl (.ofParts 3 0)
  obtain ⟨hsent, hready⟩ := hjudged hstays
  exact ⟨hstays, hsent, hready.2 ⟨_, hown, rfl⟩⟩

def movedTo (location : String) : Http.Network := fun request =>
  if request.url = checkedUrl then
    some ⟨⟨302, [⟨"location", Utf8.ofString location⟩], []⟩, 0⟩
  else some ⟨⟨200, [], []⟩, 0⟩

def checkMoved (location : String) : List (String × String) × Option UInt16 × Signal :=
  let network := movedTo location
  let (sent, verdict) := usual.check network checkedUrl (.ofParts 3 0)
  (sent.map fun request => (request.method, request.url.render),
    (ownAnswer? network (.ofParts 3 0) (usual.request checkedUrl)).map (·.status), verdict)

/-- A machine that answers with a redirection is found ready by an answer that is not its own, to a
second request, to another path of its server or to another server. -/
theorem moved_machine_is_found_ready :
    checkMoved "/ok" =
        ([("GET", "http://10.0.0.2:8080/health"), ("GET", "http://10.0.0.2:8080/ok")],
          some 302, .ready) ∧
      checkMoved "http://10.9.9.9/" =
        ([("GET", "http://10.0.0.2:8080/health"), ("GET", "http://10.9.9.9/")],
          some 302, .ready) :=
  ⟨by decide +kernel, by decide +kernel⟩

end MachineFleet.Checker
