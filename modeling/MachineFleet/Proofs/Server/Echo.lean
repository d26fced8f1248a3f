import Mathlib.Data.List.Induction
import MachineFleet.Proofs.Data.Dict
import MachineFleet.Proofs.Data.Document
import MachineFleet.Proofs.Data.Lists
import MachineFleet.Server.Echo

namespace MachineFleet.Server.Echo

variable {r : Request} {headers : List Http.Header} {h : Http.Header} {name : String}

def joined (name : String) (headers : List Http.Header) : String :=
  ", ".intercalate ((Http.valuesOf name headers).map Utf8.toStringLossy)

/-- A header field arrives: its value comes after those that its name has already. -/
def arrive (d : Dict String) (h : Http.Header) : Dict String :=
  let text := Utf8.toStringLossy h.value
  d.insert h.name ((d.find? h.name).elim text (· ++ ", " ++ text))

theorem find?_joinedHeaders (name : String) (headers : List Http.Header) :
    (joinedHeaders headers).find? name =
      if name ∈ headers.map (·.name) then some (joined name headers) else none := by
  have hentries {text : String} :
      (name, text) ∈ (Http.headerNames headers).map (fun n => (n, joined n headers)) ↔
        name ∈ headers.map (·.name) ∧ joined name headers = text := by
    rw [List.mem_map, ← List.mem_eraseDups]
    constructor
    · rintro ⟨n, hn, hentry⟩
      obtain ⟨rfl, rfl⟩ := Prod.mk.inj hentry
      exact ⟨hn, rfl⟩
    · rintro ⟨hname, rfl⟩
      exact ⟨name, hname, rfl⟩
  -- A dictionary keeps one of the pairs with a name; here all of them have the same text.
  apply Option.ext
  intro text
  refine (Dict.find?_ofList_eq_some_iff fun v v' hv hv' => ?_).trans (hentries.trans ?_)
  · exact (hentries.1 hv).2.symm.trans (hentries.1 hv').2
  · split <;> simp [*]

theorem joined_concat_of_ne (hne : h.name ≠ name) :
    joined name (headers ++ [h]) = joined name headers := by
  simp [joined, Http.valuesOf, hne]

theorem joined_concat_of_not_mem (hnew : h.name ∉ headers.map (·.name)) :
    joined h.name (headers ++ [h]) = Utf8.toStringLossy h.value := by
  have hnone : headers.filter (·.name == h.name) = [] :=
    List.filter_eq_nil_iff.2 fun other hother => by
      simpa using fun heq => hnew (List.mem_map.2 ⟨other, hother, heq⟩)
  simp [joined, Http.valuesOf, hnone]

theorem joined_concat_of_mem (hknown : h.name ∈ headers.map (·.name)) :
    joined h.name (headers ++ [h]) =
      joined h.name headers ++ ", " ++ Utf8.toStringLossy h.value := by
  have hvalues : (Http.valuesOf h.name headers).map Utf8.toStringLossy ≠ [] := by
    simpa [Http.valuesOf] using hknown
  have hlast : (Http.valuesOf h.name (headers ++ [h])).map Utf8.toStringLossy =
      (Http.valuesOf h.name headers).map Utf8.toStringLossy ++ [Utf8.toStringLossy h.value] := by
    simp [Http.valuesOf]
  rw [joined, hlast, String.intercalate_append_of_ne_nil hvalues (by simp),
    String.intercalate_singleton]
  rfl

theorem joinedHeaders_concat (headers : List Http.Header) (h : Http.Header) :
    joinedHeaders (headers ++ [h]) = arrive (joinedHeaders headers) h := by
  apply Dict.eq_of_find?
  intro name
  rw [arrive, Dict.find?_insert, find?_joinedHeaders, find?_joinedHeaders, find?_joinedHeaders]
  by_cases hname : name = h.name
  · subst hname
    by_cases hknown : h.name ∈ headers.map (·.name)
    · rw [joined_concat_of_mem hknown]
      simp [hknown]
    · rw [joined_concat_of_not_mem hknown]
      simp [hknown]
  · rw [joined_concat_of_ne (Ne.symm hname)]
    simp [hname]

theorem joinedHeaders_eq_foldl (headers : List Http.Header) :
    joinedHeaders headers = headers.foldl arrive ∅ := by
  -- Fields arrive at the end of the list, so it is taken apart there.
  induction headers using List.reverseRecOn with
  | nil => rfl
  | append_singleton headers h ih =>
    rw [joinedHeaders_concat, ih, List.foldl_append, List.foldl_cons, List.foldl_nil]

structure Account where
  method : String
  path : String
  query : String
  headers : Dict String
  body : String

namespace Account

def toJson (a : Account) : Json := .record [
  ("method", .text a.method),
  ("path", .text a.path),
  ("query", .text a.query),
  ("headers", a.headers.toJson .text),
  ("body", .text a.body)]

/-- The account gives the request as it is, with its header values and its body as text. -/
structure IsOf (a : Account) (r : Request) : Prop where
  method : a.method = r.method
  path : a.path = r.path
  query : a.query = r.query
  headers : ∀ name, a.headers.find? name =
    if name ∈ r.headers.map (·.name) then some (joined name r.headers) else none
  arrivals : a.headers = r.headers.foldl arrive ∅
  body : a.body = Utf8.toStringLossy r.body

theorem isExact_toJson (a : Account) : a.toJson.IsExact :=
  ⟨trivial, trivial, trivial, Json.isExact_dict .text (fun _ => trivial) _, trivial, trivial⟩

def of (r : Request) : Account where
  method := r.method
  path := r.path
  query := r.query
  headers := joinedHeaders r.headers
  body := Utf8.toStringLossy r.body

theorem isOf_of (r : Request) : (of r).IsOf r where
  method := rfl
  path := rfl
  query := rfl
  headers name := find?_joinedHeaders name r.headers
  arrivals := joinedHeaders_eq_foldl r.headers
  body := rfl

theorem toJson_of (r : Request) : (of r).toJson = describe r := rfl

end Account

/-- The answer is one of success and gives an account of the request, which is read back from its
text. -/
def IsEcho (answer : Response) (r : Request) : Prop :=
  ∃ a : Account, a.IsOf r ∧ answer = ⟨200, some a.toJson⟩ ∧
    Json.parse? a.toJson.render = some a.toJson

theorem not_isEcho_bare (status : UInt16) : ¬ IsEcho (.bare status) r := by
  rintro ⟨a, -, hanswer, -⟩
  cases hanswer

theorem isEcho_describe (r : Request) : IsEcho ⟨200, some (describe r)⟩ r :=
  ⟨.of r, Account.isOf_of r, by rw [Account.toJson_of],
    Json.parse?_render (Account.isExact_toJson _)⟩

theorem respond_health (hpath : r.path = "/health") (hmethod : r.method ≠ "HEAD") :
    respond r = if r.method = "GET" then .bare 200 else .bare 405 := by
  simp [respond, hpath, hmethod, Response.methodNotAllowed]

theorem not_isEcho_health (hpath : r.path = "/health") (hmethod : r.method ≠ "HEAD") :
    ¬ IsEcho (respond r) r := by
  rw [respond_health hpath hmethod]
  split <;> exact not_isEcho_bare _

theorem respond_connect (hpath : r.path ≠ "/health") (hsize : r.body.length ≤ bodyLimit)
    (hmethod : r.method = "CONNECT") : respond r = .bare 200 := by
  simp [respond, hpath, hmethod, Nat.not_lt.2 hsize, Response.seenBy]

theorem respond_of_ne (hpath : r.path ≠ "/health") (hsize : r.body.length ≤ bodyLimit)
    (hhead : r.method ≠ "HEAD") (hconnect : r.method ≠ "CONNECT") :
    respond r = ⟨200, some (describe r)⟩ := by
  simp [respond, hpath, hhead, hconnect, Nat.not_lt.2 hsize, Response.seenBy]

/-- A request by any method but `HEAD`, with a body within the limit, is given back if and only if
it names another place than that of the health probe and its method is not `CONNECT`: its method,
path and query, its body as text, and for every name of a header, and for no other, the values in
the order of their arrival. At the place of the probe any method but `GET` is refused, and the
consent to `CONNECT` has no body. -/
theorem requests_are_echoed (hmethod : r.method ≠ "HEAD") (hsize : r.body.length ≤ bodyLimit) :
    (IsEcho (respond r) r ↔ r.path ≠ "/health" ∧ r.method ≠ "CONNECT") ∧
      (r.path = "/health" → respond r = if r.method = "GET" then .bare 200 else .bare 405) ∧
      (r.path ≠ "/health" → r.method = "CONNECT" → respond r = .bare 200) := by
  refine ⟨⟨?_, ?_⟩, fun hpath => respond_health hpath hmethod,
    fun hpath => respond_connect hpath hsize⟩
  · intro hecho
    have hpath : r.path ≠ "/health" := fun hpath => not_isEcho_health hpath hmethod hecho
    refine ⟨hpath, fun hconnect => ?_⟩
    rw [respond_connect hpath hsize hconnect] at hecho
    exact not_isEcho_bare _ hecho
  · rintro ⟨hpath, hconnect⟩
    rw [respond_of_ne hpath hsize hmethod hconnect]
    exact isEcho_describe r

def tagged : Request where
  method := "PUT"
  path := "/items/3"
  query := "force=1"
  headers := [⟨"x-tag", Utf8.ofString "red"⟩, ⟨"accept", Utf8.ofString "*/*"⟩, ⟨"x-tag", [255]⟩]
  body := Utf8.ofString "hello"

theorem tagged_is_echoed :
    tagged.method ≠ "HEAD" ∧ tagged.body.length ≤ bodyLimit ∧ IsEcho (respond tagged) tagged ∧
      joined "x-tag" tagged.headers = "red, \uFFFD" := by
  have hmethod : tagged.method ≠ "HEAD" := by decide
  have hsize : tagged.body.length ≤ bodyLimit := by decide
  have hecho : IsEcho (respond tagged) tagged :=
    (requests_are_echoed hmethod hsize).1.2 ⟨by decide, by decide⟩
  exact ⟨hmethod, hsize, hecho, by decide +kernel⟩

def posted : Request := ⟨"POST", "/health", "", [], []⟩

theorem posted_health_is_refused :
    respond posted = .bare 405 ∧ ¬ IsEcho (respond posted) posted :=
  ⟨rfl, not_isEcho_bare 405⟩

end MachineFleet.Server.Echo
