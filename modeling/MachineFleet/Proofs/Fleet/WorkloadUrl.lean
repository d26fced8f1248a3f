import MachineFleet.Fleet.Workload
import MachineFleet.Proofs.Net.Url

namespace MachineFleet

namespace Url

/-- The URL asks the server at the endpoint over plain HTTP, with nobody's credentials and without
a fragment. -/
structure IsAt (u : Url) (e : Endpoint) : Prop where
  scheme : u.scheme = "http".toList
  host : u.host = some (.ofAddress true e.address)
  port : u.knownPort? = some e.port
  username : u.username = []
  password : u.password = []
  fragment : u.fragment = none

variable {u : Url} {e : Endpoint}

theorem isAt_ofEndpoint (e : Endpoint) : ((ofEndpoint "http".toList e).withRest []).IsAt e where
  scheme := rfl
  host := rfl
  port := knownPort?_ofEndpoint _ e
  username := rfl
  password := rfl
  fragment := rfl

theorem IsAt.setPath (h : u.IsAt e) (text : String) : (u.setPath text).IsAt e :=
  ⟨h.scheme, h.host, h.port, h.username, h.password, h.fragment⟩

theorem IsAt.setQuery (h : u.IsAt e) (text : String) : (u.setQuery text).IsAt e :=
  ⟨h.scheme, h.host, h.port, h.username, h.password, h.fragment⟩

theorem number_not_mem_readQuery (special : Bool) (text : List Char) :
    '#' ∉ readQuery special text := by
  intro hmem
  have hnumber : '#' ∉ "%0123456789ABCDEF".toList := by decide
  refine forall_mem_encode (p := (· ≠ '#')) (fun c hc h => hnumber (h ▸ hc)) ?_ '#' hmem rfl
  rintro c hc rfl
  cases special <;> exact absurd hc (by decide)

end Url

namespace WorkloadRequest

open Url

def urlPath (path : String) : UrlPath := readPath true [] (path.toList.filter (!isIgnored ·))

def urlQuery (query : String) : Option (List Char) :=
  if query.isEmpty then none else some (readQuery true (query.toList.filter (!isIgnored ·)))

theorem parse_endpoint (e : Endpoint) :
    Url.parse ("http://" ++ e.render) = .ok ((ofEndpoint "http".toList e).withRest []) := by
  have htext : "http://" ++ e.render =
      String.ofList ("http".toList ++ ("://".toList ++ e.renderChars ++ [])) := by
    rw [Endpoint.render, ← String.ofList_toList (s := "http://"), ← String.ofList_append]
    simp
  rw [htext, parse_renderChars (by decide) (by decide) e (by simp)]
  rfl

theorem url_eq (r : WorkloadRequest) (e : Endpoint) :
    ∃ u, r.url e = .ok u ∧ u.IsAt e ∧ u.path = urlPath r.path ∧ u.query = urlQuery r.query := by
  have hpath := (isAt_ofEndpoint e).setPath r.path
  rw [url, parse_endpoint]
  by_cases hquery : r.query.isEmpty = true
  · refine ⟨((ofEndpoint "http".toList e).withRest []).setPath r.path, ?_, hpath, rfl, ?_⟩
    · simp only [hquery, if_true]
      rfl
    · rw [urlQuery, if_pos hquery]
      rfl
  · refine ⟨(((ofEndpoint "http".toList e).withRest []).setPath r.path).setQuery r.query, ?_,
      hpath.setQuery r.query, rfl, ?_⟩
    · simp only [hquery]
      rfl
    · rw [urlQuery, if_neg hquery]
      rfl

theorem isSome_urlQuery (query : String) : (urlQuery query).isSome ↔ query ≠ "" := by
  unfold urlQuery
  split <;> simp_all

theorem number_not_mem_urlQuery (query : String) : '#' ∉ renderQuery (urlQuery query) := by
  unfold urlQuery
  split
  · simp [renderQuery]
  · simpa [renderQuery] using number_not_mem_readQuery true _

/-- Every envelope has a URL at every endpoint, and it is one of that endpoint: neither the path nor
the query of the envelope, whatever they are, changes the server or who asks, or adds a fragment.
The path of the URL is a matter of the path of the envelope alone, the query a matter of its query;
the signs that begin a query or a fragment stand in neither. -/
theorem url_keeps_to_endpoint :
    ∃ (pathOf : String → UrlPath) (queryOf : String → Option (List Char)),
      ∀ (r : WorkloadRequest) (e : Endpoint), ∃ u, r.url e = .ok u ∧ u.IsAt e ∧
        u.path = pathOf r.path ∧ u.query = queryOf r.query ∧ (u.query.isSome ↔ r.query ≠ "") ∧
        (renderPath u.path).head? = some '/' ∧ '?' ∉ renderPath u.path ∧
        '#' ∉ renderPath u.path ++ renderQuery u.query := by
  refine ⟨urlPath, urlQuery, fun r e => ?_⟩
  obtain ⟨u, hu, hat, hpath, hquery⟩ := url_eq r e
  obtain ⟨hslash, hmark, hnumber⟩ := renderPath_readPath (r.path.toList.filter (!isIgnored ·))
  refine ⟨u, hu, hat, hpath, hquery, hquery ▸ isSome_urlQuery r.query, ?_, ?_, ?_⟩
  · rwa [hpath]
  · rwa [hpath]
  · rw [hpath, hquery]
    intro hmem
    rcases List.mem_append.1 hmem with hmem | hmem
    · exact hnumber hmem
    · exact number_not_mem_urlQuery r.query hmem

end WorkloadRequest

end MachineFleet
