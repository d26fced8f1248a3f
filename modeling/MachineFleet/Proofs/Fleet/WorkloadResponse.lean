import MachineFleet.Proofs.Data.Dict
import MachineFleet.Proofs.Data.Lists
import MachineFleet.Proofs.Fleet.WorkloadBody

namespace MachineFleet.WorkloadResponse

variable {name : String} {response : Http.Response}

def textsAt (r : WorkloadResponse) (name : String) : List String :=
  (r.headers.find? name).toList ++ (r.multiHeaders.find? name).getD []

/-- The envelope says what the response says. A header value is given as text; one that is text in
UTF-8 is given as it is. -/
structure Gives (answer : WorkloadResponse) (response : Http.Response) : Prop where
  status : answer.status = response.status
  texts : ∀ name, answer.textsAt name =
    (Http.valuesOf name response.headers).map Utf8.toStringLossy
  values : ∀ name, (∀ value ∈ Http.valuesOf name response.headers,
      ∃ text, value = Utf8.ofString text) →
    (answer.textsAt name).map Utf8.ofString = Http.valuesOf name response.headers
  body : answer.decodedBody = .ok response.body

def groups (r : Http.Response) : List (String × List String) :=
  (Http.headerNames r.headers).map fun name => (name, textsOf name r.headers)

theorem mem_headerNames_iff {headers : List Http.Header} :
    name ∈ Http.headerNames headers ↔ textsOf name headers ≠ [] := by
  simp [Http.headerNames, textsOf, Http.valuesOf]

theorem mem_groups_iff {texts : List String} :
    (name, texts) ∈ groups response ↔ textsOf name response.headers = texts ∧ texts ≠ [] := by
  rw [groups, List.mem_map]
  constructor
  · rintro ⟨n, hn, hgroup⟩
    obtain ⟨rfl, rfl⟩ := Prod.mk.inj hgroup
    exact ⟨rfl, mem_headerNames_iff.1 hn⟩
  · rintro ⟨rfl, hne⟩
    exact ⟨name, mem_headerNames_iff.2 hne, rfl⟩

def single? : String × List String → Option (String × String)
  | (name, [text]) => some (name, text)
  | _ => none

theorem single?_eq_some_iff {group : String × List String} {text : String} :
    single? group = some (name, text) ↔ group = (name, [text]) := by
  rcases group with ⟨n, _ | ⟨first, _ | ⟨second, more⟩⟩⟩ <;> simp [single?]

theorem headers_ofHttp (response : Http.Response) :
    (ofHttp response).headers = .ofList ((groups response).filterMap single?) := by
  refine congrArg (fun f => Dict.ofList ((groups response).filterMap f)) (funext fun group => ?_)
  rcases group with ⟨n, _ | ⟨first, _ | ⟨second, more⟩⟩⟩ <;> rfl

theorem find?_headers_ofHttp {text : String} :
    (ofHttp response).headers.find? name = some text ↔ textsOf name response.headers = [text] := by
  have hentries {name : String} {text : String} :
      (name, text) ∈ (groups response).filterMap single? ↔
        textsOf name response.headers = [text] := by
    simp [List.mem_filterMap, single?_eq_some_iff, mem_groups_iff]
  rw [headers_ofHttp]
  refine (Dict.find?_ofList_eq_some_iff fun v v' hv hv' => ?_).trans hentries
  simpa using (hentries.1 hv).symm.trans (hentries.1 hv')

theorem find?_multiHeaders_ofHttp {texts : List String} :
    (ofHttp response).multiHeaders.find? name = some texts ↔
      textsOf name response.headers = texts ∧ 1 < texts.length := by
  have hentries {name : String} {texts : List String} :
      (name, texts) ∈ (groups response).filter (·.2.length != 1) ↔
        textsOf name response.headers = texts ∧ 1 < texts.length := by
    rw [List.mem_filter, mem_groups_iff, and_assoc]
    refine and_congr_right fun _ => ?_
    simp only [← List.length_pos_iff, bne_iff_ne]
    omega
  refine (Dict.find?_ofList_eq_some_iff fun v v' hv hv' => ?_).trans hentries
  exact (hentries.1 hv).1.symm.trans (hentries.1 hv').1

theorem textsAt_ofHttp (response : Http.Response) (name : String) :
    (ofHttp response).textsAt name = textsOf name response.headers := by
  rw [textsAt]
  cases hsingle : (ofHttp response).headers.find? name with
  | some text =>
    have htexts := find?_headers_ofHttp.1 hsingle
    cases hmultiple : (ofHttp response).multiHeaders.find? name with
    | some texts =>
      obtain ⟨rfl, hlength⟩ := find?_multiHeaders_ofHttp.1 hmultiple
      simp [htexts] at hlength
    | none => rw [htexts]; rfl
  | none =>
    cases hmultiple : (ofHttp response).multiHeaders.find? name with
    | some texts => exact (find?_multiHeaders_ofHttp.1 hmultiple).1.symm
    | none =>
      -- A name found in neither map has no values: one would be single, more would be multiple.
      rcases htexts : textsOf name response.headers with _ | ⟨first, _ | ⟨second, more⟩⟩
      · rfl
      · simp [find?_headers_ofHttp.2 htexts] at hsingle
      · simp [find?_multiHeaders_ofHttp.2 ⟨htexts, by simp⟩] at hmultiple

theorem gives_ofHttp (response : Http.Response) : (ofHttp response).Gives response where
  status := rfl
  texts := textsAt_ofHttp response
  values name hvalues := by
    rw [textsAt_ofHttp, textsOf, List.map_map]
    refine (List.map_congr_left fun value hvalue => ?_).trans (List.map_id _)
    obtain ⟨text, rfl⟩ := hvalues value hvalue
    simp
  body := decodeBase64_eq_ok_iff.2 rfl

def spread : String × List String → List (String × String)
  | (name, texts) => texts.map ((name, ·))

def fields (r : WorkloadResponse) : List (String × String) :=
  r.headers.entries ++ r.multiHeaders.entries.flatMap spread

theorem nodup_keys_groups (response : Http.Response) :
    ((groups response).map (·.1)).Nodup := by
  rw [groups, List.map_map]
  exact (List.map_id _).symm ▸ nodup_eraseDups _

theorem keys_single?_sublist (gs : List (String × List String)) :
    ((gs.filterMap single?).map (·.1)).Sublist (gs.map (·.1)) := by
  induction gs with
  | nil => simp
  | cons group gs ih =>
    rcases group with ⟨name, _ | ⟨first, _ | ⟨second, more⟩⟩⟩
    · exact ih.cons _
    · exact ih.cons_cons _
    · exact ih.cons _

theorem single?_append_spread_perm (gs : List (String × List String)) :
    (gs.filterMap single? ++ (gs.filter (·.2.length != 1)).flatMap spread).Perm
      (gs.flatMap spread) := by
  induction gs with
  | nil => simp
  | cons group gs ih =>
    rcases group with ⟨name, _ | ⟨first, _ | ⟨second, more⟩⟩⟩
    · exact ih
    · exact ih.cons (name, first)
    · exact (List.perm_append_comm_assoc ..).trans
        (ih.append_left (spread (name, first :: second :: more)))

theorem flatMap_spread_groups (response : Http.Response) :
    ((groups response).flatMap spread).Perm
      (response.headers.map fun h => (h.name, Utf8.toStringLossy h.value)) := by
  have hgroup : ∀ name, spread (name, textsOf name response.headers) =
      (response.headers.filter (·.name == name)).map
        fun h => (h.name, Utf8.toStringLossy h.value) := by
    intro name
    rw [spread, textsOf, Http.valuesOf, List.map_map, List.map_map]
    refine List.map_congr_left fun h hh => ?_
    have hname : h.name = name := by simpa using (List.mem_filter.1 hh).2
    simp [hname]
  have hgroups : (groups response).flatMap spread =
      ((Http.headerNames response.headers).flatMap fun name =>
        response.headers.filter (·.name == name)).map
          fun h => (h.name, Utf8.toStringLossy h.value) := by
    simp only [groups, List.flatMap_map, hgroup, List.map_flatMap]
  rw [hgroups]
  exact (flatMap_filter_eraseDups_perm (·.name) response.headers).map _

theorem fields_ofHttp (response : Http.Response) :
    (ofHttp response).fields.Perm
      (response.headers.map fun h => (h.name, Utf8.toStringLossy h.value)) := by
  have hkeys := nodup_keys_groups response
  have hsingle : (ofHttp response).headers.entries.Perm ((groups response).filterMap single?) := by
    rw [headers_ofHttp]
    exact Dict.entries_ofList_perm (hkeys.sublist (keys_single?_sublist _))
  have hmultiple : (ofHttp response).multiHeaders.entries.Perm
      ((groups response).filter (·.2.length != 1)) :=
    Dict.entries_ofList_perm (hkeys.sublist (List.filter_sublist.map _))
  exact (hsingle.append (hmultiple.flatMap_right spread)).trans
    ((single?_append_spread_perm _).trans (flatMap_spread_groups response))

/-- The envelope says what the response says and has its header fields in groups: nothing is lost
and nothing comes twice. -/
structure Regroups (answer : WorkloadResponse) (response : Http.Response) : Prop
    extends answer.Gives response where
  fields : answer.fields.Perm
    (response.headers.map fun h => (h.name, Utf8.toStringLossy h.value))
  single : ∀ name, answer.headers.find? name =
    match (Http.valuesOf name response.headers).map Utf8.toStringLossy with
    | [text] => some text
    | _ => none
  multiple : ∀ name, answer.multiHeaders.find? name =
    match (Http.valuesOf name response.headers).map Utf8.toStringLossy with
    | first :: second :: more => some (first :: second :: more)
    | _ => none
  cookies : answer.cookies = (Http.valuesOf "set-cookie" response.headers).map Utf8.toStringLossy
  /-- Cookies stand under their name as well. -/
  cookies_textsAt : answer.textsAt "set-cookie" = answer.cookies

theorem regroups_ofHttp (response : Http.Response) : (ofHttp response).Regroups response where
  toGives := gives_ofHttp response
  fields := fields_ofHttp response
  single name := by
    apply Option.ext
    intro text
    rw [find?_headers_ofHttp, textsOf]
    rcases (Http.valuesOf name response.headers).map Utf8.toStringLossy with
      _ | ⟨first, _ | ⟨second, more⟩⟩ <;> simp
  multiple name := by
    apply Option.ext
    intro texts
    rw [find?_multiHeaders_ofHttp, textsOf]
    rcases (Http.valuesOf name response.headers).map Utf8.toStringLossy with
      _ | ⟨first, _ | ⟨second, more⟩⟩ <;> simp +contextual [iff_def, eq_comm]
  cookies := rfl
  cookies_textsAt := textsAt_ofHttp response "set-cookie"

/-- The order of header fields matters only among those of one name. -/
theorem ofHttp_eq_of_valuesOf {response other : Http.Response}
    (hstatus : other.status = response.status) (hbody : other.body = response.body)
    (hvalues : ∀ name, Http.valuesOf name other.headers = Http.valuesOf name response.headers) :
    ofHttp other = ofHttp response := by
  have hsingle : (ofHttp other).headers = (ofHttp response).headers := by
    apply Dict.eq_of_find?
    intro name
    rw [(regroups_ofHttp other).single, (regroups_ofHttp response).single, hvalues]
  have hmultiple : (ofHttp other).multiHeaders = (ofHttp response).multiHeaders := by
    apply Dict.eq_of_find?
    intro name
    rw [(regroups_ofHttp other).multiple, (regroups_ofHttp response).multiple, hvalues]
  have hcookies : (ofHttp other).cookies = (ofHttp response).cookies := by
    rw [(regroups_ofHttp other).cookies, (regroups_ofHttp response).cookies, hvalues]
  have hencoded : (ofHttp other).body = (ofHttp response).body := congrArg encodeBase64 hbody
  change WorkloadResponse.mk other.status (ofHttp other).headers (ofHttp other).multiHeaders
    (ofHttp other).cookies (ofHttp other).body true = ofHttp response
  rw [hstatus, hsingle, hmultiple, hcookies, hencoded]
  rfl

/-- The envelope of a response holds each of its header fields once: the value of a header that
occurs once among the single headers, the values of any other in their order among the multiple
ones, and no name besides. Cookies are listed once more by themselves, values are read as UTF-8 with
replacement characters, and the body is given back as it came. Header fields that come in another
order make no difference as long as those of one name keep theirs. -/
theorem envelope_regroups_headers (response : Http.Response) :
    (ofHttp response).Regroups response ∧
      ∀ other : Http.Response, other.status = response.status → other.body = response.body →
        (∀ name, Http.valuesOf name other.headers = Http.valuesOf name response.headers) →
        ofHttp other = ofHttp response := by
  refine ⟨regroups_ofHttp response, ?_⟩
  intro other hstatus hbody hvalues
  exact ofHttp_eq_of_valuesOf hstatus hbody hvalues

/-- A response that came by two stations, with a cookie between their names. One of the names is not
UTF-8. -/
def interleaved : Http.Response where
  status := 200
  headers := [⟨"via", [97]⟩, ⟨"set-cookie", [98]⟩, ⟨"etag", [99]⟩, ⟨"via", [255]⟩]
  body := [0, 255]

theorem interleaved_headers_come_together :
    ofHttp { interleaved with
        headers := [⟨"via", [97]⟩, ⟨"via", [255]⟩, ⟨"set-cookie", [98]⟩, ⟨"etag", [99]⟩] } =
        ofHttp interleaved ∧
      (ofHttp interleaved).headers.entries = [("etag", "c"), ("set-cookie", "b")] ∧
      (ofHttp interleaved).multiHeaders.entries = [("via", ["a", "\uFFFD"])] ∧
      (ofHttp interleaved).cookies = ["b"] := by
  refine ⟨?_, by decide +kernel, by decide +kernel, by decide +kernel⟩
  apply (envelope_regroups_headers interleaved).2 _ rfl rfl
  intro name
  simp only [interleaved, Http.valuesOf, List.filter_cons, List.filter_nil]

end MachineFleet.WorkloadResponse
