import MachineFleet.Fleet.Workload
import MachineFleet.Proofs.Data.Document

namespace MachineFleet

open Json (Given)

namespace WorkloadRequest

variable (r : WorkloadRequest) (omitted : List String → Bool)

/-- The envelope with default values for what is left out. Headers can be left out one by one. -/
def without : WorkloadRequest where
  method := if omitted ["httpMethod"] then "" else r.method
  path := if omitted ["rawPath"] then "" else r.path
  query := if omitted ["rawQueryString"] then "" else r.query
  headers := if omitted ["headers"] then ∅
    else r.headers.without fun path => omitted ("headers" :: path)
  multiHeaders := if omitted ["multiValueHeaders"] then ∅
    else r.multiHeaders.without fun path => omitted ("multiValueHeaders" :: path)
  cookies := if omitted ["cookies"] then [] else r.cookies
  body := if omitted ["body"] then "" else r.body
  isBase64 := if omitted ["isBase64Encoded"] then false else r.isBase64

theorem readsAs_toJson (form : RecordForm) :
    (r.toJson.without omitted).ReadsAs (ofDocument? form) (r.without omitted) := by
  intro w hw
  obtain ⟨fs, hfs, given⟩ := Json.exists_given form fieldNames hw (by simp)
  -- The fields one by one, in the order in which they are asked for.
  have hmethod := given.getD_eq "httpMethod" (.text r.method) (by simp) (by decide)
    (Json.readsAs_text _) empty.method
  have hpath := given.getD_eq "rawPath" (.text r.path) (by simp) (by decide)
    (Json.readsAs_text _) empty.path
  have hquery := given.getD_eq "rawQueryString" (.text r.query) (by simp) (by decide)
    (Json.readsAs_text _) empty.query
  have hheaders := given.getD_eq "headers" (r.headers.toJson .text) (by simp) (by decide)
    (Json.readsAs_dict _ (fun s _ => Json.readsAs_text s) r.headers _) empty.headers
  have hmulti := given.getD_eq "multiValueHeaders"
    (r.multiHeaders.toJson fun values => .list (values.map .text)) (by simp) (by decide)
    (Json.readsAs_dict _ (fun texts _ => Json.readsAs_texts texts) r.multiHeaders _)
    empty.multiHeaders
  have hcookies := given.getD_eq "cookies" (.list (r.cookies.map .text)) (by simp) (by decide)
    (Json.readsAs_texts _) empty.cookies
  have hbody := given.getD_eq "body" (.text r.body) (by simp) (by decide)
    (Json.readsAs_text _) empty.body
  have hisBase64 := given.getD_eq "isBase64Encoded" (.bool r.isBase64) (by simp) (by decide)
    (Json.readsAs_bool _) empty.isBase64
  rw [ofDocument?, hfs]
  simp only [Option.bind_eq_bind, Option.bind_some, hmethod, hpath, hquery, hheaders, hmulti,
    hcookies, hbody, hisBase64]
  rfl

theorem isExact_toJson : r.toJson.IsExact :=
  ⟨trivial, trivial, trivial, Json.isExact_dict .text (fun _ => trivial) _,
    Json.isExact_dict _ Json.isExact_texts _, Json.isExact_texts _, trivial, trivial, trivial⟩

theorem parse_render {r : WorkloadRequest} {omitted : List String → Bool} {written : Json}
    (h : (r.toJson.without omitted).Rearranges written) :
    parse written.render = .ok (r.without omitted) := by
  have hexact : written.IsExact := (r.isExact_toJson.without omitted).rearranges h
  rw [parse, Json.parse?_render hexact]
  simp only [ofJson, r.readsAs_toJson omitted .tableOrList written h]

end WorkloadRequest

namespace WorkloadResponse

variable (r : WorkloadResponse) (omitted : List String → Bool)

def without : WorkloadResponse where
  status := if omitted ["statusCode"] then 0 else r.status
  headers := if omitted ["headers"] then ∅
    else r.headers.without fun path => omitted ("headers" :: path)
  multiHeaders := if omitted ["multiValueHeaders"] then ∅
    else r.multiHeaders.without fun path => omitted ("multiValueHeaders" :: path)
  cookies := if omitted ["cookies"] then [] else r.cookies
  body := if omitted ["body"] then "" else r.body
  isBase64 := if omitted ["isBase64Encoded"] then false else r.isBase64

theorem readsAs_toJson (form : RecordForm) :
    (r.toJson.without omitted).ReadsAs (ofDocument? form) (r.without omitted) := by
  intro w hw
  obtain ⟨fs, hfs, given⟩ := Json.exists_given form fieldNames hw (by simp)
  have hstatus := given.getD_eq "statusCode" (.ofNat r.status.toNat) (by simp) (by decide)
    (Json.readsAs_uint16 _) empty.status
  have hheaders := given.getD_eq "headers" (r.headers.toJson .text) (by simp) (by decide)
    (Json.readsAs_dict _ (fun s _ => Json.readsAs_text s) r.headers _) empty.headers
  have hmulti := given.getD_eq "multiValueHeaders"
    (r.multiHeaders.toJson fun values => .list (values.map .text)) (by simp) (by decide)
    (Json.readsAs_dict _ (fun texts _ => Json.readsAs_texts texts) r.multiHeaders _)
    empty.multiHeaders
  have hcookies := given.getD_eq "cookies" (.list (r.cookies.map .text)) (by simp) (by decide)
    (Json.readsAs_texts _) empty.cookies
  have hbody := given.getD_eq "body" (.text r.body) (by simp) (by decide)
    (Json.readsAs_text _) empty.body
  have hisBase64 := given.getD_eq "isBase64Encoded" (.bool r.isBase64) (by simp) (by decide)
    (Json.readsAs_bool _) empty.isBase64
  rw [ofDocument?, hfs]
  simp only [Option.bind_eq_bind, Option.bind_some, hstatus, hheaders, hmulti, hcookies, hbody,
    hisBase64]
  rfl

theorem isExact_toJson : r.toJson.IsExact :=
  ⟨Json.isExact_uint16 _,
    Json.isExact_dict .text (fun _ => trivial) _, Json.isExact_dict _ Json.isExact_texts _,
    Json.isExact_texts _, trivial, trivial, trivial⟩

theorem parse_render {r : WorkloadResponse} {omitted : List String → Bool} {written : Json}
    (h : (r.toJson.without omitted).Rearranges written) :
    parse written.render = .ok (r.without omitted) := by
  have hexact : written.IsExact := (r.isExact_toJson.without omitted).rearranges h
  rw [parse, Json.parse?_render hexact]
  simp only [ofJson, r.readsAs_toJson omitted .tableOrList written h]

end WorkloadResponse

/-- Every envelope is read back from its text. Where fields were left out of the text the envelope
that is read has their default values, empty, zero or false, and is the same in all other fields;
the order in which they stand, and in which the entries of the maps stand, makes no difference. -/
theorem envelopes_are_read_back :
    (∀ r : WorkloadRequest, WorkloadRequest.parse r.toJson.render = .ok r) ∧
    (∀ r : WorkloadResponse, WorkloadResponse.parse r.toJson.render = .ok r) ∧
    ∀ (omitted : List String → Bool) (written : Json),
      (∀ r : WorkloadRequest, (r.toJson.without omitted).Rearranges written →
        WorkloadRequest.parse written.render = .ok (r.without omitted)) ∧
      ∀ r : WorkloadResponse, (r.toJson.without omitted).Rearranges written →
        WorkloadResponse.parse written.render = .ok (r.without omitted) := by
  refine ⟨fun r => ?_, fun r => ?_, fun omitted written => ⟨fun r h => ?_, fun r h => ?_⟩⟩
  · have hall : (r.toJson.without fun _ => false).Rearranges r.toJson := by
      rw [Json.without_nothing]
      exact .refl _
    rw [WorkloadRequest.parse_render hall]
    simp [WorkloadRequest.without]
  · have hall : (r.toJson.without fun _ => false).Rearranges r.toJson := by
      rw [Json.without_nothing]
      exact .refl _
    rw [WorkloadResponse.parse_render hall]
    simp [WorkloadResponse.without]
  · exact WorkloadRequest.parse_render h
  · exact WorkloadResponse.parse_render h

def taggedRequest : WorkloadRequest :=
  { WorkloadRequest.empty with
    method := "POST"
    path := "/a"
    headers := .ofList [("accept", "*/*"), ("x-tag", "\"red\"")]
    body := "naïve\n" }

/-- The request without its method and its empty fields, and with its headers the other way
around. -/
def taggedRecord : Json := .record [
  ("rawPath", .text "/a"),
  ("headers", .record [("x-tag", .text "\"red\""), ("accept", .text "*/*")]),
  ("body", .text "naïve\n")]

/-- What has no method is read as a request by the default method, and what else is left out as
empty. -/
theorem partial_envelope_is_read :
    let omitted (path : List String) : Bool := path ∈ [["httpMethod"], ["rawQueryString"],
      ["multiValueHeaders"], ["cookies"], ["isBase64Encoded"]]
    (taggedRequest.toJson.without omitted).Rearranges taggedRecord ∧
      taggedRecord.render = "\x7b\"rawPath\":\"/a\",\"headers\":\x7b" ++
        "\"x-tag\":\"\\\"red\\\"\",\"accept\":\"*/*\"\x7d,\"body\":\"naïve\\n\"\x7d" ∧
      WorkloadRequest.parse taggedRecord.render = .ok { taggedRequest with method := "" } := by
  intro omitted
  have hwritten : (taggedRequest.toJson.without omitted).Rearranges taggedRecord :=
    .shuffle (.refl _) (.cons (.refl _) (.cons (.shuffle (.swap _ _ _) (.refl _)) (.refl _)))
  refine ⟨hwritten, by decide, ?_⟩
  exact (envelopes_are_read_back.2.2 omitted taggedRecord).1 taggedRequest hwritten

end MachineFleet
