import MachineFleet.Config.Record
import MachineFleet.Data.Json.Parser
import MachineFleet.Http.Client

namespace MachineFleet

structure WorkloadRequest where
  /-- The method; none means `GET`. -/
  method : String
  path : String
  query : String
  headers : Dict String
  multiHeaders : Dict (List String)
  cookies : List String
  body : String
  isBase64 : Bool
  deriving DecidableEq, Repr

structure WorkloadResponse where
  status : UInt16
  headers : Dict String
  multiHeaders : Dict (List String)
  cookies : List String
  body : String
  isBase64 : Bool
  deriving DecidableEq, Repr

def decodeBase64 (text : String) : Except Error (List UInt8) :=
  (Base64.decode (Utf8.ofString text)).mapError .base64

def encodeBase64 (bytes : List UInt8) : String :=
  Utf8.toStringLossy (Base64.encode bytes)

namespace WorkloadRequest

def empty : WorkloadRequest := ⟨"", "", "", ∅, ∅, [], "", false⟩

instance : Inhabited WorkloadRequest := ⟨empty⟩

def fieldNames : List String :=
  ["httpMethod", "rawPath", "rawQueryString", "headers", "multiValueHeaders", "cookies", "body",
    "isBase64Encoded"]

def ofDocument? (form : RecordForm) (d : Document) : Option WorkloadRequest := do
  let fields ← d.fields? form fieldNames
  return {
    method := ← fields.getD "httpMethod" Document.text? empty.method
    path := ← fields.getD "rawPath" Document.text? empty.path
    query := ← fields.getD "rawQueryString" Document.text? empty.query
    headers := ← fields.getD "headers" (Document.dict? Document.text?) empty.headers
    multiHeaders := ← fields.getD "multiValueHeaders" (Document.dict? Document.texts?)
      empty.multiHeaders
    cookies := ← fields.getD "cookies" Document.texts? empty.cookies
    body := ← fields.getD "body" Document.text? empty.body
    isBase64 := ← fields.getD "isBase64Encoded" Document.truth? empty.isBase64 }

def ofJson (value : Json) : Except Error WorkloadRequest :=
  match ofDocument? .tableOrList value.document with
  | some r => .ok r
  | none => .error .json

def parse (text : String) : Except Error WorkloadRequest :=
  match Json.parse? text with
  | some value => ofJson value
  | none => .error .json

def toJson (r : WorkloadRequest) : Json := .record [
  ("httpMethod", .text r.method),
  ("rawPath", .text r.path),
  ("rawQueryString", .text r.query),
  ("headers", r.headers.toJson .text),
  ("multiValueHeaders", r.multiHeaders.toJson fun values => .list (values.map .text)),
  ("cookies", .list (r.cookies.map .text)),
  ("body", .text r.body),
  ("isBase64Encoded", .bool r.isBase64)]

def decodedBody (r : WorkloadRequest) : Except Error (List UInt8) :=
  if r.isBase64 && !r.body.isEmpty then decodeBase64 r.body else .ok (Utf8.ofString r.body)

def httpMethod (r : WorkloadRequest) : Except Error String :=
  if r.method.isEmpty then .ok "GET"
  else if Http.isToken r.method then .ok r.method
  else .error (.invalidMethod r.method)

def url (r : WorkloadRequest) (e : Endpoint) : Except Error Url := do
  let base ← (Url.parse ("http://" ++ e.render)).mapError fun fault =>
    .invalidUrl (e.render ++ ": " ++ fault.message)
  let url := base.setPath r.path
  return if r.query.isEmpty then url else url.setQuery r.query

/-- The names and values of all headers: cookies first, then single and multiple headers. -/
def headerTexts (r : WorkloadRequest) : List (String × String) :=
  r.cookies.map (("cookie", ·)) ++ r.headers.entries ++
    r.multiHeaders.entries.flatMap fun (name, values) => values.map ((name, ·))

/-- The HTTP request that an envelope stands for at a machine. Whatever media type is welcome,
unless the envelope says otherwise. -/
def toHttp (r : WorkloadRequest) (e : Endpoint) : Except Error Http.Request := do
  let url ← r.url e
  let method ← r.httpMethod
  let body ← r.decodedBody
  match r.headerTexts.mapM fun (name, value) => Http.Header.ofText? name value with
  | none => throw .httpRequest
  | some headers =>
    let accept := if (Http.valuesOf "accept" headers).isEmpty then
      [⟨"accept", Utf8.ofString "*/*"⟩] else []
    return { method, url, headers := headers ++ accept, body }

end WorkloadRequest

namespace WorkloadResponse

def empty : WorkloadResponse := ⟨0, ∅, ∅, [], "", false⟩

instance : Inhabited WorkloadResponse := ⟨empty⟩

def fieldNames : List String :=
  ["statusCode", "headers", "multiValueHeaders", "cookies", "body", "isBase64Encoded"]

def ofDocument? (form : RecordForm) (d : Document) : Option WorkloadResponse := do
  let fields ← d.fields? form fieldNames
  return {
    status := ← fields.getD "statusCode" Document.uint16? empty.status
    headers := ← fields.getD "headers" (Document.dict? Document.text?) empty.headers
    multiHeaders := ← fields.getD "multiValueHeaders" (Document.dict? Document.texts?)
      empty.multiHeaders
    cookies := ← fields.getD "cookies" Document.texts? empty.cookies
    body := ← fields.getD "body" Document.text? empty.body
    isBase64 := ← fields.getD "isBase64Encoded" Document.truth? empty.isBase64 }

def ofJson (value : Json) : Except Error WorkloadResponse :=
  match ofDocument? .tableOrList value.document with
  | some r => .ok r
  | none => .error .json

def parse (text : String) : Except Error WorkloadResponse :=
  match Json.parse? text with
  | some value => ofJson value
  | none => .error .json

def toJson (r : WorkloadResponse) : Json := .record [
  ("statusCode", .ofNat r.status.toNat),
  ("headers", r.headers.toJson .text),
  ("multiValueHeaders", r.multiHeaders.toJson fun values => .list (values.map .text)),
  ("cookies", .list (r.cookies.map .text)),
  ("body", .text r.body),
  ("isBase64Encoded", .bool r.isBase64)]

def decodedBody (r : WorkloadResponse) : Except Error (List UInt8) :=
  if r.isBase64 then decodeBase64 r.body else .ok (Utf8.ofString r.body)

def textsOf (name : String) (headers : List Http.Header) : List String :=
  (Http.valuesOf name headers).map Utf8.toStringLossy

/-- The envelope of an HTTP response. A header that occurs once is a single header, any other a
multiple one; cookies are listed once more by themselves. -/
def ofHttp (r : Http.Response) : WorkloadResponse :=
  let groups := (Http.headerNames r.headers).map fun name => (name, textsOf name r.headers)
  { status := r.status
    headers := .ofList (groups.filterMap fun (name, values) =>
      match values with
      | [value] => some (name, value)
      | _ => none)
    multiHeaders := .ofList (groups.filter (·.2.length != 1))
    cookies := textsOf "set-cookie" r.headers
    body := encodeBase64 r.body
    isBase64 := true }

end WorkloadResponse

/-- Relays a request to the workload of one machine over the network. Gives the HTTP requests that
were sent and the outcome. -/
def relay (network : Http.Network) (e : Endpoint) (r : WorkloadRequest) :
    List Http.Request × Except Error WorkloadResponse :=
  match r.toHttp e with
  | .error error => ([], .error error)
  | .ok request =>
    match Http.send network none request with
    | (sent, some response) => (sent, .ok (.ofHttp response))
    | (sent, none) => (sent, .error .httpRequest)

end MachineFleet
