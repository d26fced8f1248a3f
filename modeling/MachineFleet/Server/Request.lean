import MachineFleet.Data.Json
import MachineFleet.Http.MediaType

namespace MachineFleet.Server

def bodyLimit : Nat := 2097152

structure Request where
  method : String
  path : String
  query : String
  headers : List Http.Header
  body : List UInt8
  deriving DecidableEq, Repr

structure Response where
  status : UInt16
  document : Option Json
  deriving BEq

namespace Request

def afterHost? : List Char → Option (List Char)
  | ':' :: '/' :: '/' :: rest => some (rest.dropWhile fun c => c != '/' && c != '?')
  | _ :: rest => afterHost? rest
  | [] => none

/-- Path and query of a request target, which may be a path, an absolute URL, an asterisk or the
name of a host. A fragment does not count. -/
def splitTarget (target : String) : String × String :=
  let text := target.toList.takeWhile (· != '#')
  let local_ := match text with
    | '/' :: _ => text
    | ['*'] => text
    | _ =>
      match afterHost? text with
      | some rest => if rest.head? = some '/' then rest else '/' :: rest
      | none => []
  (String.ofList (local_.takeWhile (· != '?')),
    String.ofList ((local_.dropWhile (· != '?')).drop 1))

def ofParts (method target : String) (headers : List (String × List UInt8)) (body : List UInt8) :
    Request :=
  let (path, query) := splitTarget target
  { method, path, query, body
    headers := headers.map fun (name, value) => ⟨Http.headerName name, value⟩ }

def visible? (r : Request) (name : String) : Option String := do
  let value ← (Http.valuesOf name r.headers).head?
  if value.all fun b => (0x20 ≤ b && b < 0x7F) || b == 9 then Utf8.toString? value else none

def hasJsonBody (r : Request) : Bool :=
  (((r.visible? "content-type").bind Http.MediaType.parse?).map (·.isJson)).getD false

end Request

namespace Response

def bare (status : UInt16) : Response := ⟨status, none⟩

def notFound : Response := bare 404

def methodNotAllowed : Response := bare 405

def tooLarge : Response := bare 413

/-- The answer as the client sees it: an answer to `HEAD` has no body, nor has the consent to
`CONNECT`. -/
def seenBy (r : Response) (method : String) : Response :=
  if method == "HEAD" || (method == "CONNECT" && r.status == 200) then bare r.status else r

end Response

end MachineFleet.Server
