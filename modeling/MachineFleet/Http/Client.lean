import MachineFleet.Duration
import MachineFleet.Http.Message

/-!
An HTTP client over a network that is given as a function: what a server answers to a request and
how long that takes, or nothing if it cannot be reached or does not answer properly. Redirections
are followed, at most ten of them.
-/
namespace MachineFleet.Http

structure Reply where
  response : Response
  delay : Duration
  deriving DecidableEq, Repr

abbrev Network := Request → Option Reply

def unreachable : Network := fun _ => none

def maxRedirects : Nat := 10

def isRedirect (status : UInt16) : Bool :=
  [301, 302, 303, 307, 308].contains status

/-- Whether the request that follows a redirection asks for the new place with `GET` and without a
body. Statuses 307 and 308 keep the request as it is. -/
def changesMethod (status : UInt16) : Bool := status == 301 || status == 302 || status == 303

def describesBody (name : String) : Bool :=
  ["content-type", "content-length", "content-encoding", "transfer-encoding"].contains name

def isPrivate (name : String) : Bool :=
  ["authorization", "cookie", "cookie2", "proxy-authorization", "www-authenticate"].contains name

def sameServer (a b : Url) : Bool :=
  a.host == b.host && a.knownPort? == b.knownPort?

def location? (from_ : Url) (r : Response) : Option Url := do
  let value ← (valuesOf "location" r.headers).head?
  let text ← Utf8.toString? value
  (Url.join from_ text).toOption

/-- The headers with word of the URL that sent the client on, without its user and its fragment. A
URL of `https` is not told where the next one is of `http`. -/
def withReferrer (from_ next : Url) (headers : List Header) : List Header :=
  if from_.scheme = "https".toList ∧ next.scheme = "http".toList then headers
  else
    let url := { from_ with username := [], password := [], fragment := none }
    headers.filter (·.name != "referer") ++ [⟨"referer", Utf8.ofString url.render⟩]

def follow? (request : Request) (r : Response) : Option Request :=
  if isRedirect r.status then
    (location? request.url r).map fun url =>
      let dropsBody := changesMethod r.status
      let headers := if dropsBody then request.headers.filter (!describesBody ·.name)
        else request.headers
      { method := if dropsBody && request.method != "HEAD" then "GET" else request.method
        url
        headers := withReferrer request.url url (if sameServer request.url url then headers
          else headers.filter (!isPrivate ·.name))
        body := if dropsBody then [] else request.body }
  else none

def remaining? (limit : Option Duration) (delay : Duration) : Option (Option Duration) :=
  match limit with
  | none => some none
  | some limit => if delay ≤ limit then some (some (limit - delay)) else none

/-- Sends a request and follows redirections, `left` of them at most and all within the limit. Gives
all requests that were sent and the last response, if there is one. -/
def exchange (network : Network) (limit : Option Duration) (left : Nat) (request : Request) :
    List Request × Option Response :=
  match network request with
  | none => ([request], none)
  | some reply =>
    match remaining? limit reply.delay with
    | none => ([request], none)
    | some limit =>
      match follow? request reply.response with
      | none => ([request], some reply.response)
      | some next =>
        match left with
        | 0 => ([request], none)
        | left + 1 =>
          let (sent, answer) := exchange network limit left next
          (request :: sent, answer)

def send (network : Network) (limit : Option Duration) (request : Request) :
    List Request × Option Response :=
  exchange network limit maxRedirects request

end MachineFleet.Http
