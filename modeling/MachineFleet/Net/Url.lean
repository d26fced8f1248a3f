import MachineFleet.Net.Address.Printer

/-!
Absolute URLs as the URL standard takes them apart, and their text. The schemes of the web are
special: they need a host, know a default port and take backslashes for slashes in a path.
-/
namespace MachineFleet

inductive UrlHost where
  | name (text : List Char)
  | v4 (address : Ipv4)
  | v6 (address : Ipv6)
  deriving DecidableEq, Repr

inductive UrlPath where
  | segments (segments : List (List Char))
  | bare (text : List Char)
  deriving DecidableEq, Repr

structure Url where
  scheme : List Char
  username : List Char
  password : List Char
  host : Option UrlHost
  /-- The port, unless it is the default port of the scheme. -/
  port : Option UInt16
  path : UrlPath
  query : Option (List Char)
  fragment : Option (List Char)
  deriving DecidableEq, Repr

namespace Url

def defaultPort? (scheme : List Char) : Option UInt16 :=
  if scheme = "http".toList ∨ scheme = "ws".toList then some 80
  else if scheme = "https".toList ∨ scheme = "wss".toList then some 443
  else if scheme = "ftp".toList then some 21
  else none

def isFile (scheme : List Char) : Bool := scheme == "file".toList

def isSpecial (scheme : List Char) : Bool := (defaultPort? scheme).isSome || isFile scheme

def knownPort? (u : Url) : Option UInt16 :=
  match u.port with
  | some port => some port
  | none => defaultPort? u.scheme

def renderHost : UrlHost → List Char
  | .name text => text
  | .v4 ip => ip.renderChars
  | .v6 ip => '[' :: Ipv6.compress ip.groups ++ [']']

def renderUser (u : Url) : List Char :=
  if u.username.isEmpty && u.password.isEmpty then []
  else u.username ++ (if u.password.isEmpty then [] else ':' :: u.password) ++ ['@']

def renderPort : Option UInt16 → List Char
  | some port => ':' :: Nat.toDigits 10 port.toNat
  | none => []

/-- The part between scheme and path; a path that would look like a host is kept apart by a dot. -/
def renderAuthority (u : Url) : List Char :=
  match u.host with
  | some host => '/' :: '/' :: u.renderUser ++ renderHost host ++ renderPort u.port
  | none =>
    match u.path with
    | .segments ([] :: _ :: _) => ['/', '.']
    | _ => []

def renderPath : UrlPath → List Char
  | .segments segments => segments.flatMap ('/' :: ·)
  | .bare text => text

def renderQuery : Option (List Char) → List Char
  | some query => '?' :: query
  | none => []

def renderFragment : Option (List Char) → List Char
  | some fragment => '#' :: fragment
  | none => []

def renderChars (u : Url) : List Char :=
  u.scheme ++ ':' :: u.renderAuthority ++ renderPath u.path ++ renderQuery u.query ++
    renderFragment u.fragment

def render (u : Url) : String := String.ofList u.renderChars

def target (u : Url) : String := String.ofList (renderPath u.path ++ renderQuery u.query)

end Url

end MachineFleet
