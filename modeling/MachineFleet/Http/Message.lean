import MachineFleet.Data.Utf8
import MachineFleet.Net.Url.Parser

/-!
HTTP requests and responses. Header names are in lower case, header values and bodies are bytes.
-/
namespace MachineFleet.Http

structure Header where
  name : String
  value : List UInt8
  deriving DecidableEq, Repr

structure Request where
  method : String
  url : Url
  headers : List Header
  body : List UInt8
  deriving DecidableEq, Repr

structure Response where
  status : UInt16
  headers : List Header
  body : List UInt8
  deriving DecidableEq, Repr

def isTokenChar (c : Char) : Bool :=
  c.isAlphanum || ['!', '#', '$', '%', '&', '\'', '*', '+', '-', '.', '^', '_', '\x60', '|',
    '~'].contains c

def isToken (text : String) : Bool :=
  !text.isEmpty && text.toList.all isTokenChar

def isHeaderValue (value : List UInt8) : Bool :=
  value.all fun b => (0x20 ≤ b && b != 0x7F) || b == 9

def headerName (text : String) : String := text.map Char.toLower

def Header.ofText? (name value : String) : Option Header :=
  let bytes := Utf8.ofString value
  if isToken name && isHeaderValue bytes then some ⟨headerName name, bytes⟩ else none

def valuesOf (name : String) (headers : List Header) : List (List UInt8) :=
  (headers.filter (·.name == name)).map (·.value)

def headerNames (headers : List Header) : List String :=
  (headers.map (·.name)).eraseDups

def Response.isSuccess (r : Response) : Bool := 200 ≤ r.status && r.status < 300

end MachineFleet.Http
