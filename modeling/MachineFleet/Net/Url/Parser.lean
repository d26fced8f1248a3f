import MachineFleet.Net.Address.Parser
import MachineFleet.Net.Url
import MachineFleet.Net.Url.Percent

/-!
Reading URLs by the rules of the URL standard, on their own or relative to a base. Host names of
the special schemes are read in ASCII only.
-/
namespace MachineFleet.Url

inductive Fault where
  | emptyHost
  | invalidName
  | invalidPort
  | invalidIpv4
  | invalidIpv6
  | invalidHostCharacter
  | noBase
  | bareBase
  deriving Repr, DecidableEq

def Fault.message : Fault → String
  | emptyHost => "empty host"
  | invalidName => "invalid international domain name"
  | invalidPort => "invalid port number"
  | invalidIpv4 => "invalid IPv4 address"
  | invalidIpv6 => "invalid IPv6 address"
  | invalidHostCharacter => "invalid domain character"
  | noBase => "relative URL without a base"
  | bareBase => "relative URL with a cannot-be-a-base base"

def isIgnored (c : Char) : Bool := c == '\t' || c == '\n' || c == '\r'

def clean (text : List Char) : List Char :=
  let isEdge (c : Char) : Bool := c.toNat ≤ 0x20
  (((text.dropWhile isEdge).reverse.dropWhile isEdge).reverse).filter (!isIgnored ·)

def isSlash (special : Bool) (c : Char) : Bool := c == '/' || (special && c == '\\')

def endsAuthority (special : Bool) (c : Char) : Bool :=
  isSlash special c || c == '?' || c == '#'

def isSingleDot (segment : List Char) : Bool :=
  [".".toList, "%2e".toList, "%2E".toList].contains segment

def isDoubleDot (segment : List Char) : Bool :=
  ["..".toList, "%2e%2e".toList, "%2e%2E".toList, "%2E%2e".toList, "%2E%2E".toList,
    "%2e.".toList, "%2E.".toList, ".%2e".toList, ".%2E".toList].contains segment

def pushSegment (last : Bool) (segment : List Char) (above : List (List Char)) :
    List (List Char) :=
  if isDoubleDot segment then if last then [] :: above.tail else above.tail
  else if isSingleDot segment then if last then [] :: above else above
  else segment :: above

/-- Reads segments between slashes; `piece` is the begun segment in reverse order and `above` are
the segments before it, the nearest first. -/
def scanSegments (special : Bool) (piece : List Char) (above : List (List Char)) :
    List Char → List (List Char)
  | [] => (pushSegment true piece.reverse above).reverse
  | c :: rest =>
    if isSlash special c then
      scanSegments special [] (pushSegment false piece.reverse above) rest
    else scanSegments special ((Percent.encodeChar Percent.inPath c).reverse ++ piece) above rest

/-- The segments of a path text that follow those of `above`; a slash that begins it counts for
nothing. A path that is not special may be empty. -/
def readPath (special : Bool) (above : List (List Char)) (text : List Char) : UrlPath :=
  match text with
  | [] => .segments (if special then (pushSegment true [] above).reverse else above.reverse)
  | c :: rest =>
    .segments (scanSegments special [] above (if isSlash special c then rest else c :: rest))

def readQuery (special : Bool) (text : List Char) : List Char :=
  Percent.encode (if special then Percent.inSpecialQuery else Percent.inQuery) text

def readFragment (text : List Char) : List Char := Percent.encode Percent.inFragment text

def readEnd (special : Bool) (text : List Char) : Option (List Char) × Option (List Char) :=
  let before := text.takeWhile (· != '#')
  let query := match before with
    | '?' :: query => some (readQuery special query)
    | _ => none
  let fragment := match text.dropWhile (· != '#') with
    | _ :: fragment => some (readFragment fragment)
    | [] => none
  (query, fragment)

def isPathChar (c : Char) : Bool := c != '?' && c != '#'

def isForbiddenInHost (c : Char) : Bool :=
  ['\x00', '\t', '\n', '\r', ' ', '#', '/', ':', '<', '>', '?', '@', '[', '\\', ']', '^',
    '|'].contains c

def isForbiddenInName (c : Char) : Bool :=
  isForbiddenInHost c || c.toNat < 0x20 || c == '%' || c.toNat == 0x7F

def ipv4Part? (part : List Char) : Option Nat :=
  match part with
  | [] => none
  | '0' :: x :: digits =>
    if x = 'x' ∨ x = 'X' then
      if digits.all isHexDigit then some (digitsValue 16 digits) else none
    else if (x :: digits).all (fun c => '0' ≤ c && c ≤ '7') then some (digitsValue 8 (x :: digits))
    else none
  | digits => if digits.all Char.isDigit then some (digitsValue 10 digits) else none

def labels : List Char → List (List Char)
  | [] => [[]]
  | c :: rest =>
    if c = '.' then [] :: labels rest
    else
      match labels rest with
      | [] => [[c]]
      | label :: more => (c :: label) :: more

def ipv4Labels (name : List Char) : List (List Char) :=
  let all := labels name
  if 1 < all.length && all.getLast? == some [] then all.dropLast else all

def endsInNumber (name : List Char) : Bool :=
  match (ipv4Labels name).getLast? with
  | some last => (!last.isEmpty && last.all Char.isDigit) || (ipv4Part? last).isSome
  | none => false

/-- The address that a name ending in a number writes: at most four parts, the last of which fills
the bytes that are left. -/
def readIpv4 (name : List Char) : Except Fault Ipv4 :=
  let parts := ipv4Labels name
  match parts.mapM ipv4Part? with
  | none => .error .invalidIpv4
  | some numbers =>
    let last := numbers.getLast?.getD 0
    let front := numbers.dropLast
    if 4 < parts.length || front.any (255 < ·) || 1 <<< (8 * (4 - front.length)) ≤ last then
      .error .invalidIpv4
    else
      .ok (.ofNat (front.zipIdx.foldl (fun sum (n, i) => sum + (n <<< (8 * (3 - i)))) last))

def readIpv6 (text : List Char) : Except Fault UrlHost :=
  match text.reverse with
  | ']' :: inner =>
    match Ipv6.parseChars? inner.reverse with
    | some ip => .ok (.v6 ip)
    | none => .error .invalidIpv6
  | _ => .error .invalidIpv6

def readSpecialHost (text : List Char) : Except Fault UrlHost :=
  match text with
  | '[' :: inner => readIpv6 inner
  | _ =>
    match Utf8.decode? (Percent.decode text) with
    | none => .error .invalidName
    | some name =>
      let name := name.map Char.toLower
      if name.isEmpty then .error .emptyHost
      else if name.any fun c => isForbiddenInName c || 0x7F < c.toNat then .error .invalidName
      else if endsInNumber name then (readIpv4 name).map .v4
      else .ok (.name name)

def readPlainHost (text : List Char) : Except Fault UrlHost :=
  match text with
  | '[' :: inner => readIpv6 inner
  | _ =>
    if text.any isForbiddenInHost then .error .invalidHostCharacter
    else .ok (.name (Percent.encode Percent.inControls text))

def splitHost (inBrackets : Bool) : List Char → List Char × List Char
  | [] => ([], [])
  | c :: rest =>
    if c = ':' ∧ !inBrackets then ([], c :: rest)
    else
      let (host, after) := splitHost (c == '[' || (inBrackets && c != ']')) rest
      (c :: host, after)

def readPort (scheme : List Char) (text : List Char) : Except Fault (Option UInt16) :=
  match text with
  | ':' :: digits =>
    if !digits.all Char.isDigit || 65535 < digitsValue 10 digits then .error .invalidPort
    else
      let port := UInt16.ofNat (digitsValue 10 digits)
      .ok (if digits.isEmpty || defaultPort? scheme == some port then none else some port)
  | _ => .ok none

def splitUser (text : List Char) : Option (List Char) × List Char :=
  let after := (text.reverse.takeWhile (· != '@')).reverse
  match text.reverse.dropWhile (· != '@') with
  | _ :: before => (some before.reverse, after)
  | [] => (none, text)

def readAuthority (scheme : List Char) (text : List Char) : Except Fault Url := do
  let (user, rest) := splitUser text
  let user := user.getD []
  let username := user.takeWhile (· != ':')
  let password := (user.dropWhile (· != ':')).tail
  let (hostText, portText) := splitHost false rest
  let special := isSpecial scheme
  if hostText.isEmpty && (special || !portText.isEmpty || !user.isEmpty) then throw .emptyHost
  let host ← if special then readSpecialHost hostText else readPlainHost hostText
  let port ← readPort scheme portText
  return {
    scheme
    username := Percent.encode Percent.inUser username
    password := Percent.encode Percent.inUser password
    host := some host
    port
    path := .segments []
    query := none
    fragment := none }

def readHostAndRest (scheme : List Char) (text : List Char) : Except Fault Url := do
  let special := isSpecial scheme
  let url ← readAuthority scheme (text.takeWhile (!endsAuthority special ·))
  let rest := text.dropWhile (!endsAuthority special ·)
  let (query, fragment) := readEnd special (rest.dropWhile isPathChar)
  return { url with path := readPath special [] (rest.takeWhile isPathChar), query, fragment }

def ofScheme (scheme : List Char) : Url :=
  ⟨scheme, [], [], none, none, .segments [], none, none⟩

def readFileUrl (text : List Char) : Except Fault Url := do
  let scheme := "file".toList
  let (hostText, rest) := match text with
    | a :: b :: rest =>
      if isSlash true a && isSlash true b then
        (rest.takeWhile (!endsAuthority true ·), rest.dropWhile (!endsAuthority true ·))
      else ([], text)
    | _ => ([], text)
  let host ← if hostText.isEmpty then pure (.name []) else readSpecialHost hostText
  let host := if host = .name "localhost".toList then .name [] else host
  let (query, fragment) := readEnd true (rest.dropWhile isPathChar)
  return { ofScheme scheme with
    host := some host, path := readPath true [] (rest.takeWhile isPathChar), query, fragment }

def readPlainUrl (scheme : List Char) (text : List Char) : Except Fault Url :=
  match text with
  | '/' :: '/' :: rest => readHostAndRest scheme rest
  | _ =>
    let (query, fragment) := readEnd false (text.dropWhile isPathChar)
    let path := match text with
      | '/' :: _ => readPath false [] (text.takeWhile isPathChar)
      | _ => .bare (Percent.encode Percent.inControls (text.takeWhile isPathChar))
    .ok { ofScheme scheme with path, query, fragment }

def isSchemeChar (c : Char) : Bool := c.isAlphanum || c == '+' || c == '-' || c == '.'

def splitScheme? (text : List Char) : Option (List Char × List Char) :=
  match text.head?, text.dropWhile isSchemeChar with
  | some first, ':' :: rest =>
    if first.isAlpha then some ((text.takeWhile isSchemeChar).map Char.toLower, rest) else none
  | _, _ => none

def readAfterScheme (scheme : List Char) (text : List Char) : Except Fault Url :=
  if isFile scheme then readFileUrl text
  else if isSpecial scheme then readHostAndRest scheme (text.dropWhile (isSlash true))
  else readPlainUrl scheme text

def readRelative (base : Url) (text : List Char) : Except Fault Url :=
  let special := isSpecial base.scheme
  match base.path, text with
  | .bare _, '#' :: fragment => .ok { base with fragment := some (readFragment fragment) }
  | .bare _, _ => .error .bareBase
  | .segments _, [] => .ok { base with fragment := none }
  | .segments segments, c :: rest =>
    let (query, fragment) := readEnd special ((c :: rest).dropWhile isPathChar)
    if c = '#' then .ok { base with fragment }
    else if c = '?' then .ok { base with query, fragment }
    else if isSlash special c then
      if (rest.head?.map (isSlash special)).getD false then
        readHostAndRest base.scheme (if special then rest.dropWhile (isSlash true) else rest.tail)
      else
        let path := readPath special [] ((c :: rest).takeWhile isPathChar)
        .ok { base with path, query, fragment }
    else
      let text := (c :: rest).takeWhile isPathChar
      let path := .segments (scanSegments special [] (segments.reverse.tail) text)
      .ok { base with path, query, fragment }

def parse (text : String) : Except Fault Url :=
  let cs := clean text.toList
  match splitScheme? cs with
  | some (scheme, rest) => readAfterScheme scheme rest
  | none => .error .noBase

def join (base : Url) (text : String) : Except Fault Url :=
  let cs := clean text.toList
  match splitScheme? cs with
  | some (scheme, rest) =>
    if scheme = base.scheme ∧ isSpecial scheme ∧ !isFile scheme ∧
        (rest.takeWhile (isSlash true)).length < 2 then
      readRelative base rest
    else readAfterScheme scheme rest
  | none => readRelative base cs

/-- The URL with another path. Question and number signs in it do not end it. -/
def setPath (u : Url) (text : String) : Url :=
  { u with path := readPath (isSpecial u.scheme) [] (text.toList.filter (!isIgnored ·)) }

def setQuery (u : Url) (text : String) : Url :=
  { u with query := some (readQuery (isSpecial u.scheme) (text.toList.filter (!isIgnored ·))) }

end MachineFleet.Url
