import MachineFleet.Data.Json.Parser
import MachineFleet.Data.Utf8
import MachineFleet.Data.Yaml.Cursor
import MachineFleet.Data.Yaml.Token

namespace MachineFleet.Yaml.Cursor

def anchorName? (c : Cursor) : Option (String × Cursor) :=
  let name := c.takeWhile isWordChar
  let after := c.skipWhile isWordChar
  let ends := startsGap after.rest ||
    after.rest.head?.any ("?:,]\x7d%@\x60".toList.contains ·)
  if name.isEmpty || !ends then none else some (String.ofList name, after)

def escapedBytes : List Char → List UInt8 × List Char
  | '%' :: a :: b :: rest =>
    match Json.hexValue? a, Json.hexValue? b with
    | some high, some low =>
      let (bytes, rest) := escapedBytes rest
      (.ofNat (high * 16 + low) :: bytes, rest)
    | _, _ => ([], '%' :: a :: b :: rest)
  | cs => ([], cs)

def isTagChar (c : Char) : Bool :=
  isWordChar c || ";/?:@&=+$.!~*'()".toList.contains c

/-- Brackets and commas stand only in tags that are written out and in the expansions of handles. -/
def isFullTagChar (c : Char) : Bool :=
  isTagChar c || c == ',' || c == '[' || c == ']'

def tagText? (allowed : Char → Bool) : (fuel : Nat) → List Char → Option (List Char × List Char)
  | 0, _ => none
  | fuel + 1, '%' :: rest => do
    let (bytes, rest) := escapedBytes ('%' :: rest)
    if bytes.isEmpty then none
    let decoded ← Utf8.decode? bytes
    let (text, rest) ← tagText? allowed fuel rest
    return (decoded ++ text, rest)
  | fuel + 1, c :: rest =>
    if allowed c then (tagText? allowed fuel rest).map fun (text, rest) => (c :: text, rest)
    else some ([], c :: rest)
  | _ + 1, [] => some ([], [])

def tagPart? (allowed : Char → Bool) (c : Cursor) : Option (String × Cursor) :=
  (tagText? allowed (c.rest.length + 1) c.rest).map fun (text, rest) =>
    (String.ofList text, c.moveTo rest)

def tagHandle? (c : Cursor) : Option (String × Cursor) :=
  match c.rest with
  | '!' :: rest =>
    let word := rest.takeWhile isWordChar
    match rest.dropWhile isWordChar with
    | '!' :: rest => some (String.ofList ('!' :: word ++ ['!']), c.moveTo rest)
    | rest => some (String.ofList ('!' :: word), c.moveTo rest)
  | _ => none

def writtenOutTag? (c : Cursor) : Option (TagName × Cursor) := do
  let (suffix, c) ← (c.skip 2).tagPart? isFullTagChar
  match c.rest with
  | '>' :: _ => if suffix.isEmpty then none else return (⟨"", suffix⟩, c.skip 1)
  | _ => none

/-- A tag with a handle. A mark alone is a tag of its own. -/
def shortTag? (c : Cursor) : Option (TagName × Cursor) := do
  let (handle, c) ← c.tagHandle?
  let (suffix, c) ← c.tagPart? isTagChar
  if 1 < handle.length && handle.endsWith "!" then
    if suffix.isEmpty then none else return (⟨handle, suffix⟩, c)
  else
    let suffix := String.ofList (handle.toList.drop 1) ++ suffix
    return (if suffix.isEmpty then ⟨"", "!"⟩ else ⟨"!", suffix⟩, c)

def tagName? (inBrackets : Bool) (c : Cursor) : Option (TagName × Cursor) := do
  let (name, c) ← match c.rest with
    | '!' :: '<' :: _ => c.writtenOutTag?
    | _ => c.shortTag?
  if startsGap c.rest || (inBrackets && c.rest.head? == some ',') then return (name, c) else none

def versionNumber? (c : Cursor) : Option (Nat × Cursor) :=
  let digits := c.takeWhile Char.isDigit
  if digits.isEmpty || 9 < digits.length then none
  else some (Json.decimalValue digits, c.skipWhile Char.isDigit)

def versionDirective? (c : Cursor) : Option (Token × Cursor) := do
  let (major, c) ← (c.skipWhile isBlank).versionNumber?
  match c.rest with
  | '.' :: _ =>
    let (minor, c) ← (c.skip 1).versionNumber?
    return (.version major minor, c)
  | _ => none

def tagDirective? (c : Cursor) : Option (Token × Cursor) := do
  let (handle, c) ← (c.skipWhile isBlank).tagHandle?
  if !handle.endsWith "!" then none
  if !c.rest.head?.any isBlank then none
  let (expansion, c) ← (c.skipWhile isBlank).tagPart? isFullTagChar
  if expansion.isEmpty || !startsGap c.rest then none
  return (.tagHandle handle expansion, c)

def directive? (c : Cursor) : Option (Token × Cursor) := do
  let name := String.ofList (c.takeWhile isWordChar)
  let c := c.skipWhile isWordChar
  if !startsGap c.rest then none
  let (token, c) ← match name with
    | "YAML" => c.versionDirective?
    | "TAG" => c.tagDirective?
    | _ => none
  let c := c.skipWhile isBlank
  let c := if c.rest.head? == some '#' then c.skipWhile (!isBreak ·) else c
  if startsLineEnd c.rest then return (token, c.skipBreak) else none

end MachineFleet.Yaml.Cursor
