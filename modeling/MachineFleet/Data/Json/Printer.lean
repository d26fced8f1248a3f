import MachineFleet.Data.Json

namespace MachineFleet.Json

def hexDigit (n : Nat) : Char :=
  if n < 10 then .ofNat (48 + n) else .ofNat (87 + n)

def escape (c : Char) : List Char :=
  if c = '"' then ['\\', '"']
  else if c = '\\' then ['\\', '\\']
  else if c = '\x08' then ['\\', 'b']
  else if c = '\x0c' then ['\\', 'f']
  else if c = '\n' then ['\\', 'n']
  else if c = '\r' then ['\\', 'r']
  else if c = '\t' then ['\\', 't']
  else if c.toNat < 0x20 then ['\\', 'u', '0', '0', hexDigit (c.toNat / 16), hexDigit (c.toNat % 16)]
  else [c]

def quote (s : String) : List Char :=
  '"' :: (s.toList.flatMap escape ++ ['"'])

def renderInteger (n : Int) : List Char :=
  if n < 0 then '-' :: Nat.toDigits 10 n.natAbs else Nat.toDigits 10 n.natAbs

mutual

def renderChars : Json → List Char
  | null => ['n', 'u', 'l', 'l']
  | bool true => ['t', 'r', 'u', 'e']
  | bool false => ['f', 'a', 'l', 's', 'e']
  | integer n => renderInteger n
  | real written => written.toList
  | text s => quote s
  | list items => '[' :: renderItems items
  | record fields => '{' :: renderFields fields

def renderItems : List Json → List Char
  | [] => [']']
  | [item] => renderChars item ++ [']']
  | item :: next :: rest => renderChars item ++ ',' :: renderItems (next :: rest)

def renderFields : List (String × Json) → List Char
  | [] => ['}']
  | [(name, value)] => quote name ++ ':' :: (renderChars value ++ ['}'])
  | (name, value) :: next :: rest =>
    quote name ++ ':' :: (renderChars value ++ ',' :: renderFields (next :: rest))

end

def render (value : Json) : String := String.ofList value.renderChars

end MachineFleet.Json
