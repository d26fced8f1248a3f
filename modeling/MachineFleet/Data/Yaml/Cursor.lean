namespace MachineFleet.Yaml

def isBreak (c : Char) : Bool :=
  c == '\n' || c == '\r' || c == '\u0085' || c == '\u2028' || c == '\u2029'

def isBlank (c : Char) : Bool :=
  c == ' ' || c == '\t'

def isWordChar (c : Char) : Bool :=
  c.isAlphanum || c == '_' || c == '-'

def isPrintable (c : Char) : Bool :=
  let n := c.toNat
  n == 0x09 || n == 0x0A || n == 0x0D || n == 0x85 || (0x20 ≤ n && n ≤ 0x7E) ||
    (0xA0 ≤ n && n ≤ 0xD7FF) || (0xE000 ≤ n && n ≤ 0xFFFD) || 0x10000 ≤ n

def startsGap : List Char → Bool
  | [] => true
  | c :: _ => isBlank c || isBreak c

def startsLineEnd : List Char → Bool
  | [] => true
  | c :: _ => isBreak c

structure Cursor where
  rest : List Char
  index : Nat
  line : Nat
  column : Nat
  deriving Repr

namespace Cursor

def start (text : List Char) : Cursor := ⟨text, 0, 0, 0⟩

def moveTo (c : Cursor) (rest : List Char) : Cursor :=
  let n := c.rest.length - rest.length
  { c with rest, index := c.index + n, column := c.column + n }

def skip (n : Nat) (c : Cursor) : Cursor := c.moveTo (c.rest.drop n)

def skipWhile (p : Char → Bool) (c : Cursor) : Cursor := c.moveTo (c.rest.dropWhile p)

def takeWhile (p : Char → Bool) (c : Cursor) : List Char := c.rest.takeWhile p

def skipBreak (c : Cursor) : Cursor :=
  match c.rest with
  | '\r' :: '\n' :: rest => ⟨rest, c.index + 2, c.line + 1, 0⟩
  | x :: rest => if isBreak x then ⟨rest, c.index + 1, c.line + 1, 0⟩ else c
  | [] => c

/-- What the line break that comes next adds to a text: the separators of lines and of paragraphs
stand for themselves, every other break is a line feed. -/
def breakText (c : Cursor) : List Char :=
  match c.rest with
  | '\u2028' :: _ => ['\u2028']
  | '\u2029' :: _ => ['\u2029']
  | x :: _ => if isBreak x then ['\n'] else []
  | [] => []

def atMark (mark : Char) (c : Cursor) : Bool :=
  c.column == 0 && c.rest.take 3 == [mark, mark, mark] && startsGap (c.rest.drop 3)

def atDocumentMark (c : Cursor) : Bool :=
  c.atMark '-' || c.atMark '.'

end Cursor

end MachineFleet.Yaml
