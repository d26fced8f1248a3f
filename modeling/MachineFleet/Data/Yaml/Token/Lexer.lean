import MachineFleet.Data.Yaml.Token.Property
import MachineFleet.Data.Yaml.Token.Scalar

/-!
Cutting a YAML text into tokens. Two things make this more than reading from left to right.
Indentation opens and closes block collections. And the colon that makes a key of what stands
before it comes only after that key, so every place where a key may begin is remembered until the
colon, the end of the line or a limit of 1024 characters decides.
-/
namespace MachineFleet.Yaml

structure KeyStart where
  position : Nat
  isRequired : Bool
  index : Nat
  line : Nat
  column : Nat
  deriving Repr

structure Lexer where
  cursor : Cursor
  tokens : Array Token
  /-- The column after that of the innermost block collection; zero outside all of them. -/
  level : Nat
  outerLevels : List Nat
  key? : Option KeyStart
  outerKeys : List (Option KeyStart)
  keyAllowed : Bool
  deriving Repr

namespace Lexer

def start (text : List Char) : Lexer where
  cursor := .start text
  tokens := #[]
  level := 0
  outerLevels := []
  key? := none
  outerKeys := []
  keyAllowed := true

def inBrackets (l : Lexer) : Bool := !l.outerKeys.isEmpty

def push (t : Token) (l : Lexer) : Lexer := { l with tokens := l.tokens.push t }

def skip (n : Nat) (l : Lexer) : Lexer := { l with cursor := l.cursor.skip n }

def allowKey (b : Bool) (l : Lexer) : Lexer := { l with keyAllowed := b }

def dropKey? (l : Lexer) : Option Lexer :=
  if l.key?.any (·.isRequired) then none else some { l with key? := none }

def markKey? (l : Lexer) : Option Lexer :=
  if l.keyAllowed then
    l.dropKey?.map fun l =>
      { l with
        key? := some {
          position := l.tokens.size
          isRequired := !l.inBrackets && l.level == l.cursor.column + 1
          index := l.cursor.index
          line := l.cursor.line
          column := l.cursor.column } }
  else some l

def keepKey? (c : Cursor) : Option KeyStart → Option (Option KeyStart)
  | none => some none
  | some k =>
    if k.line < c.line || k.index + 1024 < c.index then
      if k.isRequired then none else some none
    else some (some k)

def dropStaleKeys? (l : Lexer) : Option Lexer := do
  let key? ← keepKey? l.cursor l.key?
  let outerKeys ← l.outerKeys.mapM (keepKey? l.cursor)
  return { l with key?, outerKeys }

def closeLevels (level : Nat) : (inner : Nat) → (outer : List Nat) → (tokens : Array Token) →
    Nat × List Nat × Array Token
  | inner, [], tokens => (inner, [], tokens)
  | inner, next :: outer, tokens =>
    if level < inner then closeLevels level next outer (tokens.push .blockEnd)
    else (inner, next :: outer, tokens)

def closeBlocks (level : Nat) (l : Lexer) : Lexer :=
  if l.inBrackets then l
  else
    let (level, outerLevels, tokens) := closeLevels level l.level l.outerLevels l.tokens
    { l with level, outerLevels, tokens }

def openBlock (column position : Nat) (t : Token) (l : Lexer) : Lexer :=
  if !l.inBrackets && l.level ≤ column then
    { l with
      level := column + 1
      outerLevels := l.level :: l.outerLevels
      tokens := l.tokens.insertIdxIfInBounds position t }
  else l

/-- Skips blanks, comments and line breaks. Tabs are blanks only where no key can begin, and a line
break allows one outside brackets. -/
def skipGap (inBrackets : Bool) : (fuel : Nat) → (keyAllowed : Bool) → Cursor → Bool × Cursor
  | 0, keyAllowed, c => (keyAllowed, c)
  | fuel + 1, keyAllowed, c =>
    let c := if c.index == 0 && c.rest.head? == some '\ufeff' then c.skip 1 else c
    let c := c.skipWhile fun x => x == ' ' || (x == '\t' && (inBrackets || !keyAllowed))
    let c := if c.rest.head? == some '#' then c.skipWhile (!isBreak ·) else c
    if c.rest.head?.any isBreak then skipGap inBrackets fuel (keyAllowed || !inBrackets) c.skipBreak
    else (keyAllowed, c)

def mark (t : Token) (keyAllowed : Bool) (l : Lexer) : Lexer :=
  ((l.push t).skip 1).allowKey keyAllowed

def documentMark? (t : Token) (l : Lexer) : Option Lexer :=
  (l.closeBlocks 0).dropKey?.map fun l => ((l.push t).skip 3).allowKey false

def directive? (l : Lexer) : Option Lexer := do
  let l ← (l.closeBlocks 0).dropKey?
  let (t, cursor) ← (l.cursor.skip 1).directive?
  return ({ l with cursor }.push t).allowKey false

def openBrackets? (t : Token) (l : Lexer) : Option Lexer :=
  l.markKey?.map fun l =>
    { l with outerKeys := l.key? :: l.outerKeys, key? := none }.mark t true

def closeBrackets? (t : Token) (l : Lexer) : Option Lexer :=
  l.dropKey?.map fun l =>
    match l.outerKeys with
    | key? :: outerKeys => { l with key?, outerKeys }.mark t false
    | [] => l.mark t false

def blockMark? (collection t : Token) (l : Lexer) : Option Lexer :=
  if !l.inBrackets && !l.keyAllowed then none
  else some ((l.openBlock l.cursor.column l.tokens.size collection).push t)

def blockEntry? (l : Lexer) : Option Lexer := do
  let l ← l.blockMark? .blockListStart .blockEntry
  return ((← l.dropKey?).skip 1).allowKey true

def explicitKey? (l : Lexer) : Option Lexer := do
  let l ← l.blockMark? .blockTableStart .key
  return ((← l.dropKey?).skip 1).allowKey (!l.inBrackets)

/-- A colon makes a key of what began where a key may have begun. -/
def value? (l : Lexer) : Option Lexer :=
  match l.key? with
  | some k =>
    let l := { l with tokens := l.tokens.insertIdxIfInBounds k.position .key, key? := none }
    some ((l.openBlock k.column k.position .blockTableStart).mark .value false)
  | none => do
    let l ← l.blockMark? .blockTableStart .value
    return (l.skip 1).allowKey (!l.inBrackets)

def item? {α : Type} (read? : Cursor → Option (α × Cursor)) (token : α → Token) (l : Lexer) :
    Option Lexer := do
  let l ← l.markKey?
  let (a, cursor) ← read? l.cursor
  return ({ l with cursor }.push (token a)).allowKey false

def block? (style : ScalarStyle) (l : Lexer) : Option Lexer := do
  let l ← l.dropKey?
  let (text, cursor) ← l.cursor.block? (style == .folded) l.level
  return ({ l with cursor }.push (.scalar style text)).allowKey true

def plain? (l : Lexer) : Option Lexer := do
  let l ← l.markKey?
  let (text, leftLine, cursor) ← l.cursor.plain? l.inBrackets l.level
  return ({ l with cursor }.push (.scalar .plain text)).allowKey leftLine

def startsPlain (inBrackets : Bool) (c : Char) (rest : List Char) : Bool :=
  !(isBlank c || isBreak c || "-?:,[]\x7b\x7d#&*!|>'\"%@\x60".toList.contains c) ||
    (c == '-' && !rest.head?.any isBlank) ||
    (!inBrackets && (c == '?' || c == ':') && !startsGap rest)

def token? (c : Char) (rest : List Char) (l : Lexer) : Option Lexer :=
  let isMark := startsGap rest
  if c == '%' && l.cursor.column == 0 then l.directive?
  else if l.cursor.atMark '-' then l.documentMark? .documentStart
  else if l.cursor.atMark '.' then l.documentMark? .documentEnd
  else if c == '[' then l.openBrackets? .listStart
  else if c == '\x7b' then l.openBrackets? .tableStart
  else if c == ']' then l.closeBrackets? .listEnd
  else if c == '\x7d' then l.closeBrackets? .tableEnd
  else if c == ',' then l.dropKey?.map (·.mark .separator true)
  else if c == '-' && isMark then l.blockEntry?
  else if c == '?' && (l.inBrackets || isMark) then l.explicitKey?
  else if c == ':' && (l.inBrackets || isMark) then l.value?
  else if c == '*' then l.item? (·.skip 1 |>.anchorName?) .alias
  else if c == '&' then l.item? (·.skip 1 |>.anchorName?) .anchor
  else if c == '!' then l.item? (·.tagName? l.inBrackets) .tag
  else if c == '|' && !l.inBrackets then l.block? .literal
  else if c == '>' && !l.inBrackets then l.block? .folded
  else if c == '\'' || c == '"' then l.item? (·.quoted? c) (.scalar .quoted)
  else if startsPlain l.inBrackets c rest then l.plain?
  else none

def run? : (fuel : Nat) → Lexer → Option (List Token)
  | 0, _ => none
  | fuel + 1, l => do
    let (keyAllowed, cursor) := skipGap l.inBrackets (l.cursor.rest.length + 1) l.keyAllowed l.cursor
    let l ← { l with keyAllowed, cursor }.dropStaleKeys?
    let l := l.closeBlocks (l.cursor.column + 1)
    match l.cursor.rest with
    | c :: rest => run? fuel (← l.token? c rest)
    | [] => return (← (l.closeBlocks 0).dropKey?).tokens.toList

end Lexer

def tokens? (text : String) : Option (List Token) :=
  let cs := match text.toList with
    | '\ufeff' :: rest => rest
    | cs => cs
  if cs.all isPrintable then (Lexer.start cs).run? (cs.length + 1) else none

end MachineFleet.Yaml
