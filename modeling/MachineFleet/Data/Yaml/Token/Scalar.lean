import MachineFleet.Data.Json.Parser
import MachineFleet.Data.Yaml.Cursor

/-!
Reading the texts of scalars. The three forms share the folding of lines: a single line break
between two words reads as a space, and of several breaks all but the first are kept.
-/
namespace MachineFleet.Yaml

structure Gap where
  blanks : List Char
  first? : Option (List Char)
  others : List Char

namespace Gap

def none : Gap := ⟨[], .none, []⟩

def hasBreak (g : Gap) : Bool := g.first?.isSome

def text (g : Gap) : List Char :=
  match g.first? with
  | .none => g.blanks
  | some first =>
    if first == ['\n'] then if g.others.isEmpty then [' '] else g.others
    else first ++ g.others

end Gap

namespace Cursor

/-- The blanks and breaks from here on. After a break a tab may not stand before column `indent`. -/
def gap? (indent : Nat) : (fuel : Nat) → Gap → Cursor → Option (Gap × Cursor)
  | 0, _, _ => none
  | fuel + 1, g, c =>
    match c.rest with
    | [] => some (g, c)
    | x :: _ =>
      if isBlank x then
        if g.hasBreak then
          if x == '\t' && c.column < indent then none else gap? indent fuel g (c.skip 1)
        else gap? indent fuel { g with blanks := g.blanks ++ [x] } (c.skip 1)
      else if isBreak x then
        if g.hasBreak then
          gap? indent fuel { g with others := g.others ++ c.breakText } c.skipBreak
        else gap? indent fuel { g with first? := some c.breakText } c.skipBreak
      else some (g, c)

def plainWord? (inBrackets : Bool) : List Char → Option (List Char × List Char)
  | [] => some ([], [])
  | c :: rest =>
    let touches := inBrackets && c == ':' && rest.head?.any (",?[]\x7b\x7d".toList.contains ·)
    let ends := isBlank c || isBreak c || (c == ':' && startsGap rest) ||
      (inBrackets && ",[]\x7b\x7d".toList.contains c)
    if touches then none
    else if ends then some ([], c :: rest)
    else (plainWord? inBrackets rest).map fun (word, rest) => (c :: word, rest)

def plainFrom? (inBrackets : Bool) (indent : Nat) :
    (fuel : Nat) → Gap → Cursor → Option (List Char × Bool × Cursor)
  | 0, _, _ => none
  | fuel + 1, before, c => do
    if c.atDocumentMark || c.rest.head? == some '#' then return ([], before.hasBreak, c)
    let (word, rest) ← plainWord? inBrackets c.rest
    let c := c.moveTo rest
    let left := before.hasBreak && word.isEmpty
    let start := if word.isEmpty then [] else before.text ++ word
    if !(rest.head?.any fun x => isBlank x || isBreak x) then return (start, left, c)
    let (after, c) ← c.gap? indent (c.rest.length + 1) .none
    if !inBrackets && c.column < indent then return (start, left || after.hasBreak, c)
    let (more, left, c) ← plainFrom? inBrackets indent fuel after c
    return (start ++ more, left, c)

def plain? (inBrackets : Bool) (indent : Nat) (c : Cursor) :
    Option (String × Bool × Cursor) := do
  let (text, left, c) ← plainFrom? inBrackets indent (c.rest.length + 1) .none c
  return (String.ofList text, left, c)

def hexNumber? (digits : Nat) (cs : List Char) : Option Nat :=
  let taken := cs.take digits
  if taken.length < digits then none
  else taken.foldlM (fun n c => (Json.hexValue? c).map (n * 16 + ·)) 0

def codedChar? (digits : Nat) (cs : List Char) : Option (Char × List Char) := do
  let n ← hexNumber? digits cs
  if (0xD800 ≤ n && n ≤ 0xDFFF) || 0x10FFFF < n then none
  return (.ofNat n, cs.drop digits)

def unescape? : List Char → Option (Char × List Char)
  | '0' :: rest => some ('\x00', rest)
  | 'a' :: rest => some ('\x07', rest)
  | 'b' :: rest => some ('\x08', rest)
  | 't' :: rest | '\t' :: rest => some ('\t', rest)
  | 'n' :: rest => some ('\n', rest)
  | 'v' :: rest => some ('\x0b', rest)
  | 'f' :: rest => some ('\x0c', rest)
  | 'r' :: rest => some ('\r', rest)
  | 'e' :: rest => some ('\x1b', rest)
  | ' ' :: rest => some (' ', rest)
  | '"' :: rest => some ('"', rest)
  | '/' :: rest => some ('/', rest)
  | '\\' :: rest => some ('\\', rest)
  | 'N' :: rest => some ('\u0085', rest)
  | '_' :: rest => some ('\u00a0', rest)
  | 'L' :: rest => some ('\u2028', rest)
  | 'P' :: rest => some ('\u2029', rest)
  | 'x' :: rest => codedChar? 2 rest
  | 'u' :: rest => codedChar? 4 rest
  | 'U' :: rest => codedChar? 8 rest
  | _ => none

def quotedFrom? (quote : Char) : (fuel : Nat) → Cursor → Option (List Char × Cursor)
  | 0, _ => none
  | fuel + 1, c =>
    if c.atDocumentMark then none
    else match c.rest with
      | [] => none
      | x :: rest =>
        if x == quote then
          if quote == '\'' && rest.head? == some '\'' then
            (quotedFrom? quote fuel (c.skip 2)).map fun (text, c) => ('\'' :: text, c)
          else some ([], c.skip 1)
        else if isBlank x || isBreak x then do
          let (g, c) ← c.gap? 0 (c.rest.length + 1) .none
          let (text, c) ← quotedFrom? quote fuel c
          return (g.text ++ text, c)
        else if quote == '"' && x == '\\' then
          if rest.head?.any isBreak then do
            let (g, c) ← (c.skip 1).skipBreak.gap? 0 (c.rest.length + 1) ⟨[], some [], []⟩
            let (text, c) ← quotedFrom? quote fuel c
            return (g.text ++ text, c)
          else do
            let (character, rest) ← unescape? rest
            let (text, c) ← quotedFrom? quote fuel (c.moveTo rest)
            return (character :: text, c)
        else (quotedFrom? quote fuel (c.skip 1)).map fun (text, c) => (x :: text, c)

def quoted? (quote : Char) (c : Cursor) : Option (String × Cursor) :=
  (quotedFrom? quote (c.rest.length + 1) (c.skip 1)).map fun (text, c) => (String.ofList text, c)

inductive Chomping where
  | none
  | one
  | all
  deriving DecidableEq, Repr

def Chomping.ofSign? : Char → Option Chomping
  | '-' => some .none
  | '+' => some .all
  | _ => Option.none

def indentDigit? (c : Cursor) : Option (Nat × Cursor) :=
  match c.rest with
  | x :: _ =>
    if x == '0' then none
    else if x.isDigit then some (x.toNat - 48, c.skip 1)
    else some (0, c)
  | [] => some (0, c)

def blockHead? (c : Cursor) : Option (Chomping × Nat × Cursor) :=
  match c.rest.head?.bind Chomping.ofSign? with
  | some chomping => (c.skip 1).indentDigit?.map fun (digit, c) => (chomping, digit, c)
  | none => do
    let (digit, c) ← c.indentDigit?
    if digit == 0 then return (.one, 0, c)
    match c.rest.head?.bind Chomping.ofSign? with
    | some chomping => return (chomping, digit, c.skip 1)
    | none => return (.one, digit, c)

/-- The breaks of empty lines, the furthest column reached on the way and the place where the next
text begins. Indentation ends at column `indent`, or nowhere if that is zero. -/
def emptyLines? (indent : Nat) : (fuel : Nat) → (furthest : Nat) → Cursor →
    Option (List Char × Nat × Cursor)
  | 0, _, _ => none
  | fuel + 1, furthest, c =>
    let spaces := (c.takeWhile (· == ' ')).length
    let c := c.skip (if indent == 0 then spaces else min spaces (indent - c.column))
    let furthest := max furthest c.column
    match c.rest with
    | [] => some ([], furthest, c)
    | x :: _ =>
      if x == '\t' && (indent == 0 || c.column < indent) then none
      else if isBreak x then
        (emptyLines? indent fuel furthest c.skipBreak).map fun (breaks, furthest, next) =>
          (c.breakText ++ breaks, furthest, next)
      else some ([], furthest, c)

/-- The lines of a block scalar that are moved in to column `indent`. `broke` is what the break
before added and `empties` what the empty lines after it did; `moved` says whether the line before
began with a blank, which keeps a folded scalar from folding. -/
def blockLines? (folded : Bool) (chomping : Chomping) (indent : Nat) :
    (fuel : Nat) → (broke empties : List Char) → (moved : Bool) → Cursor →
    Option (List Char × Cursor)
  | 0, _, _, _, _ => none
  | fuel + 1, broke, empties, moved, c => do
    if c.rest.isEmpty || c.column != indent then
      let last := if chomping == .none then [] else broke
      let rest := if chomping == .all then empties else []
      return (last ++ rest, c)
    let blank := c.rest.head?.any isBlank
    let joint :=
      if folded && broke == ['\n'] && !moved && !blank then if empties.isEmpty then [' '] else []
      else broke
    let line := c.takeWhile (!isBreak ·)
    let c := c.skipWhile (!isBreak ·)
    let broke := c.breakText
    let c := c.skipBreak
    let (nextEmpties, _, c) ← c.emptyLines? indent (c.rest.length + 1) 0
    let (text, c) ← blockLines? folded chomping indent fuel broke nextEmpties blank c
    return (joint ++ empties ++ line ++ text, c)

def block? (folded : Bool) (level : Nat) (c : Cursor) : Option (String × Cursor) := do
  let (chomping, digit, c) ← (c.skip 1).blockHead?
  let c := c.skipWhile isBlank
  let c := if c.rest.head? == some '#' then c.skipWhile (!isBreak ·) else c
  if !startsLineEnd c.rest then none
  let c := c.skipBreak
  let fuel := c.rest.length + 1
  let given := if digit == 0 then 0 else level - 1 + digit
  let (empties, furthest, c) ← c.emptyLines? given fuel 0
  let indent := if given == 0 then max furthest (max level 1) else given
  let (text, c) ← c.blockLines? folded chomping indent fuel [] empties false
  return (String.ofList text, c)

end Cursor

end MachineFleet.Yaml
