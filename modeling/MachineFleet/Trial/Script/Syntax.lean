/-!
Scripts that machines run in trials, in a small part of the shell language, and their reader.
-/
namespace MachineFleet.Trial.Script

inductive Piece where
  | text (cs : List Char)
  | value (name : String) (quoted : Bool)
  | number (expression : List Char)
  | printed (script : List Char) (quoted : Bool)
  deriving DecidableEq, Repr

abbrev Word := List Piece

inductive Redirection where
  | copy (source target : Nat)
  | file (source : Nat) (path : Word)
  | input (path : Word)
  deriving DecidableEq, Repr

inductive Token where
  | word (w : Word)
  | mark (text : String)
  | redirect (source : Nat) (operator : String)
  deriving DecidableEq, Repr

def Token.word? : Token → Option Word
  | .word w => some w
  | _ => none

inductive Command where
  | simple (assignments : List (String × Word)) (words : List Word)
      (redirections : List Redirection)
  | pass
  | sequence (first second : Command)
  | both (first second : Command)
  | either (first second : Command)
  | negation (c : Command)
  | pipe (first second : Command)
  | inside (c : Command)
  | choice (condition yes no : Command)
  /-- Repeats `body` as long as the condition holds, or, if not `while?`, does not hold. -/
  | loop (while? : Bool) (condition body : Command)
  | each (name : String) (words : List Word) (body : Command)
  deriving Repr, Inhabited

def isNameStart (c : Char) : Bool := c.isAlpha || c == '_'

def isNameChar (c : Char) : Bool := c.isAlphanum || c == '_'

def isBlank (c : Char) : Bool := c == ' ' || c == '\t'

def endsWord (c : Char) : Bool :=
  isBlank c || c == '\n' || ";&|<>()".toList.contains c

def takeNested : (depth : Nat) → List Char → List Char × List Char
  | _, [] => ([], [])
  | depth, ')' :: rest =>
    match depth with
    | 0 => ([], rest)
    | depth + 1 =>
      let (inner, rest) := takeNested depth rest
      (')' :: inner, rest)
  | depth, c :: rest =>
    let (inner, rest) := takeNested (if c == '(' then depth + 1 else depth) rest
    (c :: inner, rest)

def expansion? (quoted : Bool) (cs : List Char) : Option (Piece × List Char) :=
  match cs with
  | '(' :: '(' :: rest =>
    let (inner, rest) := takeNested 1 rest
    some (.number (inner.take (inner.length - 1)), rest)
  | '(' :: rest =>
    let (inner, rest) := takeNested 0 rest
    some (.printed inner quoted, rest)
  | '\x7b' :: rest =>
    some (.value (String.ofList (rest.takeWhile (· != '\x7d'))) quoted,
      (rest.dropWhile (· != '\x7d')).drop 1)
  | c :: rest =>
    if isNameStart c then
      some (.value (String.ofList (cs.takeWhile isNameChar)) quoted, cs.dropWhile isNameChar)
    else if c.isDigit || "$?#@*!-".toList.contains c then
      some (.value (String.singleton c) quoted, rest)
    else none
  | [] => none

def backQuoted (quoted : Bool) (cs : List Char) : Piece × List Char :=
  (.printed (cs.takeWhile (· != '\x60')) quoted, (cs.dropWhile (· != '\x60')).drop 1)

def quotedPieces : (fuel : Nat) → List Char → Word × List Char
  | 0, cs => ([], cs)
  | _, [] => ([], [])
  | fuel + 1, c :: rest =>
    let more (p : Piece) (rest : List Char) :=
      let (pieces, rest) := quotedPieces fuel rest
      (p :: pieces, rest)
    if c == '"' then ([], rest)
    else if c == '\\' then
      match rest with
      | e :: rest =>
        if "\\\"$\x60".toList.contains e then more (.text [e]) rest
        else more (.text ['\\', e]) rest
      | [] => ([.text ['\\']], [])
    else if c == '\x60' then
      let (p, rest) := backQuoted true rest
      more p rest
    else if c == '$' then
      match expansion? true rest with
      | some (p, rest) => more p rest
      | none => more (.text ['$']) rest
    else more (.text [c]) rest

def wordPieces : (fuel : Nat) → List Char → Word × List Char
  | 0, cs => ([], cs)
  | _, [] => ([], [])
  | fuel + 1, c :: rest =>
    let more (ps : Word) (rest : List Char) :=
      let (pieces, rest) := wordPieces fuel rest
      (ps ++ pieces, rest)
    if endsWord c then ([], c :: rest)
    else if c == '\'' then
      more [.text [], .text (rest.takeWhile (· != '\''))] ((rest.dropWhile (· != '\'')).drop 1)
    else if c == '"' then
      let (pieces, rest) := quotedPieces rest.length rest
      let isList := pieces matches [.value "@" true]
      more (if isList then pieces else .text [] :: pieces) rest
    else if c == '\\' then more [.text (rest.take 1)] (rest.drop 1)
    else if c == '\x60' then
      let (p, rest) := backQuoted false rest
      more [p] rest
    else if c == '$' then
      match expansion? false rest with
      | some (p, rest) => more [p] rest
      | none => more [.text ['$']] rest
    else more [.text [c]] rest

def marks : List String := ["&&", "||", ";;", ";", "&", "|", "(", ")", "\n"]

def mark? (cs : List Char) : Option (String × List Char) :=
  (marks.find? fun m => m.toList.isPrefixOf cs).map fun m => (m, cs.drop m.length)

def redirect? (cs : List Char) : Option (Token × List Char) :=
  let digits := cs.takeWhile Char.isDigit
  let number (standard : Nat) := (String.ofList digits).toNat?.getD standard
  match cs.dropWhile Char.isDigit with
  | '>' :: '&' :: rest => some (.redirect (number 1) ">&", rest)
  | '>' :: '>' :: rest => some (.redirect (number 1) ">", rest)
  | '>' :: rest => some (.redirect (number 1) ">", rest)
  | '<' :: rest => some (.redirect (number 0) "<", rest)
  | _ => none

def tokens : (fuel : Nat) → List Char → List Token
  | 0, _ => []
  | _, [] => []
  | fuel + 1, c :: rest =>
    if isBlank c then tokens fuel rest
    else if c == '#' then tokens fuel (rest.dropWhile (· != '\n'))
    else if c == '\\' && rest.head? == some '\n' then tokens fuel (rest.drop 1)
    else match redirect? (c :: rest) with
      | some (t, rest) => t :: tokens fuel rest
      | none =>
        match mark? (c :: rest) with
        | some (m, rest) => .mark m :: tokens fuel rest
        | none =>
          let (pieces, after) := wordPieces (rest.length + 1) (c :: rest)
          .word pieces :: tokens fuel after

def Piece.bare? : Piece → Option Char
  | .text [c] => some c
  | _ => none

def Word.plain? (w : Word) : Option String :=
  (w.mapM Piece.bare?).map String.ofList

def isKeyword (word : String) : List Token → Bool
  | .word w :: _ => Word.plain? w == some word
  | _ => false

def keywordsThatEnd : List String := ["do", "done", "then", "elif", "else", "fi", "\x7d"]

def endsList (ts : List Token) : Bool :=
  ts.isEmpty || ts.head? == some (.mark ")") || keywordsThatEnd.any (isKeyword · ts)

def skipNewlines : List Token → List Token
  | .mark "\n" :: rest => skipNewlines rest
  | ts => ts

def assignment? (w : Word) : Option (String × Word) :=
  let name := (w.takeWhile (·.bare?.any isNameChar)).filterMap Piece.bare?
  match w.drop name.length with
  | .text ['='] :: value =>
    if name.head?.any isNameStart then some (String.ofList name, value) else none
  | _ => none

def readSimple (assignments : List (String × Word)) (words : List Word)
    (redirections : List Redirection) : List Token → Command × List Token
  | .word w :: rest =>
    match words, assignment? w with
    | [], some a => readSimple (assignments ++ [a]) words redirections rest
    | _, _ => readSimple assignments (words ++ [w]) redirections rest
  | .redirect source operator :: .word w :: rest =>
    let redirection : Redirection :=
      if operator == "<" then .input w
      else if operator == ">&" then
        .copy source (((Word.plain? w).bind String.toNat?).getD source)
      else .file source w
    readSimple assignments words (redirections ++ [redirection]) rest
  | rest => (.simple assignments words redirections, rest)

mutual

def readList : (fuel : Nat) → List Token → Command × List Token
  | 0, ts => (.pass, ts)
  | fuel + 1, ts =>
    let ts := skipNewlines ts
    if endsList ts then (.pass, ts)
    else
      let (first, rest) := readChain fuel ts
      match rest with
      | .mark _ :: after =>
        if endsList rest then (first, rest)
        else
          let (second, rest) := readList fuel after
          (.sequence first second, rest)
      | _ => (first, rest)

def readChain : (fuel : Nat) → List Token → Command × List Token
  | 0, ts => (.pass, ts)
  | fuel + 1, ts =>
    let (first, rest) := readPipe fuel ts
    readLinks fuel first rest

def readLinks : (fuel : Nat) → (first : Command) → List Token → Command × List Token
  | 0, first, ts => (first, ts)
  | fuel + 1, first, .mark "&&" :: rest =>
    let (second, rest) := readPipe fuel (skipNewlines rest)
    readLinks fuel (.both first second) rest
  | fuel + 1, first, .mark "||" :: rest =>
    let (second, rest) := readPipe fuel (skipNewlines rest)
    readLinks fuel (.either first second) rest
  | _, first, ts => (first, ts)

def readPipe : (fuel : Nat) → List Token → Command × List Token
  | 0, ts => (.pass, ts)
  | fuel + 1, ts =>
    if isKeyword "!" ts then
      let (c, rest) := readPipe fuel ts.tail
      (.negation c, rest)
    else
      let (first, rest) := readCommand fuel ts
      match rest with
      | .mark "|" :: rest =>
        let (second, rest) := readPipe fuel (skipNewlines rest)
        (.pipe first second, rest)
      | _ => (first, rest)

def readCommand : (fuel : Nat) → List Token → Command × List Token
  | 0, ts => (.pass, ts)
  | fuel + 1, ts =>
    match ts with
    | .mark "(" :: rest =>
      let (c, rest) := readList fuel rest
      (.inside c, rest.tail)
    | _ =>
      if isKeyword "\x7b" ts then
        let (c, rest) := readList fuel ts.tail
        (c, rest.tail)
      else if isKeyword "while" ts || isKeyword "until" ts then
        let (condition, rest) := readList fuel ts.tail
        let (body, rest) := readList fuel rest.tail
        (.loop (isKeyword "while" ts) condition body, rest.tail)
      else if isKeyword "if" ts then readChoice fuel ts.tail
      else if isKeyword "for" ts then readEach fuel ts.tail
      else readSimple [] [] [] ts

def readChoice : (fuel : Nat) → List Token → Command × List Token
  | 0, ts => (.pass, ts)
  | fuel + 1, ts =>
    let (condition, rest) := readList fuel ts
    let (yes, rest) := readList fuel rest.tail
    if isKeyword "elif" rest then
      let (no, rest) := readChoice fuel rest.tail
      (.choice condition yes no, rest)
    else if isKeyword "else" rest then
      let (no, rest) := readList fuel rest.tail
      (.choice condition yes no, rest.tail)
    else (.choice condition yes .pass, rest.tail)

def readEach : (fuel : Nat) → List Token → Command × List Token
  | 0, ts => (.pass, ts)
  | fuel + 1, ts =>
    let name := match ts with
      | .word w :: _ => (Word.plain? w).getD ""
      | _ => ""
    let rest := skipNewlines ts.tail
    let (words, rest) :=
      if isKeyword "in" rest then
        let items := (rest.tail.takeWhile (·.word?.isSome)).filterMap Token.word?
        (items, rest.tail.drop items.length)
      else ([[.value "@" true]], rest)
    let rest := match rest with
      | .mark _ :: rest => skipNewlines rest
      | rest => rest
    let (body, rest) := readList fuel rest.tail
    (.each name words body, rest.tail)

end

def parse (script : List Char) : Command :=
  let ts := tokens (script.length + 1) script
  (readList (8 * ts.length + 8) ts).1

end MachineFleet.Trial.Script
