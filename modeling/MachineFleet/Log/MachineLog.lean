import MachineFleet.Error
import MachineFleet.Files.Tree

/-!
The log of one machine. What its output streams write is cut into lines, which are written one at a
time; a line that would make the file longer than allowed starts a new file, and the full one takes
the place of the older one beside it.
-/
namespace MachineFleet

structure MachineLog where
  path : Path
  place : Files.Place
  maxSize : Nat
  size : Nat
  deriving DecidableEq, Repr

namespace MachineLog

def newline : UInt8 := 10

def defaultMaxSize : Nat := 10 * 1024 * 1024

def lines : List UInt8 → List (List UInt8)
  | [] => []
  | b :: rest =>
    if b = newline then [b] :: lines rest
    else
      match lines rest with
      | [] => [[b]]
      | line :: more => (b :: line) :: more

structure Stream where
  pieces : List (List UInt8)
  breaks : Bool
  deriving DecidableEq, Repr

/-- The lines of a stream. An unterminated line is lost if the stream breaks. -/
def Stream.lines (s : Stream) : List (List UInt8) :=
  let all := MachineLog.lines s.pieces.flatten
  if s.breaks then all.filter (·.getLast? == some newline) else all

def makePlace (t : Files.Tree) (path : Path) : Files.Tree × Except Files.Failure Unit :=
  match path.parent? with
  | some parent => t.makePath parent
  | none => (t, .ok ())

def openAt (t : Files.Tree) (path : Path) (maxSize : Option Nat) :
    Except Error (MachineLog × Files.Tree) :=
  let opened : Except Files.Failure (MachineLog × Files.Tree) := do
    let (t, made) := makePlace t path
    made
    let (place, t) ← t.openFile path
    let size := ((t.contents? place).getD []).length
    return (⟨path, place, maxSize.getD defaultMaxSize, size⟩, t)
  opened.mapError .io

def oldPlace (place : Files.Place) : Files.Place :=
  place.dropLast ++ [place.getLast?.getD "" ++ ".old"]

/-- Moves the file to the place of the older one and starts a new one, unless a directory is in the
way. -/
def rotate? (log : MachineLog) (t : Files.Tree) : Option Files.Tree :=
  let old := oldPlace log.place
  match t.node? old, t.contents? log.place with
  | some .directory, _ => none
  | _, none => none
  | _, some contents => some ((t.put old (.file contents)).put log.place (.file []))

def isFull (log : MachineLog) (line : List UInt8) : Bool :=
  0 < log.size && log.maxSize < log.size + line.length

def append (log : MachineLog) (t : Files.Tree) (line : List UInt8) : MachineLog × Files.Tree :=
  ({ log with size := log.size + line.length }, t.append log.place line)

def write (log : MachineLog) (t : Files.Tree) (line : List UInt8) : MachineLog × Files.Tree :=
  if log.isFull line then
    match log.rotate? t with
    | some t => { log with size := 0 }.append t line
    | none => log.append t line
  else log.append t line

def writeAll (log : MachineLog) (t : Files.Tree) : List (List UInt8) → MachineLog × Files.Tree
  | [] => (log, t)
  | line :: rest =>
    let (log, t) := log.write t line
    log.writeAll t rest

def pipeAll (log : MachineLog) (t : Files.Tree) (streams : List Stream) : MachineLog × Files.Tree :=
  log.writeAll t (streams.flatMap (·.lines))

end MachineLog

end MachineFleet
