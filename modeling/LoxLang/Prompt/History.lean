import LoxLang.Failure
import LoxLang.Text.Case

namespace LoxLang.Prompt

/-- What a line is: a piece of a program or a command to the prompt itself. -/
inductive Mode where
  | eval | command
  | unknown (code : Int)
  deriving DecidableEq, Repr

def Mode.ofCode (n : Int) : Mode := if n = 0 then eval else if n = 1 then command else unknown n

def Mode.code : Mode → Int
  | eval => 0
  | command => 1
  | unknown n => n

inductive File where
  | missing
  | content (t : Text)
  | directory
  | unreachable
  deriving DecidableEq, Repr

structure Entry where
  line : Text
  mode : Mode
  deriving DecidableEq, Repr

namespace Entry

def evalMarker : Text := "E:"

def commandMarker : Text := "C:"

def write (e : Entry) : Text :=
  (if e.mode = .command then commandMarker else evalMarker) ++ e.line ++ [Text.newline]

def cut? (marker t : Text) : Option Text :=
  if marker.isPrefixOf t then some (t.drop marker.length) else none

/-- The entry of a line of the file; a line without marker is part of a program. -/
def read (line : Text) : Entry :=
  match cut? commandMarker line, cut? evalMarker line with
  | some t, _ => ⟨t, .command⟩
  | none, some t => ⟨t, .eval⟩
  | none, none => ⟨line, .eval⟩

end Entry

/-- The entries, oldest first, and the file behind them. -/
structure History where
  entries : List Entry
  file : File
  deriving DecidableEq, Repr

namespace History

def capacity : Nat := 1000

def lineLimit : Nat := 65536

def broken (reason : String) : Failure := .foreign (.plain 0 reason) none

/-- The lines of a file; what follows the last line break is one only if it is not empty. -/
def fileLines (t : Text) : List Text :=
  let lines := t.lines
  if lines.getLast? = some [] then lines.dropLast else lines

def dropReturn (line : Text) : Text :=
  if line.getLast? = some 13 then line.dropLast else line

def readLines : List Text → List Entry × Bool
  | [] => ([], true)
  | line :: rest =>
    if lineLimit ≤ line.length then ([], false)
    else
      let (entries, complete) := readLines rest
      let t := (dropReturn line).trim
      (if t.isEmpty then entries else Entry.read t :: entries, complete)

def load (h : History) : Option Failure × History :=
  match h.file with
  | .missing | .unreachable => (none, h)
  | .directory => (some (broken "is a directory"), { h with entries := [] })
  | .content t =>
    let (entries, complete) := readLines (fileLines t)
    (if complete then none else some (broken "token too long"), { h with entries })

def store (append : Bool) (t : Text) : File → Option Failure × File
  | .missing => (none, .content t)
  | .content old => (none, .content (if append then old ++ t else t))
  | .directory => (some (broken "is a directory"), .directory)
  | .unreachable => (some (broken "no such file or directory"), .unreachable)

/-- Adds a line as the newest entry; an earlier equal entry is dropped, and so is the oldest when
there are too many. The file follows, by an added line where that is enough. -/
def add (line : Text) (mode : Mode) (h : History) : Option Failure × History :=
  let line := line.trim
  let entry : Entry := ⟨line, mode⟩
  if line.isEmpty || h.entries.getLast? = some entry then (none, h)
  else
    let repeated := h.entries.contains entry
    let entries := h.entries.erase entry ++ [entry]
    let kept := entries.drop (entries.length - capacity)
    let (error?, file) :=
      if repeated || capacity < entries.length then store false (kept.flatMap Entry.write) h.file
      else store true entry.write h.file
    (error?, ⟨kept, file⟩)

/-- The entry at a position, 0 being the oldest. -/
def entry? (h : History) (i : Int) : Except Failure Entry :=
  match if 0 ≤ i then h.entries[i.toNat]? else none with
  | some e => .ok e
  | none =>
    .error ((Failure.of .outOfBounds).attach
      [Log.int "index" i, Log.nat "entries" h.entries.length])

def size (h : History) : Nat := h.entries.length

end History

end LoxLang.Prompt
