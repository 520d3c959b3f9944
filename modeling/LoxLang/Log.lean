import LoxLang.Diagnostic

namespace LoxLang

/-- A point in time, in seconds since the epoch and nanoseconds after that. -/
structure Moment where
  seconds : Int
  nanoseconds : Nat
  deriving DecidableEq, Repr

namespace Moment

/-- The moment some seconds and nanoseconds after the epoch, of which either may be negative or
large. Seconds wrap around at 64 bits. -/
def after (seconds nanoseconds : Int) : Moment :=
  ⟨Int.bmod (seconds + Int.fdiv nanoseconds 1000000000) (Nat.pow 2 64),
    (Int.fmod nanoseconds 1000000000).toNat⟩

/-- The start of the year 1, which stands for no time at all. -/
def unset : Moment := ⟨-62135596800, 0⟩

end Moment

namespace Log

/-- How severe a record is; the five names are four apart. -/
abbrev Level := Int64

namespace Level

def trace : Level := -8
def debug : Level := -4
def info : Level := 0
def warn : Level := 4
def error : Level := 8

end Level

inductive Value where
  | string (t : Text)
  | int (n : Int)
  | uint (n : Nat)
  | float (x : Float)
  | bool (b : Bool)
  | duration (n : Int)
  | time (m : Moment)
  | null
  | error (t : Text)
  | group (fields : List (Text × Value))
  /-- Opens into fields when a record is written, and is the text elsewhere. -/
  | deferred (t : Text) (fields : List (Text × Value))

abbrev Attr := Text × Value

structure Record where
  level : Level
  message : Text
  attrs : List Attr

def text (name : String) (t : Text) : Attr := (name, .string t)

def int (name : String) (n : Int) : Attr := (name, .int n)

def nat (name : String) (n : Nat) : Attr := int name n

end Log

namespace Diagnostic

def logFields (d : Diagnostic) : List Log.Attr :=
  [Log.text "kind" d.stage.name, Log.int "line" d.line, Log.text "message" d.message] ++
    if d.place.isEmpty then [] else [Log.text "where" d.place]

def logValue (d : Diagnostic) : Log.Value := .deferred d.text d.logFields

def logRecord (d : Diagnostic) : Log.Record :=
  ⟨.debug, "diagnostic", [("diagnostic", d.logValue)]⟩

end Diagnostic

end LoxLang
