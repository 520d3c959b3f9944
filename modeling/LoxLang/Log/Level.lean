import LoxLang.Log
import LoxLang.Text.Case

namespace LoxLang.Log

namespace Level

def named : List (Level × String) :=
  [(trace, "trace"), (debug, "debug"), (info, "info"), (warn, "warn"), (error, "error")]

def offset (n : Int64) : Text :=
  if n < 0 then Text.ofInt n.toInt else byte '+' :: Text.ofInt n.toInt

/-- A name and the distance from it, which is left out if it is zero. -/
def relative (name : String) (n : Int64) : Text := if n = 0 then name else name ++ offset n

def text (l : Level) : Text :=
  if l < debug then relative "trace" (l - trace)
  else if l < info then relative "debug" (l - debug)
  else if l < warn then relative "info" (l - info)
  else if l < error then relative "warn" (l - warn)
  else relative "error" (l - error)

def base? (name : List Char) : Option Level :=
  if name = "DEBUG".toList then some debug
  else if name = "INFO".toList then some info
  else if name = "WARN".toList then some warn
  else if name = "ERROR".toList then some error
  else none

def isSign (b : UInt8) : Bool := b == byte '+' || b == byte '-'

def standard? (t : Text) : Option Level :=
  let name := t.takeWhile (!isSign ·)
  let rest := t.drop name.length
  match base? ((Text.chars name).map Text.capital) with
  | none => none
  | some l => if rest.isEmpty then some l else (Text.toInt64? rest).map (l + ·)

/-- The level a text names, in any case, or `info` if it names none. -/
def parse (t : Text) : Level :=
  let t := t.trim
  if Text.lower (t.take 5) = ("trace" : Text) then
    let rest := t.drop 5
    if rest.isEmpty then trace
    else match Text.toInt64? rest with
      | some n => trace + n
      | none => info
  else (standard? t).getD info

end Level

/-- How records are written; `unknown` is a code that no format has. -/
inductive Format where
  | text | json
  | unknown (code : Int)
  deriving DecidableEq, Repr

namespace Format

def name : Format → String
  | text => "text"
  | json => "json"
  | unknown code => "Format(" ++ (if code < 0 then "-" else "") ++ code.natAbs.repr ++ ")"

def ofCode (n : Int) : Format := if n = 0 then text else if n = 1 then json else unknown n

def code : Format → Int
  | text => 0
  | json => 1
  | unknown n => n

/-- The format a text names, or `json` if it names none. -/
def parse (t : Text) : Format :=
  if Text.sameFold t.trim "text" then text else json

def all : List Format := [json, text]

end Format

end LoxLang.Log
