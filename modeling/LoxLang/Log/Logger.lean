import LoxLang.Log.Pretty

namespace LoxLang.Log

def Settings.enables (s : Settings) (l : Level) : Bool :=
  match s.format with
  | .unknown _ => false
  | _ => s.minimum ≤ l

/-- Writes a record that is scoped to groups and attributes, whatever its level. -/
def Settings.write (s : Settings) (scopes : List Line.Scope) (time : Option Moment) (r : Record) :
    Text :=
  match s.format with
  | .unknown _ => []
  | _ =>
    if s.pretty then (scopes.foldl Pretty.Writer.scope (.new s)).line time r
    else (scopes.foldl Line.Writer.scope (.new s)).line time r

inductive Logger where
  | silent
  | active (settings : Settings) (scopes : List Line.Scope)

namespace Logger

def level : Logger → Level
  | silent => .info
  | active s _ => s.minimum

def format : Logger → Format
  | silent => .json
  | active s _ => s.format

def withAttrs (l : Logger) (as : List Attr) : Logger :=
  match l with
  | silent => silent
  | active s scopes => active s (scopes ++ [.attrs as])

def wrap (settings : Settings) (_ : Logger) : Logger := active settings []

def emit (l : Logger) (time : Option Moment) (r : Record) : Text :=
  match l with
  | silent => []
  | active s scopes => if s.enables r.level then s.write scopes time r else []

/-- A logger of everything as plain pairs without timestamps. -/
def tracer : Logger := active ⟨.trace, .text, none, false, false⟩ []

end Logger

end LoxLang.Log
