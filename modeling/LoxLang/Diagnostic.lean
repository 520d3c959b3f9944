import LoxLang.Token

namespace LoxLang

inductive Stage where
  | scanning | parsing | resolving | running
  | unknown (code : Nat)
  deriving DecidableEq, Repr

namespace Stage

def name : Stage → String
  | scanning => "lexical"
  | parsing => "syntax"
  | resolving => "resolution"
  | running => "runtime"
  | unknown code => "Kind(" ++ code.repr ++ ")"

/-- Whether faults of this stage are found before the program runs. -/
def isStatic (s : Stage) : Bool := s != running

def ofCode : Nat → Stage
  | 0 => scanning
  | 1 => parsing
  | 2 => resolving
  | 3 => running
  | code => unknown code

end Stage

structure Diagnostic where
  stage : Stage
  line : Int
  /-- The place within the line, with the words that introduce it, or nothing. -/
  place : Text
  message : Text
  deriving DecidableEq, Repr

namespace Diagnostic

def atLine (stage : Stage) (line : Int) (message : Text) : Diagnostic := ⟨stage, line, [], message⟩

def placeOf (t : Token) : Text :=
  if t.kind = .eof then " at end" else " at '" ++ t.lexeme ++ "'"

def atToken (stage : Stage) (t : Token) (message : Text) : Diagnostic :=
  ⟨stage, t.line, placeOf t, message⟩

/-- The text shown to the user. Faults of a running program give the line last. -/
def text (d : Diagnostic) : Text :=
  let line : Text := "[line " ++ Text.ofInt d.line ++ "]"
  match d.stage with
  | .running => d.message ++ "\n" ++ line
  | _ => line ++ " Error" ++ d.place ++ ": " ++ d.message

end Diagnostic

end LoxLang
