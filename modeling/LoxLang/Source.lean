import LoxLang.Token.Scan
import LoxLang.Parser.Statement
import LoxLang.Failure

namespace LoxLang

structure Source where
  text : Text
  tokens : List Token
  program : List (Stmt Mark)
  diagnostics : List Diagnostic
  /-- How many of the faults were found by scanning. -/
  lexical : Nat

namespace Source

def ofText (text : Text) : Source :=
  let scan := Scan.ofText text
  let parsed := Parsed.ofTokens scan.tokens
  { text
    tokens := scan.tokens
    program := parsed.statements
    diagnostics := scan.diagnostics ++ parsed.diagnostics
    lexical := scan.diagnostics.length }

def compileError? : List Diagnostic → Option Failure
  | [] => none
  | d :: ds =>
    some ((Failure.of .compile).attach
      [Log.nat "diagnostics" (ds.length + 1), Log.int "line" d.line])

def error? (s : Source) : Option Failure := compileError? s.diagnostics

def log (s : Source) : List Log.Record :=
  (s.diagnostics.take s.lexical).map Diagnostic.logRecord ++
    [⟨.trace, "scan",
      [Log.nat "source_bytes" s.text.length, Log.nat "tokens" s.tokens.length]⟩] ++
    (s.diagnostics.drop s.lexical).map Diagnostic.logRecord ++
    [⟨.trace, "parse",
      [Log.nat "statements" s.program.length, Log.nat "diagnostics" s.diagnostics.length]⟩]

end Source

/-- Whether a text is a name that a program can refer to: a single word that is not reserved. -/
def isIdentifier (name : Text) : Bool :=
  match (Scan.ofText name).tokens with
  | [t, _] => t.kind = .identifier && t.lexeme = name
  | _ => false

end LoxLang
