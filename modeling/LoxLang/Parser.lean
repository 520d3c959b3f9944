import LoxLang.Diagnostic
import LoxLang.Tree

namespace LoxLang

/-- Numbers the places of a tree that refer to a binding. -/
abbrev Mark := Nat

structure SyntaxError where
  token : Token
  message : Text
  deriving DecidableEq

namespace SyntaxError

def diagnostic (e : SyntaxError) : Diagnostic := .atToken .parsing e.token e.message

def text (e : SyntaxError) : Text := e.diagnostic.text

end SyntaxError

structure Cursor where
  previous : Token
  current : Token
  rest : List Token

namespace Cursor

def atEnd (c : Cursor) : Bool := c.current.kind = .eof

/-- Moves to the next token, unless this is the end of input. -/
def advance (c : Cursor) : Cursor :=
  if c.atEnd then c
  else match c.rest with
    | [] => c
    | t :: rest => ⟨c.current, t, rest⟩

/-- The first place, from these tokens on, where parsing can resume after a fault: the end of
input, just past a semicolon, or before a token that begins a declaration. -/
def boundary (previous current : Token) : List Token → Cursor
  | [] => ⟨previous, current, []⟩
  | t :: rest =>
    if current.kind = .eof ∨ previous.kind = .semicolon ∨ current.kind.startsDeclaration then
      ⟨previous, current, t :: rest⟩
    else boundary current t rest

/-- Gives up on a token and moves on to the next boundary. -/
def synchronize (c : Cursor) : Cursor :=
  let next := c.advance
  boundary next.previous next.current next.rest

end Cursor

structure Parser where
  cursor : Cursor
  diagnostics : List Diagnostic
  fresh : Mark

namespace Parser

inductive Stop where
  | rejected (error : SyntaxError)
  | exhausted

end Parser

abbrev Parse := EStateM Parser.Stop Parser

namespace Parser

def peek : Parse Token := do return (← get).cursor.current

def advance : Parse Unit := modify fun p => { p with cursor := p.cursor.advance }

def report (t : Token) (message : Text) : Parse Unit :=
  modify fun p => { p with diagnostics := p.diagnostics ++ [.atToken .parsing t message] }

def reject {α : Type} (t : Token) (message : Text) : Parse α := do
  report t message
  throw (.rejected ⟨t, message⟩)

/-- Whether the parser stands on a token of one of these kinds, the end of input never being one. -/
def sees (kinds : List Token.Kind) : Parse Bool := do
  let t ← peek
  return t.kind != .eof && kinds.contains t.kind

def accept (kinds : List Token.Kind) : Parse (Option Token) := do
  if ← sees kinds then
    let t ← peek
    advance
    return some t
  else return none

def expect (kind : Token.Kind) (message : Text) : Parse Token := do
  match ← accept [kind] with
  | some t => return t
  | none => reject (← peek) message

def refer (name : Token) : Parse (Reference Mark) := do
  let p ← get
  set { p with fresh := p.fresh + 1 }
  return ⟨name, p.fresh⟩

/-- Closes a list of tokens with an end of input on its last line, if it has none. -/
def close (tokens : List Token) : List Token :=
  match tokens.getLast? with
  | none => [⟨.eof, [], none, 1⟩]
  | some t => if t.kind = .eof then tokens else tokens ++ [⟨.eof, [], none, t.line⟩]

def start (tokens : List Token) : Parser :=
  let cursor : Cursor := match close tokens with
    | [] => ⟨.synthetic .eof [], .synthetic .eof [], []⟩
    | t :: rest => ⟨t, t, rest⟩
  { cursor, diagnostics := [], fresh := 0 }

def steps (tokens : List Token) : Nat := 24 * (tokens.length + 2)

end Parser

end LoxLang
