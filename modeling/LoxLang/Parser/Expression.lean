import LoxLang.Parser

namespace LoxLang

namespace Parser

/-- The levels of binary operators, loosest first. -/
inductive Level where
  | or | and | equality | comparison | term | factor
  deriving DecidableEq, Repr

namespace Level

def operators : Level → List Token.Kind
  | or => [.or]
  | and => [.and]
  | equality => [.bangEqual, .equalEqual]
  | comparison => [.greater, .greaterEqual, .less, .lessEqual]
  | term => [.minus, .plus]
  | factor => [.slash, .star]

/-- The level of the operands, `none` being that of unary operators. -/
def tighter : Level → Option Level
  | or => some and
  | and => some equality
  | equality => some comparison
  | comparison => some term
  | term => some factor
  | factor => none

/-- Joins two operands. The logical operators do not always evaluate the second. -/
def join (level : Level) (left : Expr Mark) (operator : Token) (right : Expr Mark) : Expr Mark :=
  match level with
  | or | and => .logical left operator right
  | _ => .binary left operator right

end Level

def maxArguments : Nat := 255

mutual
/-- An assignment or a looser expression. The left side is parsed as an expression and taken for a
target when an `=` follows. -/
def assignment : Nat → Parse (Expr Mark)
  | 0 => throw .exhausted
  | n + 1 => do
    let target ← climb n .or
    match ← accept [.equal] with
    | none => return target
    | some equals =>
      let value ← assignment n
      match target with
      | .var ref => return .assign ref value
      | .get object name => return .set object name value
      | _ =>
        report equals "Invalid assignment target."
        return target

def climb : Nat → Level → Parse (Expr Mark)
  | 0, _ => throw .exhausted
  | n + 1, level => do
    let left ← operand n level
    chain n level left

def operand : Nat → Level → Parse (Expr Mark)
  | 0, _ => throw .exhausted
  | n + 1, level =>
    match level.tighter with
    | some next => climb n next
    | none => unary n

def chain : Nat → Level → Expr Mark → Parse (Expr Mark)
  | 0, _, _ => throw .exhausted
  | n + 1, level, left => do
    match ← accept level.operators with
    | none => return left
    | some operator =>
      let right ← operand n level
      chain n level (level.join left operator right)

def unary : Nat → Parse (Expr Mark)
  | 0 => throw .exhausted
  | n + 1 => do
    match ← accept [.bang, .minus] with
    | some operator => return .unary operator (← unary n)
    | none =>
      let callee ← primary n
      suffixes n callee

def suffixes : Nat → Expr Mark → Parse (Expr Mark)
  | 0, _ => throw .exhausted
  | n + 1, e => do
    match ← accept [.leftParen, .dot] with
    | none => return e
    | some t =>
      if t.kind = .leftParen then
        let args ← if ← sees [.rightParen] then pure [] else arguments n 0
        let paren ← expect .rightParen "Expect ')' after arguments."
        suffixes n (.call e paren args)
      else
        let name ← expect .identifier "Expect property name after '.'."
        suffixes n (.get e name)

/-- The arguments of a call, of which `count` came before. -/
def arguments : Nat → Nat → Parse (List (Expr Mark))
  | 0, _ => throw .exhausted
  | n + 1, count => do
    if maxArguments ≤ count then report (← peek) "Can't have more than 255 arguments."
    let arg ← assignment n
    match ← accept [.comma] with
    | some _ => return arg :: (← arguments n (count + 1))
    | none => return [arg]

def primary : Nat → Parse (Expr Mark)
  | 0 => throw .exhausted
  | n + 1 => do
    let t ← peek
    match t.kind with
    | .false_ => advance; return .literal (some (.bool false))
    | .true_ => advance; return .literal (some (.bool true))
    | .nil => advance; return .literal none
    | .number | .string => advance; return .literal t.literal
    | .this => advance; return .this (← refer t)
    | .identifier => advance; return .var (← refer t)
    | .super =>
      advance
      let _ ← expect .dot "Expect '.' after 'super'."
      let method ← expect .identifier "Expect superclass method name."
      return .super (← refer t) method
    | .leftParen =>
      advance
      let e ← assignment n
      let _ ← expect .rightParen "Expect ')' after expression."
      return .grouping e
    | _ => reject t "Expect expression."
end

end Parser

/-- Parses a single expression and nothing after it. -/
def Expr.ofTokens (tokens : List Token) : Except SyntaxError (Expr Mark) × List Diagnostic :=
  let whole : Parse (Expr Mark) := do
    let e ← Parser.assignment (Parser.steps tokens)
    let t ← Parser.peek
    if t.kind = .eof then return e else Parser.reject t "Expect end of expression."
  match whole.run (Parser.start tokens) with
  | .ok e p => (.ok e, p.diagnostics)
  | .error (.rejected err) p => (.error err, p.diagnostics)
  | .error .exhausted p => (.error ⟨p.cursor.current, "Expect expression."⟩, p.diagnostics)

end LoxLang
