import LoxLang.Parser.Expression

namespace LoxLang

namespace Parser

inductive Role where
  | function | method

def Role.word : Role → String
  | function => "function"
  | method => "method"

def optional (n : Nat) (stop : Token.Kind) : Parse (Option (Expr Mark)) := do
  if ← sees [stop] then return none else return some (← assignment n)

def expressionStatement (n : Nat) : Parse (Stmt Mark) := do
  let e ← assignment n
  let _ ← expect .semicolon "Expect ';' after expression."
  return .expression e

def varDeclaration (n : Nat) : Parse (Stmt Mark) := do
  let name ← expect .identifier "Expect variable name."
  let init ← match ← accept [.equal] with
    | some _ => some <$> assignment n
    | none => pure none
  let _ ← expect .semicolon "Expect ';' after variable declaration."
  return .varDecl name init

def printStatement (n : Nat) : Parse (Stmt Mark) := do
  let e ← assignment n
  let _ ← expect .semicolon "Expect ';' after value."
  return .print e

def returnStatement (n : Nat) (keyword : Token) : Parse (Stmt Mark) := do
  let value ← optional n .semicolon
  let _ ← expect .semicolon "Expect ';' after return value."
  return .ret keyword value

/-- A `for` loop in terms of `while`: the increment runs after the body, a missing condition is
true, and the initializer has a block of its own. -/
def forLoop (init : Option (Stmt Mark)) (condition increment : Option (Expr Mark))
    (body : Stmt Mark) : Stmt Mark :=
  let body := match increment with
    | some e => .block [body, .expression e]
    | none => body
  let loop := .loop (condition.getD (.literal (some (.bool true)))) body
  match init with
  | some s => .block [s, loop]
  | none => loop

/-- The parameters of a routine, of which `count` came before. -/
def parameters : Nat → Nat → Parse (List Token)
  | 0, _ => throw .exhausted
  | n + 1, count => do
    if maxArguments ≤ count then report (← peek) "Can't have more than 255 parameters."
    let param ← expect .identifier "Expect parameter name."
    match ← accept [.comma] with
    | some _ => return param :: (← parameters n (count + 1))
    | none => return [param]

mutual
def declaration : Nat → Parse (Option (Stmt Mark))
  | 0 => throw .exhausted
  | n + 1 =>
    tryCatch (some <$> declare n) fun
      | .rejected _ => do
        modify fun p => { p with cursor := p.cursor.synchronize }
        return none
      | .exhausted => throw .exhausted

def declare : Nat → Parse (Stmt Mark)
  | 0 => throw .exhausted
  | n + 1 => do
    match ← accept [.class_, .fun_, .var] with
    | some t =>
      if t.kind = .class_ then classDeclaration n
      else if t.kind = .fun_ then .funDecl <$> routine n .function
      else varDeclaration n
    | none => statement n

def classDeclaration : Nat → Parse (Stmt Mark)
  | 0 => throw .exhausted
  | n + 1 => do
    let name ← expect .identifier "Expect class name."
    let superclass ← match ← accept [.less] with
      | some _ => do
        let parent ← expect .identifier "Expect superclass name."
        some <$> refer parent
      | none => pure none
    let _ ← expect .leftBrace "Expect '\x7b' before class body."
    let methods ← methods n
    return .classDecl name superclass methods

def methods : Nat → Parse (List (Routine (Stmt Mark)))
  | 0 => throw .exhausted
  | n + 1 => do
    let t ← peek
    if t.kind = .rightBrace ∨ t.kind = .eof then
      let _ ← expect .rightBrace "Expect '\x7d' after class body."
      return []
    else
      let m ← routine n .method
      return m :: (← methods n)

def routine : Nat → Role → Parse (Routine (Stmt Mark))
  | 0, _ => throw .exhausted
  | n + 1, role => do
    let name ← expect .identifier ("Expect " ++ role.word ++ " name.")
    let _ ← expect .leftParen ("Expect '(' after " ++ role.word ++ " name.")
    let params ← if ← sees [.rightParen] then pure [] else parameters n 0
    let _ ← expect .rightParen "Expect ')' after parameters."
    let _ ← expect .leftBrace ("Expect '\x7b' before " ++ role.word ++ " body.")
    let body ← block n
    return ⟨name, params, body⟩

def block : Nat → Parse (List (Stmt Mark))
  | 0 => throw .exhausted
  | n + 1 => do
    let t ← peek
    if t.kind = .rightBrace ∨ t.kind = .eof then
      let _ ← expect .rightBrace "Expect '\x7d' after block."
      return []
    else
      match ← declaration n with
      | some s => return s :: (← block n)
      | none => block n

def statement : Nat → Parse (Stmt Mark)
  | 0 => throw .exhausted
  | n + 1 => do
    match ← accept [.for_, .if_, .print, .return_, .while_, .leftBrace] with
    | none => expressionStatement n
    | some t =>
      match t.kind with
      | .for_ => forStatement n
      | .if_ => ifStatement n
      | .print => printStatement n
      | .return_ => returnStatement n t
      | .while_ => whileStatement n
      | _ => .block <$> block n

def forStatement : Nat → Parse (Stmt Mark)
  | 0 => throw .exhausted
  | n + 1 => do
    let _ ← expect .leftParen "Expect '(' after 'for'."
    let init ← match ← accept [.semicolon, .var] with
      | none => some <$> expressionStatement n
      | some t => if t.kind = .var then some <$> varDeclaration n else pure none
    let condition ← optional n .semicolon
    let _ ← expect .semicolon "Expect ';' after loop condition."
    let increment ← optional n .rightParen
    let _ ← expect .rightParen "Expect ')' after for clauses."
    let body ← statement n
    return forLoop init condition increment body

def ifStatement : Nat → Parse (Stmt Mark)
  | 0 => throw .exhausted
  | n + 1 => do
    let _ ← expect .leftParen "Expect '(' after 'if'."
    let condition ← assignment n
    let _ ← expect .rightParen "Expect ')' after if condition."
    let yes ← statement n
    match ← accept [.else_] with
    | some _ => return .ifElse condition yes (← statement n)
    | none => return .ifThen condition yes

def whileStatement : Nat → Parse (Stmt Mark)
  | 0 => throw .exhausted
  | n + 1 => do
    let _ ← expect .leftParen "Expect '(' after 'while'."
    let condition ← assignment n
    let _ ← expect .rightParen "Expect ')' after condition."
    let body ← statement n
    return .loop condition body
end

def program : Nat → Parse (List (Stmt Mark))
  | 0 => throw .exhausted
  | n + 1 => do
    let t ← peek
    if t.kind = .eof then return []
    else
      match ← declaration n with
      | some s => return s :: (← program n)
      | none => program n

end Parser

structure Parsed where
  statements : List (Stmt Mark)
  diagnostics : List Diagnostic

def Parsed.ofTokens (tokens : List Token) : Parsed :=
  match (Parser.program (Parser.steps tokens)).run (Parser.start tokens) with
  | .ok statements p => ⟨statements, p.diagnostics⟩
  | .error _ p => ⟨[], p.diagnostics⟩

end LoxLang
