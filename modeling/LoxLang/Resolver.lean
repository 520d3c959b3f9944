import LoxLang.Dict
import LoxLang.Diagnostic
import LoxLang.Parser

namespace LoxLang

/-- How many frames lie between a reference and its binding, or nothing if the binding is global. -/
abbrev Distance := Option Nat

abbrev Scope := Dict Bool

namespace Resolver

/-- What kind of routine encloses a statement. -/
inductive Body where
  | none | function | method | initializer
  deriving DecidableEq, Repr

/-- What kind of class encloses an expression. -/
inductive Home where
  | none | plain | derived
  deriving DecidableEq, Repr

structure Binding where
  node : Expr Mark
  distance : Nat

def Binding.reference? (b : Binding) : Option (Reference Mark) :=
  match b.node with
  | .var ref | .assign ref _ | .this ref | .super ref _ => some ref
  | _ => none

end Resolver

/-- The state of resolving. The innermost scope comes first; the global scope is not listed. -/
structure Resolver where
  scopes : List Scope
  body : Resolver.Body
  home : Resolver.Home
  diagnostics : List Diagnostic
  bindings : List Resolver.Binding

abbrev Resolve := StateM Resolver

namespace Resolver

def report (t : Token) (message : Text) : Resolve Unit :=
  modify fun r => { r with diagnostics := r.diagnostics ++ [.atToken .resolving t message] }

def begin : Resolve Unit := modify fun r => { r with scopes := [] :: r.scopes }

def finish : Resolve Unit := modify fun r => { r with scopes := r.scopes.tail }

/-- Sets a name in the innermost scope; global names are not kept. -/
def mark (name : Text) (ready : Bool) : Resolve Unit :=
  modify fun r =>
    match r.scopes with
    | [] => r
    | s :: rest => { r with scopes := Dict.set name ready s :: rest }

def declare (name : Token) : Resolve Unit := do
  let r ← get
  if Dict.has (r.scopes.head?.getD []) name.lexeme then
    report name "Already a variable with this name in this scope."
  mark name.lexeme false

def define (name : Token) : Resolve Unit := mark name.lexeme true

def distance (scopes : List Scope) (name : Text) : Distance :=
  scopes.findIdx? (Dict.has · name)

def bind (node : Expr Mark) (ref : Reference Mark) : Resolve (Reference Distance) := do
  let d := distance (← get).scopes ref.name.lexeme
  match d with
  | some n => modify fun r => { r with bindings := r.bindings ++ [Binding.mk node n] }
  | none => pure ()
  return ⟨ref.name, d⟩

/-- A read of a variable, which must not be in the variable's own initializer. -/
def read (ref : Reference Mark) : Resolve (Reference Distance) := do
  let r ← get
  if Dict.get? (r.scopes.head?.getD []) ref.name.lexeme = some false then
    report ref.name "Can't read local variable in its own initializer."
  bind (.var ref) ref

def this (ref : Reference Mark) : Resolve (Reference Distance) := do
  match (← get).home with
  | .none =>
    report ref.name "Can't use 'this' outside of a class."
    return ⟨ref.name, none⟩
  | _ => bind (.this ref) ref

def super (ref : Reference Mark) (method : Token) : Resolve (Reference Distance) := do
  match (← get).home with
  | .none =>
    report ref.name "Can't use 'super' outside of a class."
    return ⟨ref.name, none⟩
  | .plain =>
    report ref.name "Can't use 'super' in a class with no superclass."
    return ⟨ref.name, none⟩
  | .derived => bind (.super ref method) ref

mutual
def expr : Expr Mark → Resolve (Expr Distance)
  | .literal v => return .literal v
  | .grouping e => return .grouping (← expr e)
  | .unary op r => return .unary op (← expr r)
  | .binary l op r => do
    let l ← expr l
    return .binary l op (← expr r)
  | .logical l op r => do
    let l ← expr l
    return .logical l op (← expr r)
  | .var ref => return .var (← read ref)
  | .assign ref v => do
    let v' ← expr v
    return .assign (← bind (.assign ref v) ref) v'
  | .call f paren args => do
    let f ← expr f
    return .call f paren (← exprs args)
  | .get o name => return .get (← expr o) name
  | .set o name v => do
    let v ← expr v
    return .set (← expr o) name v
  | .this ref => return .this (← this ref)
  | .super ref method => return .super (← super ref method) method

def exprs : List (Expr Mark) → Resolve (List (Expr Distance))
  | [] => return []
  | e :: es => do
    let e ← expr e
    return e :: (← exprs es)
end

def expr? : Option (Expr Mark) → Resolve (Option (Expr Distance))
  | none => return none
  | some e => return some (← expr e)

def params : List Token → Resolve Unit
  | [] => return ()
  | p :: ps => do
    declare p
    define p
    params ps

def checkReturn (keyword : Token) (value : Option (Expr Mark)) : Resolve Unit := do
  let body := (← get).body
  if body = .none then report keyword "Can't return from top-level code."
  if value.isSome ∧ body = .initializer then
    report keyword "Can't return a value from an initializer."

def superclass (name : Token) : Option (Reference Mark) → Resolve (Option (Reference Distance))
  | none => return none
  | some ref => do
    if ref.name.lexeme = name.lexeme then report ref.name "A class can't inherit from itself."
    modify fun r => { r with home := .derived }
    let ref ← read ref
    begin
    mark "super" true
    return some ref

def methodBody (name : Token) : Body :=
  if name.lexeme = ("init" : Text) then .initializer else .method

mutual
def stmt : Stmt Mark → Resolve (Stmt Distance)
  | .expression e => return .expression (← expr e)
  | .print e => return .print (← expr e)
  | .varDecl name init => do
    declare name
    let init ← expr? init
    define name
    return .varDecl name init
  | .block body => do
    begin
    let body ← stmts body
    finish
    return .block body
  | .ifThen c s => do
    let c ← expr c
    return .ifThen c (← stmt s)
  | .ifElse c s t => do
    let c ← expr c
    let s ← stmt s
    return .ifElse c s (← stmt t)
  | .loop c s => do
    let c ← expr c
    return .loop c (← stmt s)
  | .funDecl f => do
    declare f.name
    define f.name
    return .funDecl (← routine .function f)
  | .ret keyword value => do
    checkReturn keyword value
    return .ret keyword (← expr? value)
  | .classDecl name sup methods => do
    let home := (← get).home
    modify fun r => { r with home := .plain }
    declare name
    define name
    let sup ← superclass name sup
    begin
    mark "this" true
    let methods ← routines methods
    finish
    if sup.isSome then finish
    modify fun r => { r with home }
    return .classDecl name sup methods

def stmts : List (Stmt Mark) → Resolve (List (Stmt Distance))
  | [] => return []
  | s :: ss => do
    let s ← stmt s
    return s :: (← stmts ss)

/-- Resolves a routine; its parameters and its body are one scope. -/
def routine (kind : Body) : Routine (Stmt Mark) → Resolve (Routine (Stmt Distance))
  | ⟨name, ps, body⟩ => do
    let outer := (← get).body
    modify fun r => { r with body := kind }
    begin
    params ps
    let body ← stmts body
    finish
    modify fun r => { r with body := outer }
    return ⟨name, ps, body⟩

def routines : List (Routine (Stmt Mark)) → Resolve (List (Routine (Stmt Distance)))
  | [] => return []
  | f :: fs => do
    let f ← routine (methodBody f.name) f
    return f :: (← routines fs)
end

/-- The state before the first statement. -/
def initial : Resolver := ⟨[], .none, .none, [], []⟩

end Resolver

/-- A resolved tree, the faults found in it, and the distances in the order they were recorded. -/
structure Resolved (α : Type) where
  tree : α
  diagnostics : List Diagnostic
  bindings : List Resolver.Binding

namespace Resolved

def run {α : Type} (step : Resolve α) : Resolved α :=
  let (tree, r) := step.run Resolver.initial
  ⟨tree, r.diagnostics, r.bindings⟩

def ofProgram (program : List (Stmt Mark)) : Resolved (List (Stmt Distance)) :=
  run (Resolver.stmts program)

def ofExpr (e : Expr Mark) : Resolved (Expr Distance) := run (Resolver.expr e)

end Resolved

end LoxLang
