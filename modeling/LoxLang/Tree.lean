import LoxLang.Token

namespace LoxLang

/-- A name in the source that refers to a binding. -/
structure Reference (μ : Type) where
  name : Token
  mark : μ

/-- Expressions. A literal without value is `nil`. -/
inductive Expr (μ : Type) where
  | literal (value : Option Literal)
  | grouping (inner : Expr μ)
  | unary (operator : Token) (right : Expr μ)
  | binary (left : Expr μ) (operator : Token) (right : Expr μ)
  | logical (left : Expr μ) (operator : Token) (right : Expr μ)
  | var (ref : Reference μ)
  | assign (ref : Reference μ) (value : Expr μ)
  /-- The parenthesis that closes the arguments locates faults of the call. -/
  | call (callee : Expr μ) (paren : Token) (arguments : List (Expr μ))
  | get (object : Expr μ) (name : Token)
  | set (object : Expr μ) (name : Token) (value : Expr μ)
  | this (ref : Reference μ)
  | super (ref : Reference μ) (method : Token)

/-- A named function or method with a body of statements. -/
structure Routine (σ : Type) where
  name : Token
  params : List Token
  body : List σ

inductive Stmt (μ : Type) where
  | expression (e : Expr μ)
  | print (e : Expr μ)
  | varDecl (name : Token) (initializer : Option (Expr μ))
  | block (body : List (Stmt μ))
  | ifThen (condition : Expr μ) (yes : Stmt μ)
  | ifElse (condition : Expr μ) (yes no : Stmt μ)
  | loop (condition : Expr μ) (body : Stmt μ)
  | funDecl (routine : Routine (Stmt μ))
  | ret (keyword : Token) (value : Option (Expr μ))
  | classDecl (name : Token) (superclass : Option (Reference μ)) (methods : List (Routine (Stmt μ)))

end LoxLang
