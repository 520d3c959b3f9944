import LoxLang.Tree
import LoxLang.Text.Quoted

namespace LoxLang

def Literal.text : Option Literal → Text
  | none => "nil"
  | some (.bool true) => "true"
  | some (.bool false) => "false"
  | some (.number x) => Layout.literal.write x
  | some (.string s) => Quoted.encode s

def form (head : Text) (parts : List Text) : Text :=
  [byte '('] ++ head ++ parts.flatMap (byte ' ' :: ·) ++ [byte ')']

namespace Expr

variable {μ : Type}

mutual
def text : Expr μ → Text
  | literal v => Literal.text v
  | grouping e => form "group" [e.text]
  | unary op r => form op.lexeme [r.text]
  | binary l op r | logical l op r => form op.lexeme [l.text, r.text]
  | var ref => ref.name.lexeme
  | assign ref v => form "=" [ref.name.lexeme, v.text]
  | call f _ args => form "call" (f.text :: texts args)
  | get o name => form "." [o.text, name.lexeme]
  | set o name v => form "=" [form "." [o.text, name.lexeme], v.text]
  | this _ => "this"
  | super _ method => form "super" [method.lexeme]

def texts : List (Expr μ) → List Text
  | [] => []
  | e :: es => e.text :: texts es
end

end Expr

namespace Stmt

variable {μ : Type}

mutual
def text : Stmt μ → Text
  | expression e => form ";" [e.text]
  | print e => form "print" [e.text]
  | varDecl name init => form "var" (name.lexeme :: (init.map Expr.text).toList)
  | block body => form "block" (texts body)
  | ifThen c s => form "if" [c.text, s.text]
  | ifElse c s t => form "if" [c.text, s.text, t.text]
  | loop c s => form "while" [c.text, s.text]
  | funDecl f => routineText f
  | ret _ v => form "return" (v.map Expr.text).toList
  | classDecl name sup methods =>
    let parent := match sup with
      | some ref => ["<", ref.name.lexeme]
      | none => []
    form "class" (name.lexeme :: parent ++ routineTexts methods)

def texts : List (Stmt μ) → List Text
  | [] => []
  | s :: ss => s.text :: texts ss

def routineText : Routine (Stmt μ) → Text
  | ⟨name, params, body⟩ =>
    let list : Text := "(" ++ Text.join " " (params.map Token.lexeme) ++ ")"
    form "fun" (name.lexeme :: list :: texts body)

def routineTexts : List (Routine (Stmt μ)) → List Text
  | [] => []
  | f :: fs => routineText f :: routineTexts fs
end

def programText (program : List (Stmt μ)) : Text :=
  program.flatMap fun s => s.text ++ [Text.newline]

end Stmt

end LoxLang
