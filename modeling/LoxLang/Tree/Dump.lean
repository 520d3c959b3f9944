import LoxLang.Datum
import LoxLang.Tree

namespace LoxLang

namespace Datum

def ofLiteral : Option Literal → Datum
  | none => null
  | some (.bool b) => bool b
  | some (.number x) => number x
  | some (.string t) => text t

def node (variant : String) (fields : List (Text × Datum)) : Datum :=
  record (("node", str variant) :: fields)

end Datum

namespace Expr

variable {μ : Type}

mutual
def dump : Expr μ → Datum
  | literal v => .node "literal" [("value", .ofLiteral v)]
  | grouping e => .node "grouping" [("expression", e.dump)]
  | unary op r => .node "unary" [("operator", .text op.lexeme), ("right", r.dump)]
  | binary l op r =>
    .node "binary" [("operator", .text op.lexeme), ("left", l.dump), ("right", r.dump)]
  | logical l op r =>
    .node "logical" [("operator", .text op.lexeme), ("left", l.dump), ("right", r.dump)]
  | var ref => .node "variable" [("name", .text ref.name.lexeme)]
  | assign ref v => .node "assign" [("name", .text ref.name.lexeme), ("value", v.dump)]
  | call f _ args => .node "call" [("callee", f.dump), ("arguments", .list (dumps args))]
  | get o name => .node "get" [("object", o.dump), ("name", .text name.lexeme)]
  | set o name v =>
    .node "set" [("object", o.dump), ("name", .text name.lexeme), ("value", v.dump)]
  | this _ => .node "this" []
  | super _ method => .node "super" [("method", .text method.lexeme)]

def dumps : List (Expr μ) → List Datum
  | [] => []
  | e :: es => e.dump :: dumps es
end

def dump? : Option (Expr μ) → Datum
  | none => .null
  | some e => e.dump

end Expr

namespace Stmt

variable {μ : Type}

mutual
def dump : Stmt μ → Datum
  | expression e => .node "expression" [("expression", e.dump)]
  | print e => .node "print" [("expression", e.dump)]
  | varDecl name init => .node "var" [("name", .text name.lexeme), ("initializer", Expr.dump? init)]
  | block body => .node "block" [("statements", .list (dumps body))]
  | ifThen c s => .node "if" [("condition", c.dump), ("then", s.dump), ("else", .null)]
  | ifElse c s t => .node "if" [("condition", c.dump), ("then", s.dump), ("else", t.dump)]
  | loop c s => .node "while" [("condition", c.dump), ("body", s.dump)]
  | funDecl f => routineDump f
  | ret _ v => .node "return" [("value", Expr.dump? v)]
  | classDecl name sup methods =>
    .node "class"
      [("name", .text name.lexeme),
        ("superclass", match sup with | some ref => .text ref.name.lexeme | none => .null),
        ("methods", .list (routineDumps methods))]

def dumps : List (Stmt μ) → List Datum
  | [] => []
  | s :: ss => s.dump :: dumps ss

def routineDump : Routine (Stmt μ) → Datum
  | ⟨name, params, body⟩ =>
    .node "function"
      [("name", .text name.lexeme), ("params", .list (params.map fun p => .text p.lexeme)),
        ("body", .list (dumps body))]

def routineDumps : List (Routine (Stmt μ)) → List Datum
  | [] => []
  | f :: fs => routineDump f :: routineDumps fs
end

def programDump (program : List (Stmt μ)) : Datum := .list (dumps program)

end Stmt

end LoxLang
