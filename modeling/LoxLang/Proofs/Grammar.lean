import LoxLang.Proofs.Tree.Map

namespace LoxLang

namespace Grammar
set_option autoImplicit true

/-- The nonterminals of expressions, lowest precedence first. -/
inductive Rank where
  | assignment | logicOr | logicAnd | equality | comparison | term | factor | unary | call | primary
  deriving DecidableEq

/-- The most parameters or arguments that a list may have. -/
def limit : Nat := 255

mutual
/-- The tokens form an expression of this rank, whose tree is the given one. An operator's left
operand has the operator's own rank and its right operand a higher one, so operators of one rank
associate to the left; the value of an assignment is again an assignment. -/
inductive Derives : Rank → List Token → Expr Unit → Prop where
  | assignName : x.kind = .identifier → equals.kind = .equal → Derives .assignment ts v →
      Derives .assignment (x :: equals :: ts) (.assign ⟨x, ()⟩ v)
  | assignField : Derives .call os o → dot.kind = .dot → x.kind = .identifier →
      equals.kind = .equal → Derives .assignment ts v →
      Derives .assignment (os ++ dot :: x :: equals :: ts) (.set o x v)
  | noAssignment : Derives .logicOr ts e → Derives .assignment ts e
  | or : Derives .logicOr ls l → op.kind = .or → Derives .logicAnd rs r →
      Derives .logicOr (ls ++ op :: rs) (.logical l op r)
  | noOr : Derives .logicAnd ts e → Derives .logicOr ts e
  | and : Derives .logicAnd ls l → op.kind = .and → Derives .equality rs r →
      Derives .logicAnd (ls ++ op :: rs) (.logical l op r)
  | noAnd : Derives .equality ts e → Derives .logicAnd ts e
  | equality : Derives .equality ls l → op.kind = .bangEqual ∨ op.kind = .equalEqual →
      Derives .comparison rs r → Derives .equality (ls ++ op :: rs) (.binary l op r)
  | noEquality : Derives .comparison ts e → Derives .equality ts e
  | comparison : Derives .comparison ls l →
      op.kind = .greater ∨ op.kind = .greaterEqual ∨ op.kind = .less ∨ op.kind = .lessEqual →
      Derives .term rs r → Derives .comparison (ls ++ op :: rs) (.binary l op r)
  | noComparison : Derives .term ts e → Derives .comparison ts e
  | term : Derives .term ls l → op.kind = .minus ∨ op.kind = .plus → Derives .factor rs r →
      Derives .term (ls ++ op :: rs) (.binary l op r)
  | noTerm : Derives .factor ts e → Derives .term ts e
  | factor : Derives .factor ls l → op.kind = .slash ∨ op.kind = .star → Derives .unary rs r →
      Derives .factor (ls ++ op :: rs) (.binary l op r)
  | noFactor : Derives .unary ts e → Derives .factor ts e
  | unary : op.kind = .bang ∨ op.kind = .minus → Derives .unary ts e →
      Derives .unary (op :: ts) (.unary op e)
  | noUnary : Derives .call ts e → Derives .unary ts e
  | call : Derives .call fs f → lpar.kind = .leftParen → Arguments ts args → args.length ≤ limit →
      rpar.kind = .rightParen → Derives .call (fs ++ lpar :: (ts ++ [rpar])) (.call f rpar args)
  | property : Derives .call os o → dot.kind = .dot → x.kind = .identifier →
      Derives .call (os ++ [dot, x]) (.get o x)
  | noCall : Derives .primary ts e → Derives .call ts e
  | false_ : t.kind = .false_ → Derives .primary [t] (.literal (some (.bool false)))
  | true_ : t.kind = .true_ → Derives .primary [t] (.literal (some (.bool true)))
  | nil : t.kind = .nil → Derives .primary [t] (.literal none)
  | constant : t.kind = .number ∨ t.kind = .string → Derives .primary [t] (.literal t.literal)
  | this : t.kind = .this → Derives .primary [t] (.this ⟨t, ()⟩)
  | name : t.kind = .identifier → Derives .primary [t] (.var ⟨t, ()⟩)
  | super : t.kind = .super → dot.kind = .dot → x.kind = .identifier →
      Derives .primary [t, dot, x] (.super ⟨t, ()⟩ x)
  | grouping : lpar.kind = .leftParen → Derives .assignment ts e → rpar.kind = .rightParen →
      Derives .primary (lpar :: (ts ++ [rpar])) (.grouping e)

inductive Arguments : List Token → List (Expr Unit) → Prop where
  | none : Arguments [] []
  | some : Items ts es → Arguments ts es

inductive Items : List Token → List (Expr Unit) → Prop where
  | one : Derives .assignment ts e → Items ts [e]
  | more : Derives .assignment ts e → comma.kind = .comma → Items us es →
      Items (ts ++ comma :: us) (e :: es)
end

inductive Optional : List Token → Option (Expr Unit) → Prop where
  | none : Optional [] none
  | some : Derives .assignment ts e → Optional ts (some e)

inductive Variable : List Token → Stmt Unit → Prop where
  | plain : x.kind = .identifier → semi.kind = .semicolon → Variable [x, semi] (.varDecl x none)
  | initialized : x.kind = .identifier → equals.kind = .equal → Derives .assignment ts e →
      semi.kind = .semicolon → Variable (x :: equals :: (ts ++ [semi])) (.varDecl x (some e))

inductive Effect : List Token → Stmt Unit → Prop where
  | mk : Derives .assignment ts e → semi.kind = .semicolon → Effect (ts ++ [semi]) (.expression e)

/-- The first clause of a `for`, through its semicolon. -/
inductive Initial : List Token → Option (Stmt Unit) → Prop where
  | none : semi.kind = .semicolon → Initial [semi] none
  | var : var.kind = .var → Variable ts s → Initial (var :: ts) (some s)
  | effect : Effect ts s → Initial ts (some s)

inductive Names : List Token → List Token → Prop where
  | one : x.kind = .identifier → Names [x] [x]
  | more : x.kind = .identifier → comma.kind = .comma → Names ts xs →
      Names (x :: comma :: ts) (x :: xs)

inductive Parameters : List Token → List Token → Prop where
  | none : Parameters [] []
  | some : Names ts xs → Parameters ts xs

inductive Parent : List Token → Option (Reference Unit) → Prop where
  | none : Parent [] none
  | some : less.kind = .less → x.kind = .identifier → Parent [less, x] (some ⟨x, ()⟩)

/-- A loop whose clauses are all there: the step runs after the body. -/
def stepped (body : Stmt Unit) : Option (Expr Unit) → Stmt Unit
  | none => body
  | some step => .block [body, .expression step]

/-- A `for` loop as a `while` loop: a condition left out is true, and the first clause opens a
block around the loop. -/
def loop (init : Option (Stmt Unit)) (condition step : Option (Expr Unit)) (body : Stmt Unit) :
    Stmt Unit :=
  let repeated := .loop (condition.getD (.literal (some (.bool true)))) (stepped body step)
  match init with
  | none => repeated
  | some s => .block [s, repeated]

mutual
/-- The tokens form a statement. The flag tells whether it ends in an `if` without an `else`; such a
statement cannot stand before an `else`, which so belongs to the nearest `if`. -/
inductive Statement : Bool → List Token → Stmt Unit → Prop where
  | effect : Effect ts s → Statement false ts s
  | print : word.kind = .print → Derives .assignment ts e → semi.kind = .semicolon →
      Statement false (word :: (ts ++ [semi])) (.print e)
  | ret : word.kind = .return_ → Optional ts value → semi.kind = .semicolon →
      Statement false (word :: (ts ++ [semi])) (.ret word value)
  | block : lb.kind = .leftBrace → Declarations ts body → rb.kind = .rightBrace →
      Statement false (lb :: (ts ++ [rb])) (.block body)
  | ifThen : word.kind = .if_ → lpar.kind = .leftParen → Derives .assignment cs c →
      rpar.kind = .rightParen → Statement hanging ts s →
      Statement true (word :: lpar :: (cs ++ rpar :: ts)) (.ifThen c s)
  | ifElse : word.kind = .if_ → lpar.kind = .leftParen → Derives .assignment cs c →
      rpar.kind = .rightParen → Statement false ts s → other.kind = .else_ →
      Statement hanging us t →
      Statement hanging (word :: lpar :: (cs ++ rpar :: (ts ++ other :: us))) (.ifElse c s t)
  | while_ : word.kind = .while_ → lpar.kind = .leftParen → Derives .assignment cs c →
      rpar.kind = .rightParen → Statement hanging ts s →
      Statement hanging (word :: lpar :: (cs ++ rpar :: ts)) (.loop c s)
  | for_ : word.kind = .for_ → lpar.kind = .leftParen → Initial is init → Optional cs condition →
      semi.kind = .semicolon → Optional xs step → rpar.kind = .rightParen →
      Statement hanging ts body →
      Statement hanging (word :: lpar :: (is ++ (cs ++ semi :: (xs ++ rpar :: ts))))
        (loop init condition step body)

inductive Declaration : List Token → Stmt Unit → Prop where
  | class_ : word.kind = .class_ → x.kind = .identifier → Parent ps sup → lb.kind = .leftBrace →
      Methods ts methods → rb.kind = .rightBrace →
      Declaration (word :: x :: (ps ++ lb :: (ts ++ [rb]))) (.classDecl x sup methods)
  | fun_ : word.kind = .fun_ → Callable ts f → Declaration (word :: ts) (.funDecl f)
  | var : word.kind = .var → Variable ts s → Declaration (word :: ts) s
  | statement : Statement hanging ts s → Declaration ts s

inductive Declarations : List Token → List (Stmt Unit) → Prop where
  | nil : Declarations [] []
  | cons : Declaration ts s → Declarations us ss → Declarations (ts ++ us) (s :: ss)

inductive Callable : List Token → Routine (Stmt Unit) → Prop where
  | mk : x.kind = .identifier → lpar.kind = .leftParen → Parameters ps params →
      params.length ≤ limit → rpar.kind = .rightParen → lb.kind = .leftBrace →
      Declarations ts body → rb.kind = .rightBrace →
      Callable (x :: lpar :: (ps ++ rpar :: lb :: (ts ++ [rb]))) ⟨x, params, body⟩

inductive Methods : List Token → List (Routine (Stmt Unit)) → Prop where
  | none : Methods [] []
  | more : Callable ts f → Methods us fs → Methods (ts ++ us) (f :: fs)
end

end Grammar

end LoxLang
