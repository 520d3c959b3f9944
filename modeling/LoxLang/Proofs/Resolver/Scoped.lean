import LoxLang.Resolver
import LoxLang.Proofs.Tree.Formed

namespace LoxLang
set_option autoImplicit true

/-- The names declared so far in each scope, innermost first. The global scope is not listed. -/
abbrev Scopes := List (List Text)

namespace Scopes

/-- Declares a name in the innermost scope; global names are not kept. -/
def declare (x : Text) : Scopes → Scopes
  | [] => []
  | g :: Γ => (x :: g) :: Γ

def declare? (Γ : Scopes) : Option Text → Scopes
  | none => Γ
  | some x => Γ.declare x

/-- The innermost scope does not declare a name yet. Global names may be declared again. -/
def Free (Γ : Scopes) (x : Text) : Prop := ∀ g ∈ Γ.head?, x ∉ g

/-- How far out the nearest scope is that declares a name. -/
def distance (Γ : Scopes) (x : Text) : Distance := Γ.findIdx? (decide <| x ∈ ·)

def ofClass (derived : Bool) (Γ : Scopes) : Scopes :=
  ["this"] :: if derived then ["super"] :: Γ else Γ

@[simp] theorem declare_nil (x : Text) : declare x [] = [] := rfl

@[simp] theorem declare_cons (x : Text) (g : List Text) (Γ : Scopes) :
    declare x (g :: Γ) = (x :: g) :: Γ := rfl

theorem declare?_nil (x : Option Text) : declare? [] x = [] := by cases x <;> rfl

theorem declare?_tail (Γ : Scopes) (x : Option Text) : (Γ.declare? x).tail = Γ.tail := by
  cases x with
  | none => rfl
  | some x => cases Γ <;> rfl

theorem distance_cons (g : List Text) (Γ : Scopes) (x : Text) :
    distance (g :: Γ) x = if x ∈ g then some 0 else (distance Γ x).map (· + 1) := by
  simp [distance, List.findIdx?_cons]

theorem distance_declare (hx : y ≠ x) : (declare x Γ).distance y = distance Γ y := by
  cases Γ with
  | nil => rfl
  | cons g Γ => simp [distance_cons, hx]

theorem distance_eq_some (h : distance Γ x = some d) :
    (∃ g, Γ[d]? = some g ∧ x ∈ g) ∧ ∀ i < d, ∀ g, Γ[i]? = some g → x ∉ g := by
  obtain ⟨hd, hx, hnot⟩ := List.findIdx?_eq_some_iff_getElem.1 h
  refine ⟨⟨Γ[d], List.getElem?_eq_getElem hd, of_decide_eq_true hx⟩, ?_⟩
  intro i hi g hg hm
  obtain ⟨hlt, he⟩ := List.getElem?_eq_some_iff.1 hg
  exact absurd (decide_eq_true (he ▸ hm)) (hnot i hi)

end Scopes

/-- An expression is resolved in these scopes while the variable `pending`, if any, is being
initialized in the innermost one. -/
inductive Expr.Scoped (T : Token → Prop) (Γ : Scopes) (pending : Option Text) :
    Expr Distance → Prop where
  | literal : Scoped T Γ pending (.literal v)
  | grouping : Scoped T Γ pending e → Scoped T Γ pending (.grouping e)
  | unary : T op → op.kind.Prefixes → Scoped T Γ pending e → Scoped T Γ pending (.unary op e)
  | binary : T op → op.kind.Combines → Scoped T Γ pending l → Scoped T Γ pending r →
      Scoped T Γ pending (.binary l op r)
  | logical : Scoped T Γ pending l → Scoped T Γ pending r → Scoped T Γ pending (.logical l op r)
  | var : ref.name.Names T → ref.mark = Γ.distance ref.name.lexeme →
      (ref.mark = some 0 → pending ≠ some ref.name.lexeme) → Scoped T Γ pending (.var ref)
  | assign : ref.name.Names T → ref.mark = Γ.distance ref.name.lexeme → Scoped T Γ pending e →
      Scoped T Γ pending (.assign ref e)
  | call : T paren → Scoped T Γ pending f → (∀ e ∈ args, Scoped T Γ pending e) →
      Scoped T Γ pending (.call f paren args)
  | get : T x → Scoped T Γ pending o → Scoped T Γ pending (.get o x)
  | set : T x → Scoped T Γ pending o → Scoped T Γ pending e → Scoped T Γ pending (.set o x e)
  | this {ref : Reference Distance} : T ref.name → ref.name.lexeme = "this" →
      ref.mark = some d → Γ.distance "this" = some d → Scoped T Γ pending (.this ref)
  | super {ref : Reference Distance} : T ref.name → ref.name.lexeme = "super" → T method →
      ref.mark = some (k + 1) → Γ.distance "super" = some (k + 1) → Γ.distance "this" = some k →
      Scoped T Γ pending (.super ref method)

mutual
inductive Stmt.Scoped (T : Token → Prop) : Scopes → Stmt Distance → Prop where
  | expression : e.Scoped T Γ none → Stmt.Scoped T Γ (.expression e)
  | print : e.Scoped T Γ none → Stmt.Scoped T Γ (.print e)
  | varDecl : x.Names T →
      (∀ e ∈ init, Expr.Scoped T (Γ.declare x.lexeme) (some x.lexeme) e) →
      Γ.Free x.lexeme → Stmt.Scoped T Γ (.varDecl x init)
  | block : Program.Scoped T ([] :: Γ) body → Stmt.Scoped T Γ (.block body)
  | ifThen : c.Scoped T Γ none → s.declared? = none → Stmt.Scoped T Γ s →
      Stmt.Scoped T Γ (.ifThen c s)
  | ifElse : c.Scoped T Γ none → s.declared? = none → Stmt.Scoped T Γ s → t.declared? = none →
      Stmt.Scoped T Γ t → Stmt.Scoped T Γ (.ifElse c s t)
  | loop : c.Scoped T Γ none → s.declared? = none → Stmt.Scoped T Γ s →
      Stmt.Scoped T Γ (.loop c s)
  | funDecl : r.name.Names T → Routine.Scoped T (Γ.declare r.name.lexeme) r →
      Γ.Free r.name.lexeme → Stmt.Scoped T Γ (.funDecl r)
  | ret : (∀ e ∈ value, Expr.Scoped T Γ none e) → Stmt.Scoped T Γ (.ret keyword value)
  | classDecl : x.Names T →
      (∀ ref ∈ sup, Expr.Scoped T (Γ.declare x.lexeme) (some x.lexeme) (.var ref)) →
      (∀ r ∈ methods, Routine.Scoped T (Scopes.ofClass sup.isSome (Γ.declare x.lexeme)) r) →
      Γ.Free x.lexeme → Stmt.Scoped T Γ (.classDecl x sup methods)

/-- Statements are resolved in turn, each in the scopes that those before it leave. -/
inductive Program.Scoped (T : Token → Prop) : Scopes → List (Stmt Distance) → Prop where
  | nil : Program.Scoped T Γ []
  | cons : Stmt.Scoped T Γ s → Program.Scoped T (Γ.declare? s.declared?) ss →
      Program.Scoped T Γ (s :: ss)

inductive Routine.Scoped (T : Token → Prop) : Scopes → Routine (Stmt Distance) → Prop where
  | mk : (∀ p ∈ params, p.Names T) →
      Program.Scoped T ((params.map Token.lexeme).reverse :: Γ) body →
      Routine.Scoped T Γ ⟨name, params, body⟩
end

end LoxLang
