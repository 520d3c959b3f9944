import LoxLang.Resolver

namespace LoxLang

namespace Resolver
set_option autoImplicit true

theorem run_bind (P : Resolve α) (Q : α → Resolve β) (r : Resolver) :
    (P >>= Q) r = Q (P r).1 (P r).2 := rfl

theorem run_get (r : Resolver) : (MonadState.get : Resolve Resolver) r = (r, r) := rfl

theorem bind_run (node : Expr Mark) (ref : Reference Mark) (r : Resolver) :
    ∃ bs, bind node ref r =
      (⟨ref.name, distance r.scopes ref.name.lexeme⟩, { r with bindings := bs }) := by
  unfold bind
  simp only [run_bind, run_get]
  cases distance r.scopes ref.name.lexeme with
  | none => exact ⟨r.bindings, rfl⟩
  | some n => exact ⟨r.bindings ++ [⟨node, n⟩], rfl⟩

theorem mark_nil {r : Resolver} (h : r.scopes = []) (x : Text) (b : Bool) :
    mark x b r = ((), r) := by
  change ((), _) = _
  simp only [h]

theorem mark_cons {r : Resolver} (h : r.scopes = s :: ss) (x : Text) (b : Bool) :
    mark x b r = ((), { r with scopes := Dict.set x b s :: ss }) := by
  change ((), _) = _
  simp only [h]

/-- A name is declared after a fault is told of if it is declared already. -/
theorem declare_run (t : Token) (r : Resolver) :
    declare t r = mark t.lexeme false (if Dict.has (r.scopes.head?.getD []) t.lexeme then
      (report t "Already a variable with this name in this scope." r).2 else r) := by
  unfold declare
  change (if _ then _ else _ : Resolve Unit) r = _
  split
  · rfl
  · rfl

/-- A variable is read after a fault is told of if it is being initialized. -/
theorem read_run (ref : Reference Mark) (r : Resolver) :
    read ref r = bind (.var ref) ref
      (if Dict.get? (r.scopes.head?.getD []) ref.name.lexeme = some false then
        (report ref.name "Can't read local variable in its own initializer." r).2 else r) := by
  unfold read
  change (if _ then _ else _ : Resolve (Reference Distance)) r = _
  split
  · rfl
  · rfl

theorem checkReturn_run (word : Token) (value : Option (Expr Mark)) (r : Resolver) :
    checkReturn word value r =
      (if value.isSome ∧ r.body = .initializer then
        report word "Can't return a value from an initializer." else pure ())
        (if r.body = .none then (report word "Can't return from top-level code." r).2 else r) := by
  unfold checkReturn
  change (if _ then _ else _ : Resolve Unit) r = _
  split
  · rfl
  · rfl

/-- Where the superclass of a class is read, after a fault is told of if it is the class itself. -/
def atSuperclass (name : Token) (ref : Reference Mark) (r : Resolver) : Resolver :=
  { if ref.name.lexeme = name.lexeme then
      (report ref.name "A class can't inherit from itself." r).2 else r with home := .derived }

theorem superclass_run (name : Token) (ref : Reference Mark) (r : Resolver) :
    superclass name (some ref) r =
      (some (read ref (atSuperclass name ref r)).1,
        (mark "super" true (begin (read ref (atSuperclass name ref r)).2).2).2) := by
  unfold superclass atSuperclass
  by_cases hs : ref.name.lexeme = name.lexeme
  · simp only [if_pos hs]
    rfl
  · simp only [if_neg hs]
    rfl

theorem superclass_isSome (name : Token) (sup : Option (Reference Mark)) (r : Resolver) :
    (superclass name sup r).1.isSome = sup.isSome := by
  cases sup with
  | none => rfl
  | some ref =>
    rw [superclass_run]
    rfl

def inClass (name : Token) (r : Resolver) : Resolver :=
  (define name (declare name { r with home := .plain }).2).2

/-- What is left of a class once its superclass is resolved: its methods are, and the scopes around
them are left. -/
def closeClass (name : Token) (methods : List (Routine (Stmt Mark))) (home : Home)
    (o : Option (Reference Distance) × Resolver) : Stmt Distance × Resolver :=
  let m := routines methods (mark "this" true (begin o.2).2).2
  (.classDecl name o.1 m.1,
    { if o.1.isSome then (finish (finish m.2).2).2 else (finish m.2).2 with home })

theorem classDecl_run (name : Token) (sup : Option (Reference Mark))
    (methods : List (Routine (Stmt Mark))) (r : Resolver) :
    stmt (.classDecl name sup methods) r =
      closeClass name methods r.home (superclass name sup (inClass name r)) := by
  have hclose (o : Option (Reference Distance) × Resolver) :
      (do
        begin
        mark "this" true
        let methods ← routines methods
        finish
        if o.1.isSome then finish
        modify fun a => { a with home := r.home }
        return .classDecl name o.1 methods : Resolve (Stmt Distance)) o.2 =
      closeClass name methods r.home o := by
    obtain ⟨_ | ref, a⟩ := o
    · rfl
    · rfl
  exact hclose _

end Resolver

end LoxLang
