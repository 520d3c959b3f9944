import LoxLang.Proofs.Resolver.Balanced

namespace LoxLang

/-- A step of resolving that may break off. -/
abbrev Strict := StateT Resolver Option

namespace Strict

/-- Performs a step that reads no innermost scope and leaves none. -/
def lift {α : Type} (step : Resolve α) : Strict α := fun r => some (step r)

def top : Strict Scope := fun r =>
  match r.scopes with
  | [] => none
  | s :: _ => some (s, r)

def finish : Strict Unit := do
  let _ ← top
  lift Resolver.finish

def mark (name : Text) (ready : Bool) : Strict Unit := do
  let _ ← top
  lift (Resolver.mark name ready)

def outside : Strict Bool := do return (← get).scopes.isEmpty

def declare (name : Token) : Strict Unit := do
  if ← outside then return ()
  else
    let s ← top
    if Dict.has s name.lexeme then
      lift (Resolver.report name "Already a variable with this name in this scope.")
    mark name.lexeme false

def define (name : Token) : Strict Unit := do
  if ← outside then return () else mark name.lexeme true

def read (ref : Reference Mark) : Strict (Reference Distance) := do
  if ← outside then lift (Resolver.bind (.var ref) ref)
  else
    let s ← top
    if Dict.get? s ref.name.lexeme = some false then
      lift (Resolver.report ref.name "Can't read local variable in its own initializer.")
    lift (Resolver.bind (.var ref) ref)

mutual
def expr : Expr Mark → Strict (Expr Distance)
  | .literal v => return .literal v
  | .grouping e => return .grouping (← expr e)
  | .unary op r => return .unary op (← expr r)
  | .binary l op r => do
    let l ← expr l
    return .binary l op (← expr r)
  | .logical l op r => do
    let l ← expr l
    return .logical l op (← expr r)
  | .var ref => return .var (← read ref)
  | .assign ref v => do
    let v' ← expr v
    return .assign (← lift (Resolver.bind (.assign ref v) ref)) v'
  | .call f paren args => do
    let f ← expr f
    return .call f paren (← exprs args)
  | .get o name => return .get (← expr o) name
  | .set o name v => do
    let v ← expr v
    return .set (← expr o) name v
  | .this ref => return .this (← lift (Resolver.this ref))
  | .super ref method => return .super (← lift (Resolver.super ref method)) method

def exprs : List (Expr Mark) → Strict (List (Expr Distance))
  | [] => return []
  | e :: es => do
    let e ← expr e
    return e :: (← exprs es)
end

def expr? : Option (Expr Mark) → Strict (Option (Expr Distance))
  | none => return none
  | some e => return some (← expr e)

def params : List Token → Strict Unit
  | [] => return ()
  | p :: ps => do
    declare p
    define p
    params ps

def superclass (name : Token) :
    Option (Reference Mark) → Strict (Option (Reference Distance))
  | none => return none
  | some ref => do
    if ref.name.lexeme = name.lexeme then
      lift (Resolver.report ref.name "A class can't inherit from itself.")
    modify fun r => { r with home := .derived }
    let ref ← read ref
    lift Resolver.begin
    mark "super" true
    return some ref

mutual
def stmt : Stmt Mark → Strict (Stmt Distance)
  | .expression e => return .expression (← expr e)
  | .print e => return .print (← expr e)
  | .varDecl name init => do
    declare name
    let init ← expr? init
    define name
    return .varDecl name init
  | .block body => do
    lift Resolver.begin
    let body ← stmts body
    finish
    return .block body
  | .ifThen c s => do
    let c ← expr c
    return .ifThen c (← stmt s)
  | .ifElse c s t => do
    let c ← expr c
    let s ← stmt s
    return .ifElse c s (← stmt t)
  | .loop c s => do
    let c ← expr c
    return .loop c (← stmt s)
  | .funDecl f => do
    declare f.name
    define f.name
    return .funDecl (← routine .function f)
  | .ret keyword value => do
    lift (Resolver.checkReturn keyword value)
    return .ret keyword (← expr? value)
  | .classDecl name sup methods => do
    let home := (← get).home
    modify fun r => { r with home := .plain }
    declare name
    define name
    let sup ← superclass name sup
    lift Resolver.begin
    mark "this" true
    let methods ← routines methods
    finish
    if sup.isSome then finish
    modify fun r => { r with home }
    return .classDecl name sup methods

def stmts : List (Stmt Mark) → Strict (List (Stmt Distance))
  | [] => return []
  | s :: ss => do
    let s ← stmt s
    return s :: (← stmts ss)

def routine (kind : Resolver.Body) : Routine (Stmt Mark) → Strict (Routine (Stmt Distance))
  | ⟨name, ps, body⟩ => do
    let outer := (← get).body
    modify fun r => { r with body := kind }
    lift Resolver.begin
    params ps
    let body ← stmts body
    finish
    modify fun r => { r with body := outer }
    return ⟨name, ps, body⟩

def routines : List (Routine (Stmt Mark)) → Strict (List (Routine (Stmt Distance)))
  | [] => return []
  | f :: fs => do
    let f ← routine (Resolver.methodBody f.name) f
    return f :: (← routines fs)
end

set_option autoImplicit true

/-- From this state the strict step goes the same way as the plain one. -/
def Follows (P : Strict α) (Q : Resolve α) (r : Resolver) : Prop := P r = some (Q r)

theorem Follows.pure (a : α) (r : Resolver) : Follows (Pure.pure a) (Pure.pure a) r := rfl

theorem Follows.lift (Q : Resolve α) (r : Resolver) : Follows (lift Q) Q r := rfl

theorem Follows.bind {P : Strict α} {Q : Resolve α} {F : α → Strict β} {G : α → Resolve β}
    (h : Follows P Q r) (hF : Follows (F (Q r).1) (G (Q r).1) (Q r).2) :
    Follows (P >>= F) (Q >>= G) r := by
  change Option.bind (P r) (fun o => F o.1 o.2) = some (G (Q r).1 (Q r).2)
  rw [h]
  exact hF

theorem Follows.map {P : Strict α} {Q : Resolve α} (h : Follows P Q r) (f : α → β) :
    Follows (P >>= fun a => Pure.pure (f a)) (Q >>= fun a => Pure.pure (f a)) r :=
  h.bind (.pure _ _)

theorem Follows.get {F : Resolver → Strict α} {G : Resolver → Resolve α}
    (h : Follows (F r) (G r) r) :
    Follows (MonadState.get >>= F) (MonadState.get >>= G) r := h

theorem Follows.modify (f : Resolver → Resolver) (r : Resolver) :
    Follows (MonadState.modifyGet fun r => (PUnit.unit, f r))
      (MonadState.modifyGet fun r => (PUnit.unit, f r)) r := rfl

theorem top_run {r : Resolver} (h : r.scopes = s :: ss) : top r = some (s, r) := by
  unfold top
  rw [h]

theorem Follows.top {F : Scope → Strict α} {Q : Resolve α} (hs : r.scopes = s :: ss)
    (h : Follows (F s) Q r) : Follows (top >>= F) Q r := by
  change Option.bind (Strict.top r) (fun o => F o.1 o.2) = some (Q r)
  rw [top_run hs]
  exact h

theorem Follows.outside {F : Bool → Strict α} {Q : Resolve α}
    (h : Follows (F r.scopes.isEmpty) Q r) : Follows (outside >>= F) Q r := h

theorem finish_follows {r : Resolver} (h : r.scopes ≠ []) :
    Follows finish Resolver.finish r := by
  obtain ⟨s, ss, hs⟩ := List.exists_cons_of_ne_nil h
  exact .top hs (.lift _ _)

theorem mark_follows {r : Resolver} (h : r.scopes ≠ []) (x : Text) (b : Bool) :
    Follows (mark x b) (Resolver.mark x b) r := by
  obtain ⟨s, ss, hs⟩ := List.exists_cons_of_ne_nil h
  exact .top hs (.lift _ _)

theorem declare_follows (t : Token) (r : Resolver) :
    Follows (declare t) (Resolver.declare t) r := by
  apply Follows.outside
  cases hs : r.scopes with
  | nil =>
    have hnot : ¬ Dict.has (r.scopes.head?.getD []) t.lexeme = true := by
      rw [hs]
      exact Bool.false_ne_true
    change some ((), r) = some (Resolver.declare t r)
    rw [Resolver.declare_run, if_neg hnot, Resolver.mark_nil hs]
  | cons s ss =>
    apply Follows.top hs
    change _ = some (Resolver.declare t r)
    rw [Resolver.declare_run, hs]
    by_cases hx : Dict.has s t.lexeme = true
    · have hx' : Dict.has ((s :: ss).head?.getD []) t.lexeme = true := hx
      have hmark := mark_follows (r := (Resolver.report t
        "Already a variable with this name in this scope." r).2) (fun h => by
          cases hs.symm.trans h) t.lexeme false
      rw [if_pos hx, if_pos hx']
      exact hmark
    · have hx' : ¬ Dict.has ((s :: ss).head?.getD []) t.lexeme = true := hx
      have hmark := mark_follows (r := r) (fun h => by cases hs.symm.trans h) t.lexeme false
      rw [if_neg hx, if_neg hx']
      exact hmark

theorem define_follows (t : Token) (r : Resolver) :
    Follows (define t) (Resolver.define t) r := by
  apply Follows.outside
  cases hs : r.scopes with
  | nil =>
    change some ((), r) = some (Resolver.mark t.lexeme true r)
    rw [Resolver.mark_nil hs]
  | cons s ss =>
    apply mark_follows
    rw [hs]
    exact List.cons_ne_nil _ _

theorem read_follows (ref : Reference Mark) (r : Resolver) :
    Follows (read ref) (Resolver.read ref) r := by
  apply Follows.outside
  cases hs : r.scopes with
  | nil =>
    change _ = some (Resolver.read ref r)
    rw [Resolver.read_run, hs]
    rfl
  | cons s ss =>
    apply Follows.top (Q := Resolver.read ref) hs
    change _ = some (Resolver.read ref r)
    rw [Resolver.read_run, hs]
    by_cases hx : Dict.get? s ref.name.lexeme = some false
    · have hx' : Dict.get? ((s :: ss).head?.getD []) ref.name.lexeme = some false := hx
      rw [if_pos hx, if_pos hx']
      rfl
    · have hx' : ¬ Dict.get? ((s :: ss).head?.getD []) ref.name.lexeme = some false := hx
      rw [if_neg hx, if_neg hx']
      rfl

mutual
theorem expr_follows (e : Expr Mark) (r : Resolver) :
    Follows (expr e) (Resolver.expr e) r := by
  cases e with
  | literal v => exact .pure _ r
  | grouping e | unary op e | get e x => exact (expr_follows e r).map _
  | binary a op b | logical a op b => exact (expr_follows a r).bind ((expr_follows b _).map _)
  | var ref => exact (read_follows ref r).map _
  | assign ref e => exact (expr_follows e r).bind ((Follows.lift _ _).map _)
  | call f paren args => exact (expr_follows f r).bind ((exprs_follows args _).map _)
  | set o x e => exact (expr_follows e r).bind ((expr_follows o _).map _)
  | this ref => exact (Follows.lift _ r).map _
  | super ref x => exact (Follows.lift _ r).map _

theorem exprs_follows (es : List (Expr Mark)) (r : Resolver) :
    Follows (exprs es) (Resolver.exprs es) r := by
  cases es with
  | nil => exact .pure _ r
  | cons e es => exact (expr_follows e r).bind ((exprs_follows es _).map _)
end

theorem expr?_follows (o : Option (Expr Mark)) (r : Resolver) :
    Follows (expr? o) (Resolver.expr? o) r := by
  cases o with
  | none => exact .pure _ r
  | some e => exact (expr_follows e r).map _

theorem params_follows (ps : List Token) (r : Resolver) :
    Follows (params ps) (Resolver.params ps) r := by
  induction ps generalizing r with
  | nil => exact .pure _ r
  | cons p ps ih => exact (declare_follows p r).bind ((define_follows p _).bind (ih _))

theorem superclass_follows (name : Token) (sup : Option (Reference Mark)) (r : Resolver) :
    Follows (superclass name sup) (Resolver.superclass name sup) r := by
  cases sup with
  | none => exact .pure _ r
  | some ref =>
    have hrest (r : Resolver) : Follows
        (do
          modify fun r => { r with home := .derived }
          let ref ← read ref
          lift Resolver.begin
          mark "super" true
          return some ref)
        (do
          modify fun r => { r with home := .derived }
          let ref ← Resolver.read ref
          Resolver.begin
          Resolver.mark "super" true
          return some ref) r := by
      apply (Follows.modify _ r).bind
      apply (read_follows ref _).bind
      apply (Follows.lift _ _).bind
      exact (mark_follows (List.cons_ne_nil _ _) _ _).map _
    unfold superclass Resolver.superclass
    by_cases hself : ref.name.lexeme = name.lexeme
    · simp only [if_pos hself]
      exact (Follows.lift _ r).bind (hrest _)
    · simp only [if_neg hself]
      exact hrest r

theorem scope_left {r r' : Resolver} (h : Resolver.Leaves xs (Resolver.begin r).2 r') :
    r'.scopes ≠ [] := by
  rw [h.scopes]
  exact List.cons_ne_nil _ _

theorem methods_follow {methods : List (Routine (Stmt Mark))} {o : Option (Reference Distance)}
    (hm : ∀ r, Follows (routines methods) (Resolver.routines methods) r) {r : Resolver}
    (hs : o.isSome = true → r.scopes ≠ []) {name : Token} {home : Resolver.Home} : Follows
      (do
        lift Resolver.begin
        mark "this" true
        let methods ← routines methods
        finish
        if o.isSome then finish
        modify fun r => { r with home }
        return .classDecl name o methods : Strict (Stmt Distance))
      (do
        Resolver.begin
        Resolver.mark "this" true
        let methods ← Resolver.routines methods
        Resolver.finish
        if o.isSome then Resolver.finish
        modify fun r => { r with home }
        return .classDecl name o methods) r := by
  have hthis := (Resolver.mark_leaves "this" (Resolver.begin r).2).trans
    (Resolver.routines_leaves methods _)
  have hleft := hthis.scope.same
  apply (Follows.lift _ r).bind
  apply (mark_follows (List.cons_ne_nil _ _) _ _).bind
  apply (hm _).bind
  apply (finish_follows (scope_left hthis)).bind
  cases o with
  | none => exact (Follows.modify _ _).map _
  | some ref =>
    have hrest : (Resolver.finish _).2.scopes ≠ [] := fun h => hs rfl (hleft.symm.trans h)
    exact (finish_follows hrest).bind ((Follows.modify _ _).map _)

mutual
theorem stmt_follows (s : Stmt Mark) (r : Resolver) :
    Follows (stmt s) (Resolver.stmt s) r := by
  cases s with
  | expression e | print e => exact (expr_follows e r).map _
  | varDecl x init =>
    apply (declare_follows x r).bind
    apply (expr?_follows init _).bind
    exact (define_follows x _).map _
  | block body =>
    apply (Follows.lift _ r).bind
    apply (stmts_follows body _).bind
    exact (finish_follows (scope_left (Resolver.stmts_leaves body _))).map _
  | ifThen c s | loop c s => exact (expr_follows c r).bind ((stmt_follows s _).map _)
  | ifElse c s t =>
    exact (expr_follows c r).bind ((stmt_follows s _).bind ((stmt_follows t _).map _))
  | funDecl f =>
    apply (declare_follows f.name r).bind
    apply (define_follows f.name _).bind
    exact (routine_follows .function f _).map _
  | ret word value => exact (Follows.lift _ r).bind ((expr?_follows value _).map _)
  | classDecl x sup methods =>
    apply Follows.get
    apply (Follows.modify _ r).bind
    apply (declare_follows x _).bind
    apply (define_follows x _).bind
    apply (superclass_follows x sup _).bind
    apply methods_follow (routines_follows methods)
    intro hsome
    rw [Resolver.superclass_isSome] at hsome
    have hscopes := (Resolver.superclass_leaves x sup (Resolver.inClass x r)).1
    rw [if_pos hsome] at hscopes
    change (Resolver.superclass x sup (Resolver.inClass x r)).2.scopes ≠ []
    rw [hscopes]
    exact List.cons_ne_nil _ _

theorem stmts_follows (ss : List (Stmt Mark)) (r : Resolver) :
    Follows (stmts ss) (Resolver.stmts ss) r := by
  cases ss with
  | nil => exact .pure _ r
  | cons s ss => exact (stmt_follows s r).bind ((stmts_follows ss _).map _)

theorem routine_follows (kind : Resolver.Body) (f : Routine (Stmt Mark)) (r : Resolver) :
    Follows (routine kind f) (Resolver.routine kind f) r := by
  obtain ⟨name, ps, body⟩ := f
  apply Follows.get
  apply (Follows.modify _ r).bind
  apply (Follows.lift _ _).bind
  apply (params_follows ps _).bind
  apply (stmts_follows body _).bind
  have hinside := (Resolver.params_leaves ps (Resolver.begin { r with body := kind }).2).trans
    (Resolver.stmts_leaves body _)
  apply (finish_follows (scope_left hinside)).bind
  exact (Follows.modify _ _).map _

theorem routines_follows (fs : List (Routine (Stmt Mark))) (r : Resolver) :
    Follows (routines fs) (Resolver.routines fs) r := by
  cases fs with
  | nil => exact .pure _ r
  | cons f fs => exact (routine_follows _ f r).bind ((routines_follows fs _).map _)
end

end Strict

namespace Resolver
set_option autoImplicit true

/-- Nothing has changed that counts for what follows, but that the innermost scope has these names,
ready to be read. -/
structure Balanced (xs : List Text) (r r' : Resolver) : Prop where
  height : r'.scopes.length = r.scopes.length
  below : r'.scopes.tail = r.scopes.tail
  top : ∀ s ∈ r.scopes.head?, ∃ s' ∈ r'.scopes.head?, ∀ x,
    Dict.get? s' x = if x ∈ xs then some true else Dict.get? s x
  body : r'.body = r.body
  home : r'.home = r.home

theorem Leaves.balanced (h : Leaves xs r r') : Balanced xs r r' := by
  refine ⟨?_, ?_, ?_, h.body, h.home⟩
  · rw [h.scopes, readied_length]
  · rw [h.scopes, readied_tail]
  · intro s hs
    rw [h.scopes]
    obtain ⟨ss, hss⟩ := List.head?_eq_some_iff.1 hs
    rw [hss]
    exact ⟨_, rfl, get?_ready xs s⟩

/-- Wherever resolving starts and whatever faults it finds, it never misses a scope that it reads or
leaves. An expression leaves the scopes and the kinds of routine and class as they were, and a
statement adds the names that it declares itself. So a program ends where it started, outside of all
scopes, routines and classes. -/
theorem walk_balanced :
    (∀ (e : Expr Mark) (r : Resolver),
      Strict.expr e r = some (expr e r) ∧ Balanced [] r (expr e r).2) ∧
    (∀ (s : Stmt Mark) (r : Resolver),
      Strict.stmt s r = some (stmt s r) ∧ Balanced s.declares r (stmt s r).2) ∧
    ∀ program : List (Stmt Mark),
      Strict.stmts program initial = some (stmts program initial) ∧
        (stmts program initial).2.scopes = [] ∧ (stmts program initial).2.body = .none ∧
        (stmts program initial).2.home = .none := by
  refine ⟨?_, ?_, ?_⟩
  · intro e r
    exact ⟨Strict.expr_follows e r, (expr_leaves e r).balanced⟩
  · intro s r
    exact ⟨Strict.stmt_follows s r, (stmt_leaves s r).balanced⟩
  · intro program
    have hleft := stmts_leaves program initial
    exact ⟨Strict.stmts_follows program initial, hleft.scopes, hleft.body, hleft.home⟩

end Resolver

end LoxLang
