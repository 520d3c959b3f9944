import LoxLang.Proofs.Tree.Alike
import LoxLang.Resolver

namespace LoxLang
set_option autoImplicit true

/-- Two states of the resolver that differ in the text of their faults and in the nodes they have
recorded at most. -/
structure Resolver.Alike (r r' : Resolver) : Prop where
  scopes : r'.scopes = r.scopes
  body : r'.body = r.body
  home : r'.home = r.home
  faults : r'.diagnostics.length = r.diagnostics.length

namespace Resolver

theorem Alike.refl (r : Resolver) : Alike r r := ⟨rfl, rfl, rfl, rfl⟩

/-- From states that are alike two runs give results that `A` relates and states that are alike. -/
def RunsAlike (A : α → β → Prop) (P : Resolve α) (P' : Resolve β) : Prop :=
  ∀ r r', Alike r r' → A (P r).1 (P' r').1 ∧ Alike (P r).2 (P' r').2

theorem RunsAlike.pure {A : α → β → Prop} (h : A a b) :
    RunsAlike A (Pure.pure a) (Pure.pure b) := fun _ _ hr => ⟨h, hr⟩

theorem RunsAlike.bind {A : α → β → Prop} {B : γ → δ → Prop} {P : Resolve α} {P' : Resolve β}
    {Q : α → Resolve γ} {Q' : β → Resolve δ} (h : RunsAlike A P P')
    (hQ : ∀ a b, A a b → RunsAlike B (Q a) (Q' b)) : RunsAlike B (P >>= Q) (P' >>= Q') := by
  intro r r' hr
  obtain ⟨ha, hr⟩ := h r r' hr
  exact hQ _ _ ha _ _ hr

theorem RunsAlike.get {B : γ → δ → Prop} {Q : Resolver → Resolve γ} {Q' : Resolver → Resolve δ}
    (h : ∀ r r', Alike r r' → RunsAlike B (Q r) (Q' r')) :
    RunsAlike B (MonadState.get >>= Q) (MonadState.get >>= Q') := fun r r' hr => h r r' hr r r' hr

theorem RunsAlike.modify {f f' : Resolver → Resolver} (h : ∀ r r', Alike r r' → Alike (f r) (f' r')) :
    RunsAlike Anyhow (MonadState.modifyGet fun r => (PUnit.unit, f r) : Resolve PUnit)
      (MonadState.modifyGet fun r => (PUnit.unit, f' r) : Resolve PUnit) :=
  fun r r' hr => ⟨trivial, h r r' hr⟩

theorem RunsAlike.change {B : γ → δ → Prop} {f f' : Resolver → Resolver} {Q : PUnit → Resolve γ}
    {Q' : PUnit → Resolve δ} (h : ∀ r r', Alike r r' → Alike (f r) (f' r'))
    (hQ : RunsAlike B (Q ()) (Q' ())) :
    RunsAlike B ((MonadState.modifyGet fun r => (PUnit.unit, f r) : Resolve PUnit) >>= Q)
      ((MonadState.modifyGet fun r => (PUnit.unit, f' r) : Resolve PUnit) >>= Q') :=
  (RunsAlike.modify h).bind fun _ _ _ => hQ

theorem RunsAlike.ite {c : Prop} [Decidable c] {A : α → β → Prop} {P Q : Resolve α}
    {P' Q' : Resolve β} (h : RunsAlike A P P') (h' : RunsAlike A Q Q') :
    RunsAlike A (if c then P else Q) (if c then P' else Q') := by
  split
  · exact h
  · exact h'

theorem report_alike (t t' : Token) (message message' : Text) :
    RunsAlike Anyhow (report t message) (report t' message') := by
  apply RunsAlike.modify
  intro r r' hr
  refine ⟨hr.scopes, hr.body, hr.home, ?_⟩
  rw [List.length_append, List.length_append, hr.faults]
  rfl

theorem begin_alike : RunsAlike Anyhow begin begin := by
  apply RunsAlike.modify
  intro r r' hr
  exact ⟨congrArg ([] :: ·) hr.scopes, hr.body, hr.home, hr.faults⟩

theorem finish_alike : RunsAlike Anyhow finish finish := by
  apply RunsAlike.modify
  intro r r' hr
  exact ⟨congrArg List.tail hr.scopes, hr.body, hr.home, hr.faults⟩

theorem mark_alike (x : Text) (b : Bool) : RunsAlike Anyhow (mark x b) (mark x b) := by
  apply RunsAlike.modify
  intro r r' hr
  rw [hr.scopes]
  cases r.scopes with
  | nil => exact hr
  | cons s ss => exact ⟨rfl, hr.body, hr.home, hr.faults⟩

variable {R : Token → Token → Prop} {S : Mark → Mark → Prop}

theorem declare_alike (hR : Spelled R) (h : R x x') : RunsAlike Anyhow (declare x) (declare x') := by
  unfold declare
  apply RunsAlike.get
  intro r r' hr
  rw [hr.scopes, (hR x x' h).2]
  exact .ite ((report_alike _ _ _ _).bind fun _ _ _ => mark_alike _ _) (mark_alike _ _)

theorem define_alike (hR : Spelled R) (h : R x x') : RunsAlike Anyhow (define x) (define x') := by
  unfold define
  rw [(hR x x' h).2]
  exact mark_alike _ _

theorem bind_alike (hR : Spelled R) (h : R ref.name ref'.name) (node node' : Expr Mark) :
    RunsAlike (Reference.Alike R Eq) (bind node ref) (bind node' ref') := by
  unfold bind
  apply RunsAlike.get
  intro r r' hr
  dsimp only
  rw [hr.scopes, (hR _ _ h).2]
  have hsame (d : Distance) : RunsAlike (Reference.Alike R Eq) (Pure.pure ⟨ref.name, d⟩)
      (Pure.pure ⟨ref'.name, d⟩) := .pure ⟨h, rfl⟩
  cases distance r.scopes ref.name.lexeme with
  | none => exact hsame none
  | some n =>
    apply RunsAlike.change _ (hsame (some n))
    intro r r' hr
    exact ⟨hr.scopes, hr.body, hr.home, hr.faults⟩

theorem read_alike (hR : Spelled R) (h : R ref.name ref'.name) :
    RunsAlike (Reference.Alike R Eq) (read ref) (read ref') := by
  unfold read
  apply RunsAlike.get
  intro r r' hr
  rw [hr.scopes, (hR _ _ h).2]
  exact .ite ((report_alike _ _ _ _).bind fun _ _ _ => bind_alike hR h _ _) (bind_alike hR h _ _)

theorem this_alike (hR : Spelled R) (h : R ref.name ref'.name) :
    RunsAlike (Reference.Alike R Eq) (this ref) (this ref') := by
  unfold this
  apply RunsAlike.get
  intro r r' hr
  rw [hr.home]
  cases r.home with
  | none => exact (report_alike _ _ _ _).bind fun _ _ _ => .pure ⟨h, rfl⟩
  | plain | derived => exact bind_alike hR h _ _

theorem super_alike (hR : Spelled R) (h : R ref.name ref'.name) (x x' : Token) :
    RunsAlike (Reference.Alike R Eq) (super ref x) (super ref' x') := by
  unfold super
  apply RunsAlike.get
  intro r r' hr
  rw [hr.home]
  cases r.home with
  | none | plain => exact (report_alike _ _ _ _).bind fun _ _ _ => .pure ⟨h, rfl⟩
  | derived => exact bind_alike hR h _ _

mutual
theorem expr_alike (hR : Spelled R) (e : Expr Mark) (h : e.Alike R S e') :
    RunsAlike (Expr.Alike R Eq) (expr e) (expr e') := by
  cases e with
  | literal v =>
    cases h with
    | literal => exact .pure .literal
  | grouping e =>
    cases h with
    | grouping he => exact (expr_alike hR e he).bind fun _ _ he => .pure (.grouping he)
  | unary op e =>
    cases h with
    | unary ho he => exact (expr_alike hR e he).bind fun _ _ he => .pure (.unary ho he)
  | binary l op right =>
    cases h with
    | binary hl ho hr =>
      apply (expr_alike hR l hl).bind
      intro _ _ hl
      exact (expr_alike hR right hr).bind fun _ _ hr => .pure (.binary hl ho hr)
  | logical l op right =>
    cases h with
    | logical hl ho hr =>
      apply (expr_alike hR l hl).bind
      intro _ _ hl
      exact (expr_alike hR right hr).bind fun _ _ hr => .pure (.logical hl ho hr)
  | var ref =>
    cases h with
    | var href => exact (read_alike hR href.name).bind fun _ _ href => .pure (.var href)
  | assign ref e =>
    cases h with
    | assign href he =>
      apply (expr_alike hR e he).bind
      intro _ _ he
      exact (bind_alike hR href.name _ _).bind fun _ _ href => .pure (.assign href he)
  | call f paren args =>
    cases h with
    | call hf hp ha =>
      apply (expr_alike hR f hf).bind
      intro _ _ hf
      exact (exprs_alike hR args ha).bind fun _ _ ha => .pure (.call hf hp ha)
  | get o x =>
    cases h with
    | get ho hx => exact (expr_alike hR o ho).bind fun _ _ ho => .pure (.get ho hx)
  | set o x e =>
    cases h with
    | set ho hx he =>
      apply (expr_alike hR e he).bind
      intro _ _ he
      exact (expr_alike hR o ho).bind fun _ _ ho => .pure (.set ho hx he)
  | this ref =>
    cases h with
    | this href => exact (this_alike hR href.name).bind fun _ _ href => .pure (.this href)
  | super ref x =>
    cases h with
    | super href hx =>
      exact (super_alike hR href.name _ _).bind fun _ _ href => .pure (.super href hx)

theorem exprs_alike (hR : Spelled R) (es : List (Expr Mark))
    (h : List.Forall₂ (Expr.Alike R S) es es') :
    RunsAlike (List.Forall₂ (Expr.Alike R Eq)) (exprs es) (exprs es') := by
  cases es with
  | nil =>
    cases h with
    | nil => exact .pure .nil
  | cons e es =>
    cases h with
    | cons he hes =>
      apply (expr_alike hR e he).bind
      intro _ _ he
      exact (exprs_alike hR es hes).bind fun _ _ hes => .pure (.cons he hes)
end

theorem expr?_alike (hR : Spelled R) (h : Option.Rel (Expr.Alike R S) o o') :
    RunsAlike (Option.Rel (Expr.Alike R Eq)) (expr? o) (expr? o') := by
  cases h with
  | none => exact .pure .none
  | some he => exact (expr_alike hR _ he).bind fun _ _ he => .pure (.some he)

theorem params_alike (hR : Spelled R) (h : List.Forall₂ R ps ps') :
    RunsAlike Anyhow (params ps) (params ps') := by
  induction h with
  | nil => exact .pure trivial
  | cons hp _ ih =>
    apply (declare_alike hR hp).bind
    intro _ _ _
    exact (define_alike hR hp).bind fun _ _ _ => ih

theorem checkReturn_alike (word word' : Token) (h : Option.Rel (Expr.Alike R S) value value') :
    RunsAlike Anyhow (checkReturn word value) (checkReturn word' value') := by
  unfold checkReturn
  apply RunsAlike.get
  intro r r' hr
  have hsome : value'.isSome = value.isSome := by
    cases h with
    | none => rfl
    | some => rfl
  dsimp only
  rw [hr.body, hsome]
  have hvalue : RunsAlike Anyhow
      (if value.isSome ∧ r.body = .initializer then
        report word "Can't return a value from an initializer." else Pure.pure ())
      (if value.isSome ∧ r.body = .initializer then
        report word' "Can't return a value from an initializer." else Pure.pure ()) :=
    .ite (report_alike _ _ _ _) (.pure trivial)
  exact .ite ((report_alike _ _ _ _).bind fun _ _ _ => hvalue) hvalue

theorem superclass_alike (hR : Spelled R) (hx : R x x')
    (h : Option.Rel (Reference.Alike R S) sup sup') :
    RunsAlike (Option.Rel (Reference.Alike R Eq)) (superclass x sup) (superclass x' sup') := by
  cases h with
  | none => exact .pure .none
  | @some ref ref' href =>
    have hrest : RunsAlike (Option.Rel (Reference.Alike R Eq))
        (do
          modify fun r => { r with home := .derived }
          let ref ← read ref
          begin
          mark "super" true
          return some ref)
        (do
          modify fun r => { r with home := .derived }
          let ref ← read ref'
          begin
          mark "super" true
          return some ref) := by
      refine RunsAlike.change (fun r r' hr => ⟨hr.scopes, hr.body, rfl, hr.faults⟩) ?_
      apply (read_alike hR href.name).bind
      intro _ _ href
      apply begin_alike.bind
      intro _ _ _
      exact (mark_alike _ _).bind fun _ _ _ => .pure (.some href)
    unfold superclass
    dsimp only
    rw [(hR _ _ href.name).2, (hR x x' hx).2]
    exact .ite ((report_alike _ _ _ _).bind fun _ _ _ => hrest) hrest

mutual
theorem stmt_alike (hR : Spelled R) (s : Stmt Mark) (h : s.Alike R S s') :
    RunsAlike (Stmt.Alike R Eq) (stmt s) (stmt s') := by
  cases s with
  | expression e =>
    cases h with
    | expression he => exact (expr_alike hR e he).bind fun _ _ he => .pure (.expression he)
  | print e =>
    cases h with
    | print he => exact (expr_alike hR e he).bind fun _ _ he => .pure (.print he)
  | varDecl x init =>
    cases h with
    | varDecl hx hi =>
      apply (declare_alike hR hx).bind
      intro _ _ _
      apply (expr?_alike hR hi).bind
      intro _ _ hi
      exact (define_alike hR hx).bind fun _ _ _ => .pure (.varDecl hx hi)
  | block body =>
    cases h with
    | block hb =>
      apply begin_alike.bind
      intro _ _ _
      apply (stmts_alike hR body hb).bind
      intro _ _ hb
      exact finish_alike.bind fun _ _ _ => .pure (.block hb)
  | ifThen c s =>
    cases h with
    | ifThen hc hs =>
      apply (expr_alike hR c hc).bind
      intro _ _ hc
      exact (stmt_alike hR s hs).bind fun _ _ hs => .pure (.ifThen hc hs)
  | ifElse c s t =>
    cases h with
    | ifElse hc hs ht =>
      apply (expr_alike hR c hc).bind
      intro _ _ hc
      apply (stmt_alike hR s hs).bind
      intro _ _ hs
      exact (stmt_alike hR t ht).bind fun _ _ ht => .pure (.ifElse hc hs ht)
  | loop c s =>
    cases h with
    | loop hc hs =>
      apply (expr_alike hR c hc).bind
      intro _ _ hc
      exact (stmt_alike hR s hs).bind fun _ _ hs => .pure (.loop hc hs)
  | funDecl f =>
    cases h with
    | funDecl hf =>
      have hname : R f.name _ := hf.name
      apply (declare_alike hR hname).bind
      intro _ _ _
      apply (define_alike hR hname).bind
      intro _ _ _
      exact (routine_alike hR .function f hf).bind fun _ _ hf => .pure (.funDecl hf)
  | ret word value =>
    cases h with
    | ret hv =>
      apply (checkReturn_alike word _ hv).bind
      intro _ _ _
      exact (expr?_alike hR hv).bind fun _ _ hv => .pure (.ret hv)
  | classDecl x sup methods =>
    cases h with
    | classDecl hx hsup hm =>
      rw [stmt, stmt]
      apply RunsAlike.get
      intro r r' hr
      refine RunsAlike.change (fun r r' hr => ⟨hr.scopes, hr.body, rfl, hr.faults⟩) ?_
      apply (declare_alike hR hx).bind
      intro _ _ _
      apply (define_alike hR hx).bind
      intro _ _ _
      apply (superclass_alike hR hx hsup).bind
      intro sup₁ sup₂ hsup
      apply begin_alike.bind
      intro _ _ _
      apply (mark_alike _ _).bind
      intro _ _ _
      apply (routines_alike hR methods hm).bind
      intro _ _ hm
      apply finish_alike.bind
      intro _ _ _
      have hend : RunsAlike (Stmt.Alike R Eq)
          (do
            modify fun s => { s with home := r.home }
            return .classDecl x sup₁ _)
          (do
            modify fun s => { s with home := r'.home }
            return .classDecl _ sup₂ _) :=
        RunsAlike.change (fun s s' hs => ⟨hs.scopes, hs.body, hr.home, hs.faults⟩)
          (.pure (.classDecl hx hsup hm))
      have hsome : sup₂.isSome = sup₁.isSome := by
        cases hsup with
        | none => rfl
        | some => rfl
      dsimp only
      rw [hsome]
      exact .ite (finish_alike.bind fun _ _ _ => hend) hend
termination_by structural s

theorem stmts_alike (hR : Spelled R) (ss : List (Stmt Mark))
    (h : List.Forall₂ (Stmt.Alike R S) ss ss') :
    RunsAlike (List.Forall₂ (Stmt.Alike R Eq)) (stmts ss) (stmts ss') := by
  cases ss with
  | nil =>
    cases h with
    | nil => exact .pure .nil
  | cons s ss =>
    cases h with
    | cons hs hss =>
      apply (stmt_alike hR s hs).bind
      intro _ _ hs
      exact (stmts_alike hR ss hss).bind fun _ _ hss => .pure (.cons hs hss)
termination_by structural ss

theorem routine_alike (hR : Spelled R) (kind : Body) (f : Routine (Stmt Mark))
    (h : Routine.Alike R (Stmt.Alike R S) f f') :
    RunsAlike (Routine.Alike R (Stmt.Alike R Eq)) (routine kind f) (routine kind f') := by
  obtain ⟨x, ps, body⟩ := f
  cases h with
  | mk hx hp hb =>
    rw [routine, routine]
    apply RunsAlike.get
    intro r r' hr
    refine RunsAlike.change (fun r r' hr => ⟨hr.scopes, rfl, hr.home, hr.faults⟩) ?_
    apply begin_alike.bind
    intro _ _ _
    apply (params_alike hR hp).bind
    intro _ _ _
    apply (stmts_alike hR body hb).bind
    intro _ _ hb
    apply finish_alike.bind
    intro _ _ _
    exact RunsAlike.change (fun s s' hs => ⟨hs.scopes, hr.body, hs.home, hs.faults⟩)
      (.pure (.mk hx hp hb))
termination_by structural f

theorem routines_alike (hR : Spelled R) (fs : List (Routine (Stmt Mark)))
    (h : List.Forall₂ (Routine.Alike R (Stmt.Alike R S)) fs fs') :
    RunsAlike (List.Forall₂ (Routine.Alike R (Stmt.Alike R Eq))) (routines fs) (routines fs') := by
  cases fs with
  | nil =>
    cases h with
    | nil => exact .pure .nil
  | cons f fs =>
    cases h with
    | @cons _ f' _ _ hf hfs =>
      have hkind : methodBody f'.name = methodBody f.name := by
        unfold methodBody
        rw [(hR _ _ hf.name).2]
      rw [routines, routines, hkind]
      apply (routine_alike hR _ f hf).bind
      intro _ _ hf
      exact (routines_alike hR fs hfs).bind fun _ _ hfs => .pure (.cons hf hfs)
termination_by structural fs
end

end Resolver

end LoxLang
