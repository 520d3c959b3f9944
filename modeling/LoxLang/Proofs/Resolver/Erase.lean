import LoxLang.Resolver
import LoxLang.Proofs.Tree.Map
import Mathlib.Logic.Basic

namespace LoxLang

namespace Resolver
set_option autoImplicit true

/-- Whatever the state, a run gives a result of this kind. -/
def Gives (R : α → Prop) (P : Resolve α) : Prop := ∀ r, R (P r).1

theorem Gives.pure {R : α → Prop} (h : R a) : Gives R (Pure.pure a) := fun _ => h

theorem Gives.bind {R : α → Prop} {S : β → Prop} {P : Resolve α} {Q : α → Resolve β}
    (h : Gives R P) (hQ : ∀ a, R a → Gives S (Q a)) : Gives S (P >>= Q) :=
  fun r => hQ _ (h r) _

theorem Gives.after {S : β → Prop} {P : Resolve α} {Q : α → Resolve β}
    (hQ : ∀ a, Gives S (Q a)) : Gives S (P >>= Q) := fun _ => hQ _ _

theorem Gives.map {R : α → Prop} {S : β → Prop} {P : Resolve α} {f : α → β} (h : Gives R P)
    (hf : ∀ a, R a → S (f a)) : Gives S (P >>= fun a => Pure.pure (f a)) :=
  h.bind fun a ha => .pure (hf a ha)

theorem bind_erase (node : Expr Mark) (ref : Reference Mark) :
    Gives (fun ref' => ref'.name = ref.name) (bind node ref) := by
  apply Gives.after
  intro r
  dsimp only
  split
  · exact .after fun _ => .pure rfl
  · exact .pure rfl

theorem read_erase (ref : Reference Mark) :
    Gives (fun ref' => ref'.name = ref.name) (read ref) := by
  apply Gives.after
  intro r
  dsimp only
  split
  · exact .after fun _ => bind_erase _ ref
  · exact bind_erase _ ref

theorem this_erase (ref : Reference Mark) :
    Gives (fun ref' => ref'.name = ref.name) (this ref) := by
  apply Gives.after
  intro r
  split
  · exact .after fun _ => .pure rfl
  · exact bind_erase _ ref

theorem super_erase (ref : Reference Mark) (method : Token) :
    Gives (fun ref' => ref'.name = ref.name) (super ref method) := by
  apply Gives.after
  intro r
  split
  · exact .after fun _ => .pure rfl
  · exact .after fun _ => .pure rfl
  · exact bind_erase _ ref

theorem reference_erase {ref : Reference μ} {ref' : Reference ν} (h : ref'.name = ref.name) :
    ref'.map (fun _ => ()) id = ref.map (fun _ => ()) id :=
  congrArg (fun x => (⟨x, ()⟩ : Reference Unit)) h

mutual
theorem expr_erase (e : Expr Mark) : Gives (fun e' => e'.erase = e.erase) (expr e) := by
  cases e with
  | literal v => exact .pure rfl
  | grouping e => exact (expr_erase e).map fun _ he => congrArg Expr.grouping he
  | unary op e => exact (expr_erase e).map fun _ he => congrArg (Expr.unary op) he
  | binary l op r =>
    exact (expr_erase l).bind fun _ hl =>
      (expr_erase r).map fun _ hr => congrArg₂ (Expr.binary · op ·) hl hr
  | logical l op r =>
    exact (expr_erase l).bind fun _ hl =>
      (expr_erase r).map fun _ hr => congrArg₂ (Expr.logical · op ·) hl hr
  | var ref => exact (read_erase ref).map fun _ hr => congrArg Expr.var (reference_erase hr)
  | assign ref e =>
    exact (expr_erase e).bind fun _ he =>
      (bind_erase _ ref).map fun _ hr => congrArg₂ Expr.assign (reference_erase hr) he
  | call f paren args =>
    refine (expr_erase f).bind fun f' hf => (exprs_erase args).map fun args' ha => ?_
    rw [Expr.erase_call, Expr.erase_call, hf, ha]
  | get o x => exact (expr_erase o).map fun _ ho => congrArg (Expr.get · x) ho
  | set o x e =>
    exact (expr_erase e).bind fun _ he =>
      (expr_erase o).map fun _ ho => congrArg₂ (Expr.set · x ·) ho he
  | this ref => exact (this_erase ref).map fun _ hr => congrArg Expr.this (reference_erase hr)
  | super ref x =>
    exact (super_erase ref x).map fun _ hr => congrArg (Expr.super · x) (reference_erase hr)

theorem exprs_erase (es : List (Expr Mark)) :
    Gives (fun es' => es'.map Expr.erase = es.map Expr.erase) (exprs es) := by
  cases es with
  | nil => exact .pure rfl
  | cons e es =>
    exact (expr_erase e).bind fun _ he => (exprs_erase es).map fun _ hes => congrArg₂ List.cons he hes
end

theorem expr?_erase (o : Option (Expr Mark)) :
    Gives (fun o' => o'.map Expr.erase = o.map Expr.erase) (expr? o) := by
  cases o with
  | none => exact .pure rfl
  | some e => exact (expr_erase e).map fun _ he => congrArg some he

theorem superclass_erase (x : Token) (sup : Option (Reference Mark)) :
    Gives (fun sup' => sup'.map (Reference.map (fun _ => ()) id) =
      sup.map (Reference.map (fun _ => ()) id)) (superclass x sup) := by
  cases sup with
  | none => exact .pure rfl
  | some ref =>
    have hrest : Gives (fun sup' => sup'.map (Reference.map (fun _ => ()) id) =
        (some ref).map (Reference.map (fun _ => ()) id)) (do
          modify fun r => { r with home := .derived }
          let ref ← read ref
          begin
          mark "super" true
          return some ref) :=
      .after fun _ => (read_erase ref).bind fun _ hr =>
        .after fun _ => .after fun _ => .pure (congrArg some (reference_erase hr))
    rw [superclass]
    split
    · exact .after fun _ => hrest
    · exact hrest

mutual
theorem stmt_erase (s : Stmt Mark) : Gives (fun s' => s'.erase = s.erase) (stmt s) := by
  cases s with
  | expression e => exact (expr_erase e).map fun _ he => congrArg Stmt.expression he
  | print e => exact (expr_erase e).map fun _ he => congrArg Stmt.print he
  | varDecl x init =>
    exact .after fun _ => (expr?_erase init).bind fun _ hi =>
      .after fun _ => .pure (congrArg (Stmt.varDecl x) hi)
  | block body =>
    refine .after fun _ => (stmts_erase body).bind fun body' hb => .after fun _ => .pure ?_
    rw [Stmt.erase_block, Stmt.erase_block, hb]
  | ifThen c s =>
    exact (expr_erase c).bind fun _ hc => (stmt_erase s).map fun _ hs => congrArg₂ Stmt.ifThen hc hs
  | ifElse c s t =>
    refine (expr_erase c).bind fun c' hc => (stmt_erase s).bind fun s' hs =>
      (stmt_erase t).map fun t' ht => ?_
    change Stmt.ifElse c'.erase s'.erase t'.erase = _
    rw [hc, hs, ht]
    rfl
  | loop c s =>
    exact (expr_erase c).bind fun _ hc => (stmt_erase s).map fun _ hs => congrArg₂ Stmt.loop hc hs
  | funDecl r =>
    exact .after fun _ => .after fun _ => (routine_erase .function r).map fun _ hr =>
      congrArg Stmt.funDecl hr
  | ret word value =>
    exact .after fun _ => (expr?_erase value).map fun _ hv => congrArg (Stmt.ret word) hv
  | classDecl x sup methods =>
    refine .after fun _ => .after fun _ => .after fun _ => .after fun _ =>
      (superclass_erase x sup).bind fun sup' hsup => .after fun _ => .after fun _ =>
      (routines_erase methods).bind fun methods' hm => .after fun _ => ?_
    have hrest : Gives (fun s' => s'.erase = (Stmt.classDecl x sup methods).erase)
        (Pure.pure (Stmt.classDecl x sup' methods')) := by
      apply Gives.pure
      rw [Stmt.erase_classDecl, Stmt.erase_classDecl, hsup, hm]
    split
    · exact .after fun _ => .after fun _ => hrest
    · exact .after fun _ => hrest

theorem stmts_erase (ss : List (Stmt Mark)) :
    Gives (fun ss' => ss'.map Stmt.erase = ss.map Stmt.erase) (stmts ss) := by
  cases ss with
  | nil => exact .pure rfl
  | cons s ss =>
    exact (stmt_erase s).bind fun _ hs => (stmts_erase ss).map fun _ hss => congrArg₂ List.cons hs hss

theorem routine_erase (kind : Body) (r : Routine (Stmt Mark)) :
    Gives (fun r' => r'.erase = r.erase) (routine kind r) := by
  obtain ⟨x, ps, body⟩ := r
  refine .after fun _ => .after fun _ => .after fun _ => .after fun _ =>
    (stmts_erase body).bind fun body' hb => .after fun _ => .after fun _ => .pure ?_
  rw [Routine.erase_mk, Routine.erase_mk, hb]

theorem routines_erase (rs : List (Routine (Stmt Mark))) :
    Gives (fun rs' => rs'.map Routine.erase = rs.map Routine.erase) (routines rs) := by
  cases rs with
  | nil => exact .pure rfl
  | cons r rs =>
    exact (routine_erase _ r).bind fun _ hr =>
      (routines_erase rs).map fun _ hrs => congrArg₂ List.cons hr hrs
end

end Resolver

namespace Resolved

theorem ofProgram_erase (ss : List (Stmt Mark)) :
    (ofProgram ss).tree.map Stmt.erase = ss.map Stmt.erase :=
  Resolver.stmts_erase ss Resolver.initial

end Resolved

end LoxLang
