import LoxLang.Proofs.Resolver.Alike
import LoxLang.Proofs.Resolver.Reports

namespace LoxLang

namespace Resolver
set_option autoImplicit true

theorem equal_spelled : Spelled (Eq : Token → Token → Prop) := by
  rintro t _ rfl
  exact ⟨rfl, rfl⟩

theorem reference_eq {ref ref' : Reference Distance} (h : ref.Alike Eq Eq ref') : ref' = ref := by
  obtain ⟨x, m⟩ := ref
  obtain ⟨x', m'⟩ := ref'
  obtain ⟨rfl, rfl⟩ := h
  rfl

abbrev Agree (P P' : Resolve α) : Prop := RunsAlike (fun a b => b = a) P P'

theorem Agree.of {A : α → α → Prop} {P P' : Resolve α} (h : RunsAlike A P P')
    (hA : ∀ a b, A a b → b = a) : Agree P P' := by
  intro r r' hr
  obtain ⟨ha, hr⟩ := h r r' hr
  exact ⟨hA _ _ ha, hr⟩

theorem Agree.map {P P' : Resolve α} (h : Agree P P') (f : α → β) :
    Agree (P >>= fun a => Pure.pure (f a)) (P' >>= fun a => Pure.pure (f a)) :=
  h.bind fun _ _ he => .pure (congrArg f he)

theorem Agree.then {P P' : Resolve α} {Q Q' : α → Resolve β} (h : Agree P P')
    (hQ : ∀ a, Agree (Q a) (Q' a)) : Agree (P >>= Q) (P' >>= Q') :=
  h.bind fun a _ he => he ▸ hQ a

theorem Agree.after {P P' : Resolve α} {Q Q' : α → Resolve β} (h : RunsAlike Anyhow P P')
    (hQ : ∀ a a', Agree (Q a) (Q' a')) : Agree (P >>= Q) (P' >>= Q') :=
  h.bind fun a a' _ => hQ a a'

variable (f : Mark → Mark)

theorem bind_map (ref : Reference Mark) (node node' : Expr Mark) :
    Agree (bind node ref) (bind node' (ref.map f id)) :=
  .of (bind_alike equal_spelled rfl node node') fun _ _ => reference_eq

theorem read_map (ref : Reference Mark) : Agree (read ref) (read (ref.map f id)) :=
  .of (read_alike equal_spelled rfl) fun _ _ => reference_eq

theorem this_map (ref : Reference Mark) : Agree (this ref) (this (ref.map f id)) :=
  .of (this_alike equal_spelled rfl) fun _ _ => reference_eq

theorem super_map (ref : Reference Mark) (x : Token) :
    Agree (super ref x) (super (ref.map f id) x) :=
  .of (super_alike (R := Eq) equal_spelled (show ref.name = (ref.map f id).name from rfl) x x)
    fun _ _ => reference_eq

mutual
theorem expr_map (e : Expr Mark) : Agree (expr e) (expr (e.map f id)) := by
  cases e with
  | literal v => exact .pure rfl
  | grouping e => exact (expr_map e).map _
  | unary op e => exact (expr_map e).map _
  | binary l op r => exact (expr_map l).then fun _ => (expr_map r).map _
  | logical l op r => exact (expr_map l).then fun _ => (expr_map r).map _
  | var ref => exact (read_map f ref).map _
  | assign ref e => exact (expr_map e).then fun _ => (bind_map f ref _ _).map _
  | call g paren args => exact (expr_map g).then fun _ => (exprs_map args).map _
  | get o x => exact (expr_map o).map _
  | set o x e => exact (expr_map e).then fun _ => (expr_map o).map _
  | this ref => exact (this_map f ref).map _
  | super ref x => exact (super_map f ref x).map _

theorem exprs_map (es : List (Expr Mark)) : Agree (exprs es) (exprs (Expr.mapAll f id es)) := by
  cases es with
  | nil => exact .pure rfl
  | cons e es => exact (expr_map e).then fun _ => (exprs_map es).map _
end

theorem expr?_map (o : Option (Expr Mark)) :
    Agree (expr? o) (expr? (o.map (Expr.map f id))) := by
  cases o with
  | none => exact .pure rfl
  | some e => exact (expr_map f e).map _

theorem params_map (ps : List Token) : RunsAlike Anyhow (params ps) (params ps) :=
  params_alike equal_spelled (List.forall₂_same.2 fun _ _ => rfl)

theorem checkReturn_map (word : Token) (o : Option (Expr Mark)) :
    RunsAlike Anyhow (checkReturn word o) (checkReturn word (o.map (Expr.map f id))) := by
  have hsome : (o.map (Expr.map f id)).isSome = o.isSome := Option.isSome_map
  unfold checkReturn
  rw [hsome]
  exact checkReturn_alike word word (Expr.alike?_self o fun t _ => (rfl : t = t))

theorem superclass_map (x : Token) (sup : Option (Reference Mark)) :
    Agree (superclass x sup) (superclass x (sup.map (Reference.map f id))) := by
  have hsup : Option.Rel (Reference.Alike Eq Anyhow) sup (sup.map (Reference.map f id)) := by
    cases sup with
    | none => exact .none
    | some ref => exact .some ⟨rfl, trivial⟩
  refine .of (superclass_alike equal_spelled rfl hsup) ?_
  intro _ _ h
  cases h with
  | none => rfl
  | some href => exact congrArg some (reference_eq href)

mutual
theorem stmt_map (s : Stmt Mark) : Agree (stmt s) (stmt (s.map f id)) := by
  cases s with
  | expression e => exact (expr_map f e).map _
  | print e => exact (expr_map f e).map _
  | varDecl x init =>
    apply Agree.after (declare_alike equal_spelled rfl)
    intro _ _
    apply (expr?_map f init).then
    intro _
    exact Agree.after (define_alike equal_spelled rfl) fun _ _ => .pure rfl
  | block body =>
    apply Agree.after begin_alike
    intro _ _
    apply (stmts_map body).then
    intro _
    exact Agree.after finish_alike fun _ _ => .pure rfl
  | ifThen c s => exact (expr_map f c).then fun _ => (stmt_map s).map _
  | ifElse c s t =>
    exact (expr_map f c).then fun _ => (stmt_map s).then fun _ => (stmt_map t).map _
  | loop c s => exact (expr_map f c).then fun _ => (stmt_map s).map _
  | funDecl r =>
    obtain ⟨x, ps, body⟩ := r
    apply Agree.after (declare_alike equal_spelled rfl)
    intro _ _
    apply Agree.after (define_alike equal_spelled rfl)
    intro _ _
    exact (routine_map .function ⟨x, ps, body⟩).map _
  | ret word value =>
    apply Agree.after (checkReturn_map f word value)
    intro _ _
    exact (expr?_map f value).map _
  | classDecl x sup methods =>
    rw [Stmt.map, stmt, stmt]
    apply RunsAlike.get
    intro r r' hr
    refine RunsAlike.change (fun r r' hr => ⟨hr.scopes, hr.body, rfl, hr.faults⟩) ?_
    apply Agree.after (declare_alike equal_spelled rfl)
    intro _ _
    apply Agree.after (define_alike equal_spelled rfl)
    intro _ _
    apply (superclass_map f x sup).then
    intro _
    apply Agree.after begin_alike
    intro _ _
    apply Agree.after (mark_alike _ _)
    intro _ _
    apply (routines_map methods).then
    intro _
    apply Agree.after finish_alike
    intro _ _
    have hend (s : Stmt Distance) : Agree
        (do
          modify fun a => { a with home := r.home }
          return s)
        (do
          modify fun a => { a with home := r'.home }
          return s) :=
      RunsAlike.change (fun a a' ha => ⟨ha.scopes, ha.body, hr.home, ha.faults⟩) (.pure rfl)
    exact .ite (finish_alike.bind fun _ _ _ => hend _) (hend _)

theorem stmts_map (ss : List (Stmt Mark)) : Agree (stmts ss) (stmts (Stmt.mapAll f id ss)) := by
  cases ss with
  | nil => exact .pure rfl
  | cons s ss => exact (stmt_map s).then fun _ => (stmts_map ss).map _

theorem routine_map (kind : Body) (r : Routine (Stmt Mark)) :
    Agree (routine kind r) (routine kind (Stmt.mapRoutine f id r)) := by
  obtain ⟨x, ps, body⟩ := r
  rw [Stmt.mapRoutine, List.map_id, routine, routine]
  apply RunsAlike.get
  intro r r' hr
  refine RunsAlike.change (fun r r' hr => ⟨hr.scopes, rfl, hr.home, hr.faults⟩) ?_
  apply Agree.after begin_alike
  intro _ _
  apply Agree.after (params_map ps)
  intro _ _
  apply (stmts_map body).then
  intro _
  apply Agree.after finish_alike
  intro _ _
  exact RunsAlike.change (fun a a' ha => ⟨ha.scopes, hr.body, ha.home, ha.faults⟩) (.pure rfl)

theorem routines_map (rs : List (Routine (Stmt Mark))) :
    Agree (routines rs) (routines (Stmt.mapRoutines f id rs)) := by
  cases rs with
  | nil => exact .pure rfl
  | cons r rs =>
    obtain ⟨x, ps, body⟩ := r
    exact (routine_map _ ⟨x, ps, body⟩).then fun _ => (routines_map rs).map _
end

end Resolver

open Resolver

section
set_option autoImplicit true
variable {μ ν : Type} (f : μ → ν)

mutual
theorem Expr.places_map (K : Surroundings) (e : Expr μ) : (e.map f id).places K = e.places K := by
  cases e with
  | literal | var | this | super => rfl
  | grouping e | unary _ e | assign _ e | get e _ => exact Expr.places_map K e
  | binary l op r | logical l op r =>
    exact congrArg₂ (· ++ ·) (Expr.places_map K l) (Expr.places_map K r)
  | call g paren args =>
    exact congrArg₂ (· ++ ·) (Expr.places_map K g) (Expr.placesAll_map K args)
  | set o x v => exact congrArg₂ (· ++ ·) (Expr.places_map K v) (Expr.places_map K o)

theorem Expr.placesAll_map (K : Surroundings) (es : List (Expr μ)) :
    Expr.placesAll K (Expr.mapAll f id es) = Expr.placesAll K es := by
  cases es with
  | nil => rfl
  | cons e es => exact congrArg₂ (· ++ ·) (Expr.places_map K e) (Expr.placesAll_map K es)
end

theorem Expr.places?_map (K : Surroundings) (o : Option (Expr μ)) :
    Expr.places? K (o.map (Expr.map f id)) = Expr.places? K o := by
  cases o with
  | none => rfl
  | some e => exact Expr.places_map f K e

theorem Stmt.declares_map (s : Stmt μ) : (s.map f id).declares = s.declares := by
  cases s with
  | ifThen c s | loop c s => exact Stmt.declares_map s
  | ifElse c s t => exact congrArg₂ (· ++ ·) (Stmt.declares_map s) (Stmt.declares_map t)
  | funDecl r =>
    obtain ⟨x, ps, body⟩ := r
    rfl
  | expression | print | varDecl | block | ret | classDecl => rfl

theorem Stmt.parentPlaces_map (K : Surroundings) (x : Token) (sup : Option (Reference μ)) :
    Stmt.parentPlaces K x (sup.map (Reference.map f id)) = Stmt.parentPlaces K x sup := by
  cases sup <;> rfl

mutual
theorem Stmt.places_map (K : Surroundings) (s : Stmt μ) : (s.map f id).places K = s.places K := by
  cases s with
  | expression e | print e => exact Expr.places_map f K e
  | varDecl x init => exact congrArg (_ :: ·) (Expr.places?_map f (K.initializing x.lexeme) init)
  | block body => exact Stmt.placesAll_map K.enter body
  | ifThen c s | loop c s =>
    exact congrArg₂ (· ++ ·) (Expr.places_map f K c) (Stmt.places_map K s)
  | ifElse c s t =>
    simp only [Stmt.map, Stmt.places, Expr.places_map, Stmt.places_map, Stmt.declares_map]
  | funDecl r =>
    obtain ⟨x, ps, body⟩ := r
    exact congrArg (⟨K, .declaration x⟩ :: ·) (Stmt.routinePlaces_map K .function ⟨x, ps, body⟩)
  | ret word value => simp only [Stmt.map, Stmt.places, Expr.places?_map, Option.isSome_map, id]
  | classDecl x sup methods =>
    simp only [Stmt.map, Stmt.places, Stmt.parentPlaces_map, Option.isSome_map, id,
      Stmt.methodPlaces_map _ methods]

theorem Stmt.placesAll_map (K : Surroundings) (ss : List (Stmt μ)) :
    Stmt.placesAll K (Stmt.mapAll f id ss) = Stmt.placesAll K ss := by
  cases ss with
  | nil => rfl
  | cons s ss =>
    simp only [Stmt.mapAll, Stmt.placesAll, Stmt.places_map K s, Stmt.declares_map,
      Stmt.placesAll_map _ ss]

theorem Stmt.routinePlaces_map (K : Surroundings) (kind : Body) (r : Routine (Stmt μ)) :
    Stmt.routinePlaces K kind (Stmt.mapRoutine f id r) = Stmt.routinePlaces K kind r := by
  obtain ⟨x, ps, body⟩ := r
  simp only [Stmt.mapRoutine, Stmt.routinePlaces, List.map_id, Stmt.placesAll_map _ body]

theorem Stmt.methodPlaces_map (K : Surroundings) (rs : List (Routine (Stmt μ))) :
    Stmt.methodPlaces K (Stmt.mapRoutines f id rs) = Stmt.methodPlaces K rs := by
  cases rs with
  | nil => rfl
  | cons r rs =>
    obtain ⟨x, ps, body⟩ := r
    exact congrArg₂ (· ++ ·) (Stmt.routinePlaces_map K (methodBody x) ⟨x, ps, body⟩)
      (Stmt.methodPlaces_map K rs)
end

end

namespace Resolved

theorem ofProgram_eq {ss ss' : List (Stmt Mark)} (h : ss'.map Stmt.erase = ss.map Stmt.erase) :
    (ofProgram ss').tree = (ofProgram ss).tree ∧
      (ofProgram ss').diagnostics = (ofProgram ss).diagnostics := by
  constructor
  · let unmark (_ : Mark) : Mark := 0
    have herased (ss : List (Stmt Mark)) :
        Stmt.mapAll unmark id ss = (ss.map Stmt.erase).map (Stmt.map (fun _ => 0) id) := by
      rw [Stmt.mapAll_eq, List.map_map]
      exact List.map_congr_left fun s _ => (Stmt.map_map (fun _ => ()) (fun _ => 0) id id s).symm
    have hmap (ss : List (Stmt Mark)) := (stmts_map unmark ss initial initial (.refl _)).1
    have hsame : Stmt.mapAll unmark id ss' = Stmt.mapAll unmark id ss := by
      rw [herased, herased, h]
    exact (hmap ss').symm.trans ((congrArg (fun ss => (stmts ss initial).1) hsame).trans (hmap ss))
  · have herased (ss : List (Stmt Mark)) :
        Stmt.placesAll .outermost (ss.map Stmt.erase) = Stmt.placesAll .outermost ss := by
      have := Stmt.placesAll_map (fun _ => ()) .outermost ss
      rwa [Stmt.mapAll_eq] at this
    rw [ofProgram_faults, ofProgram_faults, ← herased, h, herased]

end Resolved

end LoxLang
