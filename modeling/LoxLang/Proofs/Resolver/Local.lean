import LoxLang.Proofs.Resolver.Reports

namespace LoxLang

open Resolver

namespace Stmt
set_option autoImplicit true

variable {μ : Type}

/-- The text of a statement around a statement in it. -/
inductive Context (μ : Type) where
  | hole
  | block (before : List (Stmt μ)) (C : Context μ) (after : List (Stmt μ))
  | ifThen (c : Expr μ) (C : Context μ)
  | ifYes (c : Expr μ) (C : Context μ) (t : Stmt μ)
  | ifNo (c : Expr μ) (s : Stmt μ) (C : Context μ)
  | loop (c : Expr μ) (C : Context μ)
  | funDecl (name : Token) (params : List Token) (before : List (Stmt μ)) (C : Context μ)
      (after : List (Stmt μ))
  | method (name : Token) (sup : Option (Reference μ)) (fs : List (Routine (Stmt μ)))
      (method : Token) (params : List Token) (before : List (Stmt μ)) (C : Context μ)
      (after : List (Stmt μ)) (gs : List (Routine (Stmt μ)))

/-- The statement with the hole filled. -/
def Context.fill (s : Stmt μ) : Context μ → Stmt μ
  | hole => s
  | block before C after => .block (before ++ C.fill s :: after)
  | ifThen c C => .ifThen c (C.fill s)
  | ifYes c C t => .ifElse c (C.fill s) t
  | ifNo c t C => .ifElse c t (C.fill s)
  | loop c C => .loop c (C.fill s)
  | funDecl name ps before C after => .funDecl ⟨name, ps, before ++ C.fill s :: after⟩
  | method x sup fs name ps before C after gs =>
    .classDecl x sup (fs ++ ⟨name, ps, before ++ C.fill s :: after⟩ :: gs)

/-- What a statement declares, from what the statement in its hole does. -/
def Context.declares (xs : List Text) : Context μ → List Text
  | hole => xs
  | block _ _ _ => []
  | ifThen _ C | loop _ C => C.declares xs
  | ifYes _ C t => C.declares xs ++ t.declares
  | ifNo _ t C => t.declares ++ C.declares xs
  | funDecl name _ _ _ _ => [name.lexeme]
  | method x _ _ _ _ _ _ _ _ => [x.lexeme]

theorem Context.declares_fill (C : Context μ) (s : Stmt μ) :
    (C.fill s).declares = C.declares s.declares := by
  induction C with
  | hole | block | funDecl | method => rfl
  | ifThen c C ih | loop c C ih => exact ih
  | ifYes c C t ih => exact congrArg (· ++ _) ih
  | ifNo c t C ih => exact congrArg (_ ++ ·) ih

theorem placesAll_append (K : Surroundings) (ss ts : List (Stmt μ)) :
    placesAll K (ss ++ ts) =
      placesAll K ss ++ placesAll (K.declare (ss.flatMap declares)) ts := by
  induction ss generalizing K with
  | nil => simp [placesAll, Surroundings.declare_nil]
  | cons s ss ih =>
    simp only [List.cons_append, placesAll, ih, Surroundings.declare_declare, List.flatMap_cons,
      List.append_assoc]

theorem methodPlaces_append (K : Surroundings) (fs gs : List (Routine (Stmt μ))) :
    methodPlaces K (fs ++ gs) = methodPlaces K fs ++ methodPlaces K gs := by
  induction fs with
  | nil => simp [methodPlaces]
  | cons f fs ih => simp only [List.cons_append, methodPlaces, ih, List.append_assoc]

/-- The places of a text with a hole are those around it, which depend on the statement in the hole
through what it declares, and those of the statement, which depend on the text through what is around
the hole. -/
def Splits (f : Stmt μ → List Place) : Prop :=
  ∃ (K : Surroundings) (before : List Place) (after : List Text → List Place),
    ∀ s, f s = before ++ s.places K ++ after s.declares

theorem Splits.prepend (h : Splits f) (ps : List Place) :
    Splits fun s : Stmt μ => ps ++ f s := by
  obtain ⟨K, before, after, hf⟩ := h
  exact ⟨K, ps ++ before, after, fun s => by simp only [hf, List.append_assoc]⟩

theorem Splits.append (h : Splits f) (g : List Text → List Place) :
    Splits fun s : Stmt μ => f s ++ g s.declares := by
  obtain ⟨K, before, after, hf⟩ := h
  exact ⟨K, before, fun xs => after xs ++ g xs, fun s => by simp only [hf, List.append_assoc]⟩

theorem Splits.among (C : Context μ) (hC : ∀ K, Splits fun s => (C.fill s).places K)
    (K : Surroundings) (before after : List (Stmt μ)) :
    Splits fun s => placesAll K (before ++ C.fill s :: after) := by
  have := ((hC (K.declare (before.flatMap declares))).append fun xs =>
    placesAll ((K.declare (before.flatMap declares)).declare (C.declares xs)) after).prepend
      (placesAll K before)
  simpa only [placesAll_append, placesAll, C.declares_fill] using this

theorem Context.splits (C : Context μ) (K : Surroundings) :
    Splits fun s => (C.fill s).places K := by
  induction C generalizing K with
  | hole => exact ⟨K, [], fun _ => [], fun s => by simp [fill]⟩
  | block before C after ih => exact .among C ih K.enter before after
  | ifThen c C ih | loop c C ih => exact (ih K).prepend (c.places K)
  | ifYes c C t ih =>
    have := ((ih K).prepend (c.places K)).append fun xs => t.places (K.declare (C.declares xs))
    simpa only [fill, places, C.declares_fill] using this
  | ifNo c t C ih =>
    exact (ih (K.declare t.declares)).prepend (c.places K ++ t.places K)
  | funDecl name ps before C after ih =>
    have := (Splits.among C ih ((K.inRoutine .function).declare (ps.map Token.lexeme)) before
      after).prepend (⟨K, .declaration name⟩ :: paramPlaces (K.inRoutine .function) ps)
    simpa only [fill, places, routinePlaces, List.cons_append] using this
  | method x sup fs name ps before C after gs ih =>
    have hbody := (Splits.among C ih
      (((K.inClass sup.isSome).inRoutine (methodBody name)).declare (ps.map Token.lexeme)) before
      after).prepend (paramPlaces ((K.inClass sup.isSome).inRoutine (methodBody name)) ps)
    have := (hbody.append fun _ => methodPlaces (K.inClass sup.isSome) gs).prepend
      (⟨K, .declaration x⟩ :: parentPlaces (K.declare [x.lexeme]) x sup ++
        methodPlaces (K.inClass sup.isSome) fs)
    simpa only [fill, places, methodPlaces_append, methodPlaces, routinePlaces, List.cons_append,
      List.append_assoc] using this

end Stmt

namespace Resolved

/-- Resolving a program reports a fault for each of its places that breaks a rule, in order, with the
rule's message at the place's token. It reports nothing just if no place breaks a rule. If a statement
anywhere in a program is replaced by one with the same declarations, then its own faults change and
nothing else that is reported. -/
theorem ofProgram_diagnostics (program : List (Stmt Mark)) :
    (ofProgram program).diagnostics = faults (Stmt.placesAll .outermost program) ∧
      (∀ (p : Place) (d : Diagnostic), p.fault? = some d ↔ ∃ b, Place.Breaks p.around p.site b ∧
        d = .atToken .resolving p.site.token b.message) ∧
      ((ofProgram program).diagnostics = [] ↔
        ∀ p ∈ Stmt.placesAll .outermost program, ∀ b, ¬ Place.Breaks p.around p.site b) ∧
      ∀ (C : Stmt.Context Mark) (before after : List (Stmt Mark)),
        ∃ (K : Surroundings) (ds : List Diagnostic) (es : List Text → List Diagnostic), ∀ s,
        (ofProgram (before ++ C.fill s :: after)).diagnostics =
          ds ++ faults (s.places K) ++ es s.declares := by
  refine ⟨ofProgram_faults program, fun p d => ?_, ?_, fun C before after => ?_⟩
  · rw [Place.fault?, Option.map_eq_some_iff]
    exact exists_congr fun b => and_congr Place.breach?_eq_some eq_comm
  · rw [ofProgram_faults, faults_eq_nil]
  · obtain ⟨K, ps, qs, hsplit⟩ := Stmt.Splits.among C C.splits .outermost before after
    refine ⟨K, faults ps, fun xs => faults (qs xs), fun s => ?_⟩
    rw [ofProgram_faults,
      show Stmt.placesAll .outermost (before ++ C.fill s :: after) = _ from hsplit s, faults_append, faults_append]

end Resolved

end LoxLang
