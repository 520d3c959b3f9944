import LoxLang.Proofs.Resolver.Rules
import LoxLang.Proofs.Resolver.Run

namespace LoxLang

theorem Dict.set_set {α : Type} (x : Text) (a b : α) (d : Dict α) :
    (d.set x a).set x b = d.set x b := by
  induction d with
  | nil => simp [set]
  | cons e d ih =>
    by_cases h : e.1 = x
    · simp [set, h]
    · simp [set, h, ih]

namespace Resolver
set_option autoImplicit true

/-- The scopes after these names are declared and ready in the innermost one. Global names are not
kept. -/
def readied (xs : List Text) : List Scope → List Scope
  | [] => []
  | s :: ss => xs.foldl (fun s x => Dict.set x true s) s :: ss

theorem readied_nil (ss : List Scope) : readied [] ss = ss := by
  cases ss <;> rfl

theorem readied_append (xs ys : List Text) (ss : List Scope) :
    readied (xs ++ ys) ss = readied ys (readied xs ss) := by
  cases ss with
  | nil => rfl
  | cons s ss => simp only [readied, List.foldl_append]

theorem readied_tail (xs : List Text) (ss : List Scope) : (readied xs ss).tail = ss.tail := by
  cases ss <;> rfl

theorem readied_length (xs : List Text) (ss : List Scope) :
    (readied xs ss).length = ss.length := by
  cases ss <;> rfl

theorem get?_ready (xs : List Text) (s : Scope) (x : Text) :
    Dict.get? (xs.foldl (fun s x => Dict.set x true s) s) x =
      if x ∈ xs then some true else Dict.get? s x := by
  induction xs generalizing s with
  | nil => rfl
  | cons y xs ih =>
    rw [List.foldl_cons, ih]
    by_cases hxs : x ∈ xs
    · rw [if_pos hxs, if_pos (List.mem_cons_of_mem y hxs)]
    · rw [if_neg hxs]
      by_cases hy : x = y
      · subst hy
        rw [if_pos List.mem_cons_self, Dict.get?_set_self]
      · rw [if_neg (by simp [hy, hxs]), Dict.get?_set_of_ne _ _ hy]

/-- Between two states these names are declared, and nothing else that counts for what follows has
changed. -/
structure Leaves (xs : List Text) (r r' : Resolver) : Prop where
  scopes : r'.scopes = readied xs r.scopes
  body : r'.body = r.body
  home : r'.home = r.home

theorem Leaves.of_scopes (hs : r'.scopes = r.scopes) (hb : r'.body = r.body)
    (hh : r'.home = r.home) : Leaves [] r r' :=
  ⟨hs.trans (readied_nil _).symm, hb, hh⟩

theorem Leaves.refl (r : Resolver) : Leaves [] r r := .of_scopes rfl rfl rfl

theorem Leaves.trans (h : Leaves xs r r') (h' : Leaves ys r' r'') : Leaves (xs ++ ys) r r'' := by
  refine ⟨?_, h'.body.trans h.body, h'.home.trans h.home⟩
  rw [readied_append, h'.scopes, h.scopes]

theorem Leaves.before (h : Leaves [] r r') (h' : Leaves xs r' r'') : Leaves xs r r'' := h.trans h'

theorem Leaves.same (h : Leaves [] r r') : r'.scopes = r.scopes :=
  h.scopes.trans (readied_nil _)

theorem report_leaves (t : Token) (message : Text) (r : Resolver) :
    Leaves [] r (report t message r).2 := .of_scopes rfl rfl rfl

theorem bind_leaves (node : Expr Mark) (ref : Reference Mark) (r : Resolver) :
    Leaves [] r (bind node ref r).2 := by
  obtain ⟨bs, hb⟩ := bind_run node ref r
  rw [hb]
  exact .of_scopes rfl rfl rfl

theorem told_leaves (c : Prop) [Decidable c] (t : Token) (message : Text) (r : Resolver) :
    Leaves [] r (if c then (report t message r).2 else r) := by
  split
  · exact report_leaves t message r
  · exact .refl r

theorem read_leaves (ref : Reference Mark) (r : Resolver) : Leaves [] r (read ref r).2 := by
  rw [read_run]
  exact (told_leaves _ _ _ r).before (bind_leaves _ _ _)

theorem this_leaves (ref : Reference Mark) (r : Resolver) : Leaves [] r (this ref r).2 := by
  unfold this
  rw [run_bind, run_get]
  dsimp only
  cases r.home with
  | none => exact report_leaves _ _ r
  | plain | derived => exact bind_leaves _ _ r

theorem super_leaves (ref : Reference Mark) (x : Token) (r : Resolver) :
    Leaves [] r (super ref x r).2 := by
  unfold super
  rw [run_bind, run_get]
  dsimp only
  cases r.home with
  | none | plain => exact report_leaves _ _ r
  | derived => exact bind_leaves _ _ r

theorem checkReturn_leaves (word : Token) (value : Option (Expr Mark)) (r : Resolver) :
    Leaves [] r (checkReturn word value r).2 := by
  rw [checkReturn_run]
  have hfirst := told_leaves (r.body = .none) word "Can't return from top-level code." r
  split
  · exact hfirst.before (report_leaves _ _ _)
  · exact hfirst

theorem mark_scopes (x : Text) (r : Resolver) :
    (mark x true r).2.scopes = readied [x] r.scopes := by
  cases hs : r.scopes with
  | nil =>
    rw [mark_nil hs, hs]
    rfl
  | cons s ss =>
    rw [mark_cons hs]
    rfl

theorem mark_body (x : Text) (b : Bool) (r : Resolver) :
    (mark x b r).2.body = r.body ∧ (mark x b r).2.home = r.home := by
  cases hs : r.scopes with
  | nil =>
    rw [mark_nil hs]
    exact ⟨rfl, rfl⟩
  | cons s ss =>
    rw [mark_cons hs]
    exact ⟨rfl, rfl⟩

theorem mark_leaves (x : Text) (r : Resolver) : Leaves [x] r (mark x true r).2 :=
  ⟨mark_scopes x r, (mark_body x true r).1, (mark_body x true r).2⟩

theorem mark_again (x : Text) {r r' : Resolver} (h : r'.scopes = (mark x false r).2.scopes) :
    (mark x true r').2.scopes = readied [x] r.scopes := by
  rw [mark_scopes, h]
  cases hs : r.scopes with
  | nil => rw [mark_nil hs, hs]
  | cons s ss =>
    rw [mark_cons hs]
    simp only [readied, List.foldl_cons, List.foldl_nil, Dict.set_set]

theorem declare_scopes (t : Token) (r : Resolver) :
    (declare t r).2.scopes = (mark t.lexeme false r).2.scopes ∧
      (declare t r).2.body = r.body ∧ (declare t r).2.home = r.home := by
  rw [declare_run]
  split
  · have hreport : ((report t "Already a variable with this name in this scope." r).2).scopes =
        r.scopes := rfl
    refine ⟨?_, mark_body _ _ _⟩
    cases hs : r.scopes with
    | nil => rw [mark_nil hs, mark_nil (hreport.trans hs), hreport]
    | cons s ss => rw [mark_cons hs, mark_cons (hreport.trans hs)]
  · exact ⟨rfl, mark_body _ _ _⟩

/-- A name is declared before something is resolved and ready after it. -/
theorem define_leaves (t : Token) {r r' : Resolver} (h : Leaves [] (declare t r).2 r') :
    Leaves [t.lexeme] r (define t r').2 := by
  obtain ⟨hscopes, hbody, hhome⟩ := declare_scopes t r
  obtain ⟨hbody', hhome'⟩ := mark_body t.lexeme true r'
  refine ⟨mark_again _ (h.same.trans hscopes), ?_, ?_⟩
  · exact hbody'.trans (h.body.trans hbody)
  · exact hhome'.trans (h.home.trans hhome)

theorem params_leaves (ps : List Token) (r : Resolver) :
    Leaves (ps.map Token.lexeme) r (params ps r).2 := by
  induction ps generalizing r with
  | nil => exact .refl r
  | cons p ps ih => exact (define_leaves p (.refl _)).trans (ih _)

mutual
theorem expr_leaves (e : Expr Mark) (r : Resolver) : Leaves [] r (expr e r).2 := by
  cases e with
  | literal v => exact .refl r
  | grouping e | unary op e | get e x => exact expr_leaves e r
  | binary a op b | logical a op b => exact (expr_leaves a r).before (expr_leaves b _)
  | var ref => exact read_leaves ref r
  | assign ref e => exact (expr_leaves e r).before (bind_leaves _ _ _)
  | call f paren args => exact (expr_leaves f r).before (exprs_leaves args _)
  | set o x e => exact (expr_leaves e r).before (expr_leaves o _)
  | this ref => exact this_leaves ref r
  | super ref x => exact super_leaves ref x r

theorem exprs_leaves (es : List (Expr Mark)) (r : Resolver) : Leaves [] r (exprs es r).2 := by
  cases es with
  | nil => exact .refl r
  | cons e es => exact (expr_leaves e r).before (exprs_leaves es _)
end

theorem expr?_leaves (o : Option (Expr Mark)) (r : Resolver) : Leaves [] r (expr? o r).2 := by
  cases o with
  | none => exact .refl r
  | some e => exact expr_leaves e r

theorem Leaves.scope (h : Leaves xs (begin r).2 r') : Leaves [] r (finish r').2 := by
  apply Leaves.of_scopes
  · change r'.scopes.tail = r.scopes
    rw [h.scopes, readied_tail]
    rfl
  · exact h.body
  · exact h.home

/-- Where the methods of a class are resolved: in the scope of `this`, and around it that of `super` if
there is a superclass. -/
theorem superclass_leaves (name : Token) (sup : Option (Reference Mark)) (r : Resolver) :
    (superclass name sup r).2.scopes =
        (if sup.isSome then readied ["super"] ([] :: r.scopes) else r.scopes) ∧
      (superclass name sup r).2.body = r.body := by
  cases sup with
  | none => exact ⟨rfl, rfl⟩
  | some ref =>
    have htold := told_leaves (ref.name.lexeme = name.lexeme) ref.name
      "A class can't inherit from itself." r
    have hread := read_leaves ref (atSuperclass name ref r)
    have hbegun : (begin (read ref (atSuperclass name ref r)).2).2.scopes = [] :: r.scopes :=
      congrArg ([] :: ·) (hread.same.trans htold.same)
    rw [superclass_run]
    constructor
    · exact (mark_scopes _ _).trans (congrArg _ hbegun)
    · have hbody := (mark_body "super" true (begin (read ref (atSuperclass name ref r)).2).2).1
      exact hbody.trans (hread.body.trans htold.body)

theorem inClass_leaves (name : Token) (r : Resolver) :
    (inClass name r).scopes = readied [name.lexeme] r.scopes ∧ (inClass name r).body = r.body := by
  have h := define_leaves name (r := { r with home := .plain }) (.refl _)
  exact ⟨h.scopes, h.body⟩

theorem closeClass_leaves (name : Token) (methods : List (Routine (Stmt Mark))) {r r' : Resolver}
    {o : Option (Reference Distance)}
    (hm : ∀ r, Leaves [] r (routines methods r).2)
    (hs : r'.scopes = if o.isSome then readied ["super"] ([] :: r.scopes) else r.scopes)
    (hb : r'.body = r.body) :
    (closeClass name methods r.home (o, r')).2.scopes = r.scopes ∧
      (closeClass name methods r.home (o, r')).2.body = r.body := by
  have hthis := ((mark_leaves "this" (begin r').2).trans (hm _)).scope
  cases o with
  | none => exact ⟨hthis.same.trans hs, hthis.body.trans hb⟩
  | some ref =>
    refine ⟨?_, hthis.body.trans hb⟩
    change (finish (routines methods _).2).2.scopes.tail = _
    rw [hthis.same, hs]
    rfl

mutual
theorem stmt_leaves (s : Stmt Mark) (r : Resolver) : Leaves s.declares r (stmt s r).2 := by
  cases s with
  | expression e | print e => exact expr_leaves e r
  | varDecl x init => exact define_leaves x (expr?_leaves init _)
  | block body => exact (stmts_leaves body _).scope
  | ifThen c s | loop c s => exact (expr_leaves c r).before (stmt_leaves s _)
  | ifElse c s t =>
    exact (expr_leaves c r).before ((stmt_leaves s _).trans (stmt_leaves t _))
  | funDecl f =>
    have hname := define_leaves f.name (r := r) (.refl _)
    have h := hname.trans (routine_leaves .function f _)
    rwa [List.append_nil] at h
  | ret word value => exact (checkReturn_leaves word value r).before (expr?_leaves value _)
  | classDecl x sup methods =>
    obtain ⟨hscopes, hbody⟩ := inClass_leaves x r
    obtain ⟨hscopes', hbody'⟩ := superclass_leaves x sup (inClass x r)
    have hsome := superclass_isSome x sup (inClass x r)
    rw [← hsome] at hscopes'
    rw [classDecl_run]
    have hclosed := closeClass_leaves x methods (r := { inClass x r with home := r.home })
      (o := (superclass x sup (inClass x r)).1) (fun r => routines_leaves methods r)
      hscopes' hbody'
    exact ⟨hclosed.1.trans hscopes, hclosed.2.trans hbody, rfl⟩

theorem stmts_leaves (ss : List (Stmt Mark)) (r : Resolver) :
    Leaves (ss.flatMap Stmt.declares) r (stmts ss r).2 := by
  cases ss with
  | nil => exact .refl r
  | cons s ss => exact (stmt_leaves s r).trans (stmts_leaves ss _)

theorem routine_leaves (kind : Body) (f : Routine (Stmt Mark)) (r : Resolver) :
    Leaves [] r (routine kind f r).2 := by
  obtain ⟨name, ps, body⟩ := f
  have hinside := (params_leaves ps (begin { r with body := kind }).2).trans (stmts_leaves body _)
  have hleft := hinside.scope
  exact .of_scopes hleft.same rfl hleft.home

theorem routines_leaves (fs : List (Routine (Stmt Mark))) (r : Resolver) :
    Leaves [] r (routines fs r).2 := by
  cases fs with
  | nil => exact .refl r
  | cons f fs => exact (routine_leaves _ f r).before (routines_leaves fs _)
end

end Resolver

end LoxLang
