import LoxLang.Proofs.Grammar

namespace LoxLang
set_option autoImplicit true

def Token.Kind.Prefixes (k : Token.Kind) : Prop := k = .bang ∨ k = .minus

/-- The kinds of operators with two operands, of which both are evaluated. -/
def Token.Kind.Combines (k : Token.Kind) : Prop :=
  k ∈ [Token.Kind.bangEqual, .equalEqual, .greater, .greaterEqual, .less, .lessEqual, .minus, .plus,
    .slash, .star]

/-- The name that a statement declares in the scope around it. -/
def Stmt.declared? : Stmt μ → Option Text
  | .varDecl name _ => some name.lexeme
  | .funDecl r => some r.name.lexeme
  | .classDecl name _ _ => some name.lexeme
  | _ => none

mutual
/-- The tokens of an expression are among the given ones, and each is of a kind that fits. -/
def Expr.Formed (T : Token → Prop) : Expr μ → Prop
  | .literal _ => True
  | .grouping e => e.Formed T
  | .unary op e => (T op ∧ op.kind.Prefixes) ∧ e.Formed T
  | .binary l op r => (T op ∧ op.kind.Combines) ∧ l.Formed T ∧ r.Formed T
  | .logical l _ r => l.Formed T ∧ r.Formed T
  | .var ref => T ref.name ∧ ref.name.kind = .identifier
  | .assign ref e => (T ref.name ∧ ref.name.kind = .identifier) ∧ e.Formed T
  | .call f paren args => T paren ∧ f.Formed T ∧ Expr.FormedAll T args
  | .get o name => T name ∧ o.Formed T
  | .set o name e => T name ∧ o.Formed T ∧ e.Formed T
  | .this ref => T ref.name ∧ ref.name.kind = .this
  | .super ref method => (T ref.name ∧ ref.name.kind = .super) ∧ T method

def Expr.FormedAll (T : Token → Prop) : List (Expr μ) → Prop
  | [] => True
  | e :: es => e.Formed T ∧ Expr.FormedAll T es
end

def Expr.Formed? (T : Token → Prop) : Option (Expr μ) → Prop
  | none => True
  | some e => e.Formed T

/-- A name that no program declares; the machine binds it. -/
def Text.Reserved (x : Text) : Prop := x = "this" ∨ x = "super"

def Token.Names (T : Token → Prop) (t : Token) : Prop := T t ∧ t.kind = .identifier

mutual
/-- The tokens of a statement are among the given ones and of kinds that fit, and a branch or a body
of a loop declares nothing. -/
def Stmt.Formed (T : Token → Prop) : Stmt μ → Prop
  | .expression e | .print e => e.Formed T
  | .varDecl name init => name.Names T ∧ Expr.Formed? T init
  | .block body => Stmt.FormedAll T body
  | .ifThen c s => c.Formed T ∧ s.declared? = none ∧ s.Formed T
  | .ifElse c s t =>
    c.Formed T ∧ (s.declared? = none ∧ s.Formed T) ∧ (t.declared? = none ∧ t.Formed T)
  | .loop c s => c.Formed T ∧ s.declared? = none ∧ s.Formed T
  | .funDecl r => Stmt.FormedRoutine T r
  | .ret _ value => Expr.Formed? T value
  | .classDecl name sup methods =>
    name.Names T ∧ (∀ ref ∈ sup, ref.name.Names T) ∧ Stmt.FormedRoutines T methods

def Stmt.FormedAll (T : Token → Prop) : List (Stmt μ) → Prop
  | [] => True
  | s :: ss => s.Formed T ∧ Stmt.FormedAll T ss

def Stmt.FormedRoutine (T : Token → Prop) : Routine (Stmt μ) → Prop
  | ⟨name, params, body⟩ => name.Names T ∧ (∀ p ∈ params, p.Names T) ∧ Stmt.FormedAll T body

def Stmt.FormedRoutines (T : Token → Prop) : List (Routine (Stmt μ)) → Prop
  | [] => True
  | r :: rs => Stmt.FormedRoutine T r ∧ Stmt.FormedRoutines T rs
end

mutual
theorem Expr.formed_map (f : μ → ν) (e : Expr μ) : (e.map f id).Formed T ↔ e.Formed T := by
  cases e with
  | literal | var | this | super => rfl
  | grouping e => exact Expr.formed_map f e
  | unary op e => simp only [Expr.map, Expr.Formed, Expr.formed_map f e, id]
  | binary l op r | logical l op r =>
    simp only [Expr.map, Expr.Formed, Expr.formed_map f l, Expr.formed_map f r, id]
  | assign ref e => simp only [Expr.map, Expr.Formed, Expr.formed_map f e, Reference.map, id]
  | call g paren args =>
    simp only [Expr.map, Expr.Formed, Expr.formed_map f g, Expr.formedAll_map f args, id]
  | get o name => simp only [Expr.map, Expr.Formed, Expr.formed_map f o, id]
  | set o name e =>
    simp only [Expr.map, Expr.Formed, Expr.formed_map f o, Expr.formed_map f e, id]

theorem Expr.formedAll_map (f : μ → ν) (es : List (Expr μ)) :
    Expr.FormedAll T (Expr.mapAll f id es) ↔ Expr.FormedAll T es := by
  cases es with
  | nil => rfl
  | cons e es =>
    simp only [Expr.mapAll, Expr.FormedAll, Expr.formed_map f e, Expr.formedAll_map f es]
end

theorem Expr.formed?_map (f : μ → ν) (o : Option (Expr μ)) :
    Expr.Formed? T (o.map (Expr.map f id)) ↔ Expr.Formed? T o := by
  cases o with
  | none => rfl
  | some e => exact Expr.formed_map f e

theorem Stmt.declared?_map (f : μ → ν) (s : Stmt μ) : (s.map f id).declared? = s.declared? := by
  cases s with
  | funDecl r =>
    obtain ⟨name, params, body⟩ := r
    rfl
  | _ => rfl

mutual
theorem Stmt.formed_map (f : μ → ν) (s : Stmt μ) : (s.map f id).Formed T ↔ s.Formed T := by
  cases s with
  | expression e | print e => exact Expr.formed_map f e
  | varDecl name init => simp only [Stmt.map, Stmt.Formed, Expr.formed?_map f init, id]
  | block body => exact Stmt.formedAll_map f body
  | ifThen c s | loop c s =>
    simp only [Stmt.map, Stmt.Formed, Expr.formed_map f c, Stmt.declared?_map, Stmt.formed_map f s]
  | ifElse c s t =>
    simp only [Stmt.map, Stmt.Formed, Expr.formed_map f c, Stmt.declared?_map, Stmt.formed_map f s,
      Stmt.formed_map f t]
  | funDecl r => exact Stmt.formedRoutine_map f r
  | ret keyword value => exact Expr.formed?_map f value
  | classDecl name sup methods =>
    have hm := Stmt.formedRoutines_map (T := T) f methods
    cases sup with
    | none =>
      simp only [Stmt.map, Stmt.Formed, hm, Option.map_none, Option.mem_def, reduceCtorEq,
        false_implies, implies_true, id]
    | some ref =>
      simp only [Stmt.map, Stmt.Formed, hm, Option.map_some, Reference.map, id, Option.mem_def,
        Option.some.injEq, forall_eq']

theorem Stmt.formedAll_map (f : μ → ν) (ss : List (Stmt μ)) :
    Stmt.FormedAll T (Stmt.mapAll f id ss) ↔ Stmt.FormedAll T ss := by
  cases ss with
  | nil => rfl
  | cons s ss =>
    simp only [Stmt.mapAll, Stmt.FormedAll, Stmt.formed_map f s, Stmt.formedAll_map f ss]

theorem Stmt.formedRoutine_map (f : μ → ν) (r : Routine (Stmt μ)) :
    Stmt.FormedRoutine T (Stmt.mapRoutine f id r) ↔ Stmt.FormedRoutine T r := by
  obtain ⟨name, params, body⟩ := r
  simp only [Stmt.mapRoutine, Stmt.FormedRoutine, Stmt.formedAll_map f body, List.map_id, id]

theorem Stmt.formedRoutines_map (f : μ → ν) (rs : List (Routine (Stmt μ))) :
    Stmt.FormedRoutines T (Stmt.mapRoutines f id rs) ↔ Stmt.FormedRoutines T rs := by
  cases rs with
  | nil => rfl
  | cons r rs =>
    simp only [Stmt.mapRoutines, Stmt.FormedRoutines, Stmt.formedRoutine_map f r,
      Stmt.formedRoutines_map f rs]
end

namespace Grammar

theorem Derives.formed (h : Derives r ts e) (ht : ∀ t ∈ ts, T t) : e.Formed T := by
  induction h using Derives.rec
      (motive_2 := fun ts es _ => (∀ t ∈ ts, T t) → Expr.FormedAll T es)
      (motive_3 := fun ts es _ => (∀ t ∈ ts, T t) → Expr.FormedAll T es) with
  | assignName hx _ _ ih =>
    simp only [List.forall_mem_cons] at ht
    exact ⟨⟨ht.1, hx⟩, ih ht.2.2⟩
  | assignField _ _ _ _ _ iho ihv =>
    simp only [List.forall_mem_append, List.forall_mem_cons] at ht
    exact ⟨ht.2.2.1, iho ht.1, ihv ht.2.2.2.2⟩
  | noAssignment _ ih | noOr _ ih | noAnd _ ih | noEquality _ ih | noComparison _ ih | noTerm _ ih
  | noFactor _ ih | noUnary _ ih | noCall _ ih => exact ih ht
  | or _ _ _ ihl ihr | and _ _ _ ihl ihr =>
    simp only [List.forall_mem_append, List.forall_mem_cons] at ht
    exact ⟨ihl ht.1, ihr ht.2.2⟩
  | equality _ ho _ ihl ihr | comparison _ ho _ ihl ihr | term _ ho _ ihl ihr
  | factor _ ho _ ihl ihr =>
    simp only [List.forall_mem_append, List.forall_mem_cons] at ht
    refine ⟨⟨ht.2.1, ?_⟩, ihl ht.1, ihr ht.2.2⟩
    simp only [Token.Kind.Combines, List.mem_cons]
    grind
  | unary ho _ ih =>
    simp only [List.forall_mem_cons] at ht
    exact ⟨⟨ht.1, ho⟩, ih ht.2⟩
  | call _ _ _ _ _ ihf iha =>
    simp only [List.forall_mem_append, List.forall_mem_cons] at ht
    exact ⟨ht.2.2.2.1, ihf ht.1, iha ht.2.2.1⟩
  | property _ _ _ ih =>
    simp only [List.forall_mem_append, List.forall_mem_cons] at ht
    exact ⟨ht.2.2.1, ih ht.1⟩
  | false_ | true_ | nil | constant => trivial
  | this hk | name hk => exact ⟨ht _ List.mem_cons_self, hk⟩
  | super hk =>
    simp only [List.forall_mem_cons] at ht
    exact ⟨⟨ht.1, hk⟩, ht.2.2.1⟩
  | grouping _ _ _ ih =>
    simp only [List.forall_mem_append, List.forall_mem_cons] at ht
    exact ih ht.2.1
  | none => trivial
  | some _ ih => exact ih ‹_›
  | one _ ih => exact ⟨ih ‹_›, trivial⟩
  | more _ _ _ ihe ihes =>
    rename_i ht
    simp only [List.forall_mem_append, List.forall_mem_cons] at ht
    exact ⟨ihe ht.1, ihes ht.2.2⟩

theorem Optional.formed (h : Grammar.Optional ts o) (ht : ∀ t ∈ ts, T t) : Expr.Formed? T o := by
  cases h with
  | none => trivial
  | some he => exact he.formed ht

theorem Effect.formed (h : Effect ts s) (ht : ∀ t ∈ ts, T t) :
    s.declared? = none ∧ s.Formed T := by
  cases h with
  | mk he =>
    simp only [List.forall_mem_append] at ht
    exact ⟨rfl, he.formed ht.1⟩

theorem Variable.formed (h : Variable ts s) (ht : ∀ t ∈ ts, T t) : s.Formed T := by
  cases h with
  | plain hx => exact ⟨⟨ht _ List.mem_cons_self, hx⟩, trivial⟩
  | initialized hx _ he =>
    simp only [List.forall_mem_append, List.forall_mem_cons] at ht
    exact ⟨⟨ht.1, hx⟩, he.formed ht.2.2.1⟩

theorem Names.formed (h : Names ts xs) (ht : ∀ t ∈ ts, T t) : ∀ x ∈ xs, x.Names T := by
  induction h with
  | one hx =>
    simp only [List.forall_mem_cons] at ht ⊢
    exact ⟨⟨ht.1, hx⟩, fun y hy => absurd hy (by simp)⟩
  | more hx _ _ ih =>
    simp only [List.forall_mem_cons] at ht ⊢
    exact ⟨⟨ht.1, hx⟩, ih ht.2.2⟩

theorem Parameters.formed (h : Parameters ts xs) (ht : ∀ t ∈ ts, T t) : ∀ x ∈ xs, x.Names T := by
  cases h with
  | none => exact fun x hx => absurd hx List.not_mem_nil
  | some hs => exact hs.formed ht

theorem Parent.formed (h : Parent ts sup) (ht : ∀ t ∈ ts, T t) :
    ∀ ref ∈ sup, ref.name.Names T := by
  cases h with
  | none => exact fun x hx => absurd hx (by simp)
  | some _ hx =>
    intro ref href
    cases href
    simp only [List.forall_mem_cons] at ht
    exact ⟨ht.2.1, hx⟩

/-- A loop declares nothing, whatever its first clause declares. -/
theorem loop_formed {init : Option (Stmt Unit)} (hi : ∀ s ∈ init, s.Formed T)
    (hc : Expr.Formed? T condition) (hx : Expr.Formed? T step)
    (hs : body.declared? = none ∧ body.Formed T) :
    (loop init condition step body).declared? = none ∧ (loop init condition step body).Formed T := by
  have hcond : (condition.getD (.literal (some (.bool true)))).Formed T := by
    cases condition with
    | none => trivial
    | some c => exact hc
  have hbody : (stepped body step).declared? = none ∧ (stepped body step).Formed T := by
    cases step with
    | none => exact hs
    | some e => exact ⟨rfl, hs.2, hx, trivial⟩
  cases init with
  | none => exact ⟨rfl, hcond, hbody⟩
  | some s => exact ⟨rfl, hi s rfl, ⟨hcond, hbody⟩, trivial⟩

theorem Declarations.formed (h : Declarations ts ss) (ht : ∀ t ∈ ts, T t) :
    Stmt.FormedAll T ss := by
  induction h using Declarations.rec
      (motive_1 := fun _ ts s _ => (∀ t ∈ ts, T t) → s.declared? = none ∧ s.Formed T)
      (motive_2 := fun ts s _ => (∀ t ∈ ts, T t) → s.Formed T)
      (motive_4 := fun ts f _ => (∀ t ∈ ts, T t) → Stmt.FormedRoutine T f)
      (motive_5 := fun ts fs _ => (∀ t ∈ ts, T t) → Stmt.FormedRoutines T fs) with
  | effect h => exact h.formed ‹_›
  | print _ he =>
    rename_i ht
    simp only [List.forall_mem_append, List.forall_mem_cons] at ht
    exact ⟨rfl, he.formed ht.2.1⟩
  | ret _ ho =>
    rename_i ht
    simp only [List.forall_mem_append, List.forall_mem_cons] at ht
    exact ⟨rfl, ho.formed ht.2.1⟩
  | block _ _ _ ih =>
    rename_i ht
    simp only [List.forall_mem_append, List.forall_mem_cons] at ht
    exact ⟨rfl, ih ht.2.1⟩
  | ifThen _ _ hc _ _ ih | while_ _ _ hc _ _ ih =>
    rename_i ht
    simp only [List.forall_mem_append, List.forall_mem_cons] at ht
    exact ⟨rfl, hc.formed ht.2.2.1, ih ht.2.2.2.2⟩
  | ifElse _ _ hc _ _ _ _ ihs iht =>
    rename_i ht
    simp only [List.forall_mem_append, List.forall_mem_cons] at ht
    exact ⟨rfl, hc.formed ht.2.2.1, ihs ht.2.2.2.2.1, iht ht.2.2.2.2.2.2⟩
  | for_ _ _ hi hcond _ hstep _ _ ih =>
    rename_i ht
    simp only [List.forall_mem_append, List.forall_mem_cons] at ht
    refine loop_formed ?_ (hcond.formed ht.2.2.2.1) (hstep.formed ht.2.2.2.2.2.1)
      (ih ht.2.2.2.2.2.2.2)
    cases hi with
    | none => exact fun s hs => absurd hs (by simp)
    | var _ hv =>
      intro s hs
      cases hs
      exact hv.formed fun t hm => ht.2.2.1 t (List.mem_cons_of_mem _ hm)
    | effect he =>
      intro s hs
      cases hs
      exact (he.formed ht.2.2.1).2
  | class_ _ hx hp _ _ _ ih =>
    rename_i ht
    simp only [List.forall_mem_append, List.forall_mem_cons] at ht
    exact ⟨⟨ht.2.1, hx⟩, hp.formed ht.2.2.1, ih ht.2.2.2.2.1⟩
  | fun_ _ _ ih =>
    rename_i ht
    exact ih fun t hm => ht t (List.mem_cons_of_mem _ hm)
  | var _ hv =>
    rename_i ht
    exact hv.formed fun t hm => ht t (List.mem_cons_of_mem _ hm)
  | statement _ ih => exact (ih ‹_›).2
  | nil => trivial
  | cons _ _ ihs ihss =>
    simp only [List.forall_mem_append] at ht
    exact ⟨ihs ht.1, ihss ht.2⟩
  | mk hx _ hps _ _ _ _ _ ih =>
    rename_i ht
    simp only [List.forall_mem_append, List.forall_mem_cons] at ht
    exact ⟨⟨ht.1, hx⟩, hps.formed ht.2.2.1, ih ht.2.2.2.2.2.1⟩
  | none => trivial
  | more _ _ ihf ihfs =>
    rename_i ht
    simp only [List.forall_mem_append] at ht
    exact ⟨ihf ht.1, ihfs ht.2⟩

end Grammar

end LoxLang
