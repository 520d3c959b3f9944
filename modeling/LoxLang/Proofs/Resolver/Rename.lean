import LoxLang.Proofs.Resolver.Sound
import LoxLang.Proofs.Tree.Rename

namespace LoxLang
set_option autoImplicit true

def Stmt.called? : Stmt μ → Option Text
  | .funDecl r => some r.name.lexeme
  | .classDecl name _ _ => some name.lexeme
  | _ => none

theorem Stmt.declared_of_called {s : Stmt μ} (h : s.called? = some x) : s.declared? = some x := by
  cases s with
  | funDecl | classDecl => exact h
  | _ => cases h

theorem Stmt.Scoped.free {s : Stmt Distance} (h : s.Scoped T Γ) (hx : s.declared? = some x) :
    Γ.Free x := by
  cases h with
  | varDecl _ _ hfree | funDecl _ _ hfree | classDecl _ _ _ hfree =>
    cases hx
    exact hfree
  | _ => cases hx

theorem Program.Scoped.mem (h : Program.Scoped T Γ ss) (hs : s ∈ ss) : ∃ Γ', s.Scoped T Γ' := by
  induction ss generalizing Γ with
  | nil => cases hs
  | cons s' ss ih =>
    cases h with
    | cons hs' hss =>
      rcases List.mem_cons.1 hs with rfl | hs
      · exact ⟨Γ, hs'⟩
      · exact ih hss hs

theorem Program.Scoped.fresh (h : Program.Scoped T (g :: Γ) ss) (hx : x ∈ g) :
    ∀ s ∈ ss, s.declared? ≠ some x := by
  induction ss generalizing g with
  | nil => exact fun s hs => absurd hs List.not_mem_nil
  | cons s ss ih =>
    cases h with
    | cons hs hss =>
      refine List.forall_mem_cons.2 ⟨fun he => hs.free he g rfl hx, ?_⟩
      cases hd : s.declared? with
      | none =>
        rw [hd] at hss
        exact ih hss hx
      | some z =>
        rw [hd] at hss
        exact ih (g := z :: g) hss (List.mem_cons_of_mem z hx)

theorem Program.Scoped.not_called (h : Program.Scoped T (g :: Γ) ss)
    (hm : Stmt.varDecl t init ∈ ss) : ∀ s ∈ ss, s.called? ≠ some t.lexeme := by
  induction ss generalizing g with
  | nil => cases hm
  | cons s ss ih =>
    cases h with
    | cons hs hss =>
      rcases List.mem_cons.1 hm with rfl | hm
      · have hrest := Program.Scoped.fresh (g := t.lexeme :: g) hss List.mem_cons_self
        refine List.forall_mem_cons.2 ⟨(fun he => by cases he), fun s hs he => ?_⟩
        exact hrest s hs (Stmt.declared_of_called he)
      · refine List.forall_mem_cons.2 ⟨fun he => ?_, ?_⟩
        · rw [Stmt.declared_of_called he] at hss
          exact Program.Scoped.fresh (g := t.lexeme :: g) hss List.mem_cons_self _ hm rfl
        · cases hd : s.declared? with
          | none =>
            rw [hd] at hss
            exact ih hss hm
          | some z =>
            rw [hd] at hss
            exact ih (g := z :: g) hss hm

section
variable {E : Exchange} {k : Nat}

theorem Token.rename_eq_spell {t : Token} (h : t.lexeme ≠ E.new) :
    t.rename E.old E.new = t.spell E true := by
  unfold Token.rename Token.spell
  split
  · rename_i hold
    rw [hold, E.spell_old]
  · rename_i hold
    rw [E.spell_of_ne true hold h]

theorem Reference.rename_eq_spell {ref : Reference Distance} (h : ref.name.lexeme ≠ E.new) :
    ref.rename E.old E.new k = ref.spell E (.only k) := by
  obtain ⟨name, mark⟩ := ref
  unfold Reference.rename Reference.spell
  cases mark with
  | none => rfl
  | some i =>
    by_cases hi : i = k
    · simp [hi, Legend.only, Token.rename_eq_spell h]
    · simp [hi, Legend.only]

theorem Reference.spell_reserved {ref : Reference Distance} (h : ref.name.lexeme.Reserved)
    (Λ : Legend) : ref.spell E Λ = ref := by
  unfold Reference.spell Token.spell
  rw [E.spell_reserved _ h]

variable {T : Token → Prop} {Γ : Scopes}

mutual
theorem Expr.Scoped.rename_eq_spell (hT : ∀ t, T t → t.lexeme ≠ E.new) (e : Expr Distance)
    (h : e.Scoped T Γ p) : e.rename E.old E.new k = e.spell E (.only k) := by
  cases e with
  | literal v => rfl
  | grouping e =>
    cases h with
    | grouping he => exact congrArg Expr.grouping (Expr.Scoped.rename_eq_spell hT e he)
  | unary op e =>
    cases h with
    | unary _ _ he => exact congrArg (Expr.unary op) (Expr.Scoped.rename_eq_spell hT e he)
  | binary l op r =>
    cases h with
    | binary _ _ hl hr =>
      rw [Expr.rename, Expr.spell, Expr.Scoped.rename_eq_spell hT l hl,
        Expr.Scoped.rename_eq_spell hT r hr]
  | logical l op r =>
    cases h with
    | logical hl hr =>
      rw [Expr.rename, Expr.spell, Expr.Scoped.rename_eq_spell hT l hl,
        Expr.Scoped.rename_eq_spell hT r hr]
  | var ref =>
    cases h with
    | var hn => exact congrArg Expr.var (Reference.rename_eq_spell (hT _ hn.1))
  | assign ref e =>
    cases h with
    | assign hn _ he =>
      rw [Expr.rename, Expr.spell, Reference.rename_eq_spell (hT _ hn.1),
        Expr.Scoped.rename_eq_spell hT e he]
  | call f paren args =>
    cases h with
    | call _ hf hargs =>
      rw [Expr.rename, Expr.spell, Expr.Scoped.rename_eq_spell hT f hf,
        Expr.Scoped.renameAll_eq_spellAll hT args hargs]
  | get o name =>
    cases h with
    | get _ ho => rw [Expr.rename, Expr.spell, Expr.Scoped.rename_eq_spell hT o ho]
  | set o name e =>
    cases h with
    | set _ ho he =>
      rw [Expr.rename, Expr.spell, Expr.Scoped.rename_eq_spell hT o ho,
        Expr.Scoped.rename_eq_spell hT e he]
  | this ref =>
    cases h with
    | this _ hthis => rw [Expr.rename, Expr.spell, Reference.spell_reserved (.inl hthis)]
  | super ref method =>
    cases h with
    | super _ hsuper => rw [Expr.rename, Expr.spell, Reference.spell_reserved (.inr hsuper)]

theorem Expr.Scoped.renameAll_eq_spellAll (hT : ∀ t, T t → t.lexeme ≠ E.new)
    (es : List (Expr Distance)) (h : ∀ e ∈ es, e.Scoped T Γ p) :
    Expr.renameAll E.old E.new k es = Expr.spellAll E (.only k) es := by
  cases es with
  | nil => rfl
  | cons e es =>
    obtain ⟨he, hes⟩ := List.forall_mem_cons.1 h
    rw [Expr.renameAll, Expr.spellAll, Expr.Scoped.rename_eq_spell hT e he,
      Expr.Scoped.renameAll_eq_spellAll hT es hes]
end

theorem Expr.Scoped.map_rename_eq (hT : ∀ t, T t → t.lexeme ≠ E.new) (o : Option (Expr Distance))
    (h : ∀ e ∈ o, Expr.Scoped T Γ p e) :
    o.map (Expr.rename E.old E.new k) = o.map (Expr.spell E (.only k)) := by
  cases o with
  | none => rfl
  | some e => exact congrArg some (Expr.Scoped.rename_eq_spell hT e (h e rfl))

theorem Exchange.spell_called {x : Text} (h : k = 0 → x ≠ E.old) (hx : x ≠ E.new) :
    E.spell (Legend.only k 0) x = x := by
  cases k with
  | zero => exact E.spell_of_ne _ (h rfl) hx
  | succ k => rfl

mutual
theorem Stmt.Scoped.rename_spelled (hT : ∀ t, T t → t.lexeme ≠ E.new) (s : Stmt Distance)
    {Γ : Scopes} {k : Nat} (h : s.Scoped T Γ) (hk : k = 0 → s.called? ≠ some E.old) :
    s.Spelled E (.only k) (s.rename E.old E.new k) := by
  have hnone (s : Stmt Distance) (hd : s.declared? = none) : s.called? ≠ some E.old := by
    intro he
    rw [Stmt.declared_of_called he] at hd
    cases hd
  cases s with
  | expression e =>
    cases h with
    | expression he =>
      rw [Stmt.rename, Expr.Scoped.rename_eq_spell hT e he]
      exact .expression
  | print e =>
    cases h with
    | print he =>
      rw [Stmt.rename, Expr.Scoped.rename_eq_spell hT e he]
      exact .print
  | varDecl x init =>
    cases h with
    | varDecl hx hi =>
      have hname : (if k = 0 then x.rename E.old E.new else x) = x.spell E (Legend.only k 0) := by
        cases k with
        | zero => exact Token.rename_eq_spell (hT x hx.1)
        | succ k => rfl
      rw [Stmt.rename, hname, Expr.Scoped.map_rename_eq hT init hi]
      exact .varDecl
  | block body =>
    cases h with
    | block hbody =>
      refine .block false ?_
      rw [Legend.enter_only]
      exact Program.Scoped.rename_spelled hT body hbody fun he => by cases he
  | ifThen c s =>
    cases h with
    | ifThen hc hd hs =>
      have hs := Stmt.Scoped.rename_spelled (k := k) hT s hs fun _ => hnone s hd
      rw [Stmt.rename, Expr.Scoped.rename_eq_spell hT c hc]
      exact .ifThen hs
  | ifElse c s t =>
    cases h with
    | ifElse hc hd hs hd' ht =>
      have hs := Stmt.Scoped.rename_spelled (k := k) hT s hs fun _ => hnone s hd
      have ht := Stmt.Scoped.rename_spelled (k := k) hT t ht fun _ => hnone t hd'
      rw [Stmt.rename, Expr.Scoped.rename_eq_spell hT c hc]
      exact .ifElse hs ht
  | loop c s =>
    cases h with
    | loop hc hd hs =>
      have hs := Stmt.Scoped.rename_spelled (k := k) hT s hs fun _ => hnone s hd
      rw [Stmt.rename, Expr.Scoped.rename_eq_spell hT c hc]
      exact .loop hs
  | funDecl r =>
    cases h with
    | funDecl hx hr =>
      exact .funDecl (Exchange.spell_called (fun hz he => hk hz (congrArg some he)) (hT _ hx.1))
        (Routine.Scoped.rename_spelled hT r hr)
  | ret word value =>
    cases h with
    | ret hv =>
      rw [Stmt.rename, Expr.Scoped.map_rename_eq hT value hv]
      exact .ret
  | classDecl x sup methods =>
    cases h with
    | classDecl hx hsup hm =>
      have hname := Exchange.spell_called (fun hz he => hk hz (congrArg some he)) (hT x hx.1)
      have hm := Routines.Scoped.rename_spelled (k := k + if sup.isSome then 2 else 1) hT methods hm
      rw [← Legend.ofClass_only] at hm
      rw [Stmt.rename]
      cases sup with
      | none => exact .classDecl hname hm
      | some ref =>
        cases hsup ref rfl with
        | var href =>
          rw [Option.map_some, Reference.rename_eq_spell (hT _ href.1)]
          exact .classDecl hname hm

theorem Program.Scoped.rename_spelled (hT : ∀ t, T t → t.lexeme ≠ E.new)
    (ss : List (Stmt Distance)) {Γ : Scopes} {k : Nat} (h : Program.Scoped T Γ ss)
    (hk : k = 0 → ∀ s ∈ ss, s.called? ≠ some E.old) :
    Program.Spelled E (.only k) ss (Stmt.renameAll E.old E.new k ss) := by
  cases ss with
  | nil => exact .nil
  | cons s ss =>
    cases h with
    | cons hs hss =>
      refine .cons (Stmt.Scoped.rename_spelled hT s hs fun hz => hk hz s List.mem_cons_self) ?_
      refine Program.Scoped.rename_spelled hT ss hss fun hz s' hs' => ?_
      exact hk hz s' (List.mem_cons_of_mem s hs')

theorem Routine.Scoped.rename_spelled (hT : ∀ t, T t → t.lexeme ≠ E.new)
    (r : Routine (Stmt Distance)) {Γ : Scopes} {k : Nat} (h : r.Scoped T Γ) :
    r.Spelled E (.only k) (Stmt.renameRoutine E.old E.new k r) := by
  obtain ⟨name, params, body⟩ := r
  cases h with
  | mk _ hbody =>
    have hbody := Program.Scoped.rename_spelled (k := k + 1) hT body hbody fun he => by cases he
    rw [← Legend.enter_only] at hbody
    have hr : Routine.Spelled E (.only k) ⟨name, params, body⟩
        ⟨name, params.map (Token.spell E false), Stmt.renameAll E.old E.new (k + 1) body⟩ :=
      .mk false hbody
    rwa [List.map_id'' (Token.spell_false E)] at hr

theorem Routines.Scoped.rename_spelled (hT : ∀ t, T t → t.lexeme ≠ E.new)
    (rs : List (Routine (Stmt Distance))) {Γ : Scopes} {k : Nat} (h : ∀ r ∈ rs, r.Scoped T Γ) :
    Routines.Spelled E (.only k) rs (Stmt.renameRoutines E.old E.new k rs) := by
  cases rs with
  | nil => exact .nil
  | cons r rs =>
    obtain ⟨hr, hrs⟩ := List.forall_mem_cons.1 h
    exact .cons (Routine.Scoped.rename_spelled hT r hr) (Routines.Scoped.rename_spelled hT rs hrs)
end

end

section
variable {E : Exchange}

theorem Stmt.Spelled.splice (h : Stmt.Spelled E .plain s s') (before after : List (Stmt Distance)) :
    Program.Spelled E .plain (before ++ s :: after) (before ++ s' :: after) := by
  induction before with
  | nil => exact .cons h (Stmt.allSpelled_plain E after)
  | cons t before ih => exact .cons (Stmt.spelled_plain E t) ih

theorem Routine.Spelled.splice (h : Routine.Spelled E .plain r r')
    (before after : List (Routine (Stmt Distance))) :
    Routines.Spelled E .plain (before ++ r :: after) (before ++ r' :: after) := by
  induction before with
  | nil => exact .cons h (Stmt.routinesSpelled_plain E after)
  | cons t before ih => exact .cons (Stmt.routineSpelled_plain E t) ih

end

theorem Declares.not_reserved (h : Declares x params body) (hT : ∀ t, T t → t.Lexical)
    (hp : ∀ p ∈ params, p.Names T) (hb : Program.Scoped T Γ body) : ¬ x.Reserved := by
  rcases h with ⟨p, hm, rfl⟩ | ⟨t, init, hm, rfl⟩
  · exact (hp p hm).not_reserved hT
  · obtain ⟨Γ', hs⟩ := hb.mem hm
    cases hs with
    | varDecl hn => exact hn.not_reserved hT

theorem Declares.not_called (h : Declares x params body)
    (hb : Program.Scoped T ((params.map Token.lexeme).reverse :: Γ) body) :
    ∀ s ∈ body, s.called? ≠ some x := by
  rcases h with ⟨p, hm, rfl⟩ | ⟨t, init, hm, rfl⟩
  · have hg : p.lexeme ∈ (params.map Token.lexeme).reverse :=
      List.mem_reverse.2 (List.mem_map_of_mem hm)
    exact fun s hs he => hb.fresh hg s hs (Stmt.declared_of_called he)
  · exact hb.not_called hm

/-- To rename a declaration to a name that the program does not use is to let the two names trade
places in the scope of the declaration. -/
theorem Stmt.Renames.spelled (hT : ∀ t, T t → t.Lexical ∧ t.lexeme ≠ y) (hy : ¬ y.Reserved)
    (h : Stmt.Renames x y s s') (hs : s.Scoped T Γ) :
    ∃ E : Exchange, (E.old = x ∧ E.new = y) ∧ s.Spelled E .plain s' := by
  induction h using Stmt.Renames.rec
      (motive_2 := fun params body params' body' _ => ∀ Γ, (∀ p ∈ params, p.Names T) →
        Program.Scoped T ((params.map Token.lexeme).reverse :: Γ) body →
        ∃ E : Exchange, (E.old = x ∧ E.new = y) ∧ ∃ hot, params' = params.map (Token.spell E hot) ∧
          Program.Spelled E (Legend.plain.enter hot) body body') generalizing Γ with
  | block _ ih =>
    cases hs with
    | block hbody =>
      obtain ⟨E, hE, hot, -, hspelled⟩ := ih Γ (fun _ hp => by cases hp) hbody
      exact ⟨E, hE, .block hot hspelled⟩
  | funDecl _ ih =>
    cases hs with
    | funDecl _ hr =>
      cases hr with
      | mk hp hbody =>
        obtain ⟨E, hE, hot, rfl, hspelled⟩ := ih _ hp hbody
        exact ⟨E, hE, .funDecl rfl (.mk hot hspelled)⟩
  | @method params body params' body' c sup before after name _ ih =>
    cases hs with
    | classDecl _ _ hm =>
      cases hm _ (List.mem_append_right before List.mem_cons_self) with
      | mk hp hbody =>
        obtain ⟨E, hE, hot, rfl, hspelled⟩ := ih _ hp hbody
        have hmethod : Routine.Spelled E .plain ⟨name, params, body⟩
            ⟨name, params.map (Token.spell E hot), body'⟩ := .mk hot hspelled
        have hmethods := hmethod.splice before after
        rw [← Legend.ofClass_plain sup.isSome] at hmethods
        have hclass := Stmt.Spelled.classDecl (x := c) rfl hmethods
        rw [Reference.map_spell_plain] at hclass
        exact ⟨E, hE, hclass⟩
  | @ifThen _ _ c _ ih =>
    cases hs with
    | ifThen _ _ hs =>
      obtain ⟨E, hE, hspelled⟩ := ih hs
      have hif := Stmt.Spelled.ifThen (c := c) hspelled
      rw [Expr.spell_plain] at hif
      exact ⟨E, hE, hif⟩
  | @ifYes _ _ c t _ ih =>
    cases hs with
    | ifElse _ _ hs =>
      obtain ⟨E, hE, hspelled⟩ := ih hs
      have hif := Stmt.Spelled.ifElse (c := c) hspelled (Stmt.spelled_plain E t)
      rw [Expr.spell_plain] at hif
      exact ⟨E, hE, hif⟩
  | @ifNo _ _ c s _ ih =>
    cases hs with
    | ifElse _ _ _ _ ht =>
      obtain ⟨E, hE, hspelled⟩ := ih ht
      have hif := Stmt.Spelled.ifElse (c := c) (Stmt.spelled_plain E s) hspelled
      rw [Expr.spell_plain] at hif
      exact ⟨E, hE, hif⟩
  | @loop _ _ c _ ih =>
    cases hs with
    | loop _ _ hs =>
      obtain ⟨E, hE, hspelled⟩ := ih hs
      have hloop := Stmt.Spelled.loop (c := c) hspelled
      rw [Expr.spell_plain] at hloop
      exact ⟨E, hE, hloop⟩
  | here hx =>
    rename_i params body Γ hp hb
    let E : Exchange := ⟨x, y, hx.not_reserved (fun t ht => (hT t ht).1) hp hb, hy⟩
    refine ⟨E, ⟨rfl, rfl⟩, true, List.map_congr_left fun p hm => ?_, ?_⟩
    · exact Token.rename_eq_spell (E := E) (hT p (hp p hm).1).2
    · rw [Legend.enter_hot]
      exact Program.Scoped.rename_spelled (E := E) (fun t ht => (hT t ht).2) body hb fun _ =>
        hx.not_called hb
  | @inside s s' params before after _ ih =>
    rename_i hp hb
    obtain ⟨Γ', hs⟩ := hb.mem (List.mem_append_right before List.mem_cons_self)
    obtain ⟨E, hE, hspelled⟩ := ih hs
    refine ⟨E, hE, false, (List.map_id'' (Token.spell_false E) params).symm, ?_⟩
    rw [Legend.enter_plain]
    exact hspelled.splice before after

theorem Program.Renames.spelled (hT : ∀ t, T t → t.Lexical ∧ t.lexeme ≠ y) (hy : ¬ y.Reserved)
    (h : Program.Renames x y ss ss') (hs : Program.Scoped T Γ ss) :
    ∃ E : Exchange, (E.old = x ∧ E.new = y) ∧ Program.Spelled E .plain ss ss' := by
  cases h with
  | @mk s s' before after h =>
    obtain ⟨Γ', hs⟩ := hs.mem (List.mem_append_right before List.mem_cons_self)
    obtain ⟨E, hE, hspelled⟩ := h.spelled hT hy hs
    exact ⟨E, hE, hspelled.splice before after⟩

end LoxLang
