import LoxLang.Proofs.Resolver.Run
import LoxLang.Proofs.Resolver.Scoped
import LoxLang.Proofs.Scan.Words

namespace LoxLang
set_option autoImplicit true

theorem Token.Names.not_reserved {t : Token} (hT : ∀ t, T t → t.Lexical) (h : t.Names T) :
    ¬ t.lexeme.Reserved := by
  obtain ⟨hthis, hsuper⟩ := (hT t h.1).1 h.2
  rintro (hx | hx)
  · exact hthis hx
  · exact hsuper hx

namespace Resolver

/-- A run only adds to the faults, and if it adds none then `R` holds of its result and of the state
it leaves. -/
def Resolves (P : Resolve α) (R : α → Resolver → Prop) (r : Resolver) : Prop :=
  ∃ ds, (P r).2.diagnostics = r.diagnostics ++ ds ∧ (ds = [] → R (P r).1 (P r).2)

theorem Resolves.mono (h : Resolves P R r) (hR : ∀ a r', R a r' → R' a r') :
    Resolves P R' r := by
  obtain ⟨ds, hd, hr⟩ := h
  exact ⟨ds, hd, fun he => hR _ _ (hr he)⟩

theorem Resolves.pure (h : R a r) : Resolves (Pure.pure a) R r :=
  ⟨[], (List.append_nil _).symm, fun _ => h⟩

theorem Resolves.bind {P : Resolve α} {Q : α → Resolve β} (h : Resolves P R₁ r)
    (hQ : ∀ a r', Resolves (Q a) (fun b r'' => R₁ a r' → R b r'') r') :
    Resolves (P >>= Q) R r := by
  obtain ⟨ds, hd, hr⟩ := h
  obtain ⟨es, he, hq⟩ := hQ (P r).1 (P r).2
  refine ⟨ds ++ es, ?_, fun hnil => ?_⟩
  · change (Q (P r).1 (P r).2).2.diagnostics = _
    rw [he, hd, List.append_assoc]
  · obtain ⟨hds, hes⟩ := List.append_eq_nil_iff.1 hnil
    exact hq hes (hr hds)

theorem Resolves.get {Q : Resolver → Resolve β} (h : Resolves (Q r) R r) :
    Resolves (MonadState.get >>= Q) R r := h

theorem Resolves.modify {f : Resolver → Resolver} {Q : Unit → Resolve β}
    (hf : (f r).diagnostics = r.diagnostics) (h : Resolves (Q ()) R (f r)) :
    Resolves (MonadState.modifyGet (fun r => ((), f r)) >>= Q) R r := by
  obtain ⟨ds, hd, hr⟩ := h
  exact ⟨ds, hd.trans (congrArg (· ++ ds) hf), hr⟩

theorem Resolves.report {Q : Unit → Resolve β}
    (h : ∀ r', Resolves (Q ()) (fun _ _ => True) r') :
    Resolves (Resolver.report t message >>= Q) R r := by
  obtain ⟨ds, hd, -⟩ := h { r with diagnostics := r.diagnostics ++ [.atToken .resolving t message] }
  refine ⟨.atToken .resolving t message :: ds, ?_, fun hnil => by cases hnil⟩
  change (Q () _).2.diagnostics = _
  rw [hd, List.append_assoc]
  rfl

def Lists (s : Scope) (g : List Text) : Prop := ∀ x, Dict.has s x = true ↔ x ∈ g

inductive Agrees : List Scope → Scopes → Prop where
  | nil : Agrees [] []
  | cons : Lists s g → Agrees ss Γ → Agrees (s :: ss) (g :: Γ)

theorem Lists.nil : Lists [] [] := fun x => by simp [Dict.has]

theorem Lists.set (h : Lists s g) (x : Text) (b : Bool) : Lists (Dict.set x b s) (x :: g) := by
  intro y
  by_cases hy : y = x
  · subst hy
    simp [Dict.has]
  · rw [Dict.has, Dict.get?_set_of_ne s b hy, List.mem_cons]
    exact (h y).trans ⟨.inr, fun hm => hm.resolve_left hy⟩

theorem Lists.set_again (h : Lists s (x :: g)) (b : Bool) : Lists (Dict.set x b s) (x :: g) := by
  intro y
  have hs := h.set x b y
  rw [hs, List.mem_cons, List.mem_cons]
  exact or_self_left

theorem Agrees.nil_iff (h : Agrees ss []) : ss = [] := by cases h; rfl

theorem Agrees.distance (h : Agrees ss Γ) (x : Text) :
    Resolver.distance ss x = Γ.distance x := by
  induction h with
  | nil => rfl
  | @cons s g _ _ hl _ ih =>
    rw [Scopes.distance_cons, Resolver.distance, List.findIdx?_cons]
    rw [Resolver.distance] at ih
    by_cases hx : x ∈ g
    · rw [if_pos ((hl x).2 hx), if_pos hx]
    · rw [if_neg fun hh => hx ((hl x).1 hh), if_neg hx, ih]

/-- What the innermost class allows: `this` has a binding, and `super` one just outside of that. -/
def Housed : Home → Scopes → Prop
  | .none, _ => True
  | .plain, Γ => ∃ d, Γ.distance "this" = some d
  | .derived, Γ => ∃ k, Γ.distance "this" = some k ∧ Γ.distance "super" = some (k + 1)

theorem Housed.this {home : Home} (h : Housed home Γ) (hh : home ≠ .none) :
    ∃ d, Γ.distance "this" = some d := by
  cases home with
  | none => exact absurd rfl hh
  | plain => exact h
  | derived =>
    obtain ⟨k, hthis, -⟩ := h
    exact ⟨k, hthis⟩

theorem Housed.begin {home : Home} {g : List Text} (h : Housed home Γ)
    (hthis : ("this" : Text) ∉ g) (hsuper : ("super" : Text) ∉ g) : Housed home (g :: Γ) := by
  have hd (x : Text) (d : Nat) (hg : x ∉ g) (hx : Γ.distance x = some d) :
      Scopes.distance (g :: Γ) x = some (d + 1) := by
    rw [Scopes.distance_cons, if_neg hg, hx]
    rfl
  cases home with
  | none => trivial
  | plain =>
    obtain ⟨d, ht⟩ := h
    exact ⟨d + 1, hd _ d hthis ht⟩
  | derived =>
    obtain ⟨k, ht, hs⟩ := h
    exact ⟨k + 1, hd _ k hthis ht, hd _ _ hsuper hs⟩

theorem Housed.declare {home : Home} {x : Text} (h : Housed home Γ) (hthis : x ≠ "this")
    (hsuper : x ≠ "super") :
    Housed home (Γ.declare x) := by
  have ht : (Γ.declare x).distance "this" = Γ.distance "this" := Scopes.distance_declare hthis.symm
  have hs : (Γ.declare x).distance "super" = Γ.distance "super" := Scopes.distance_declare hsuper.symm
  cases home with
  | none => trivial
  | plain =>
    obtain ⟨d, hd⟩ := h
    exact ⟨d, ht.trans hd⟩
  | derived =>
    obtain ⟨k, hk, hk'⟩ := h
    exact ⟨k, ht.trans hk, hs.trans hk'⟩

theorem Housed.ofClass (derived : Bool) (Γ : Scopes) :
    Housed (if derived then .derived else .plain) (Scopes.ofClass derived Γ) := by
  have hthis : (Scopes.ofClass derived Γ).distance "this" = some 0 := by
    simp [Scopes.ofClass, Scopes.distance_cons]
  cases derived with
  | false => exact ⟨0, hthis⟩
  | true =>
    refine ⟨0, hthis, ?_⟩
    have hne : ¬ ("super" : Text) = "this" := by decide
    simp [Scopes.ofClass, Scopes.distance_cons, hne]

structure Stands (r : Resolver) (Γ : Scopes) (pending : Option Text) : Prop where
  agrees : Agrees r.scopes Γ
  unready : ∀ x s ss, pending = some x → r.scopes = s :: ss → s.get? x = some false

structure At (r : Resolver) (Γ : Scopes) (pending : Option Text) : Prop extends
    Stands r Γ pending where
  housed : Housed r.home Γ

structure Same (r r' : Resolver) : Prop where
  scopes : r'.scopes = r.scopes
  body : r'.body = r.body
  home : r'.home = r.home

theorem Same.refl (r : Resolver) : Same r r := ⟨rfl, rfl, rfl⟩

theorem Same.trans (h : Same r r') (h' : Same r' r'') : Same r r'' :=
  ⟨h'.scopes.trans h.scopes, h'.body.trans h.body, h'.home.trans h.home⟩

theorem Stands.of_agrees (h : Agrees r.scopes Γ) : Stands r Γ none :=
  ⟨h, fun _ _ _ hx => by cases hx⟩

theorem At.same (h : At r Γ p) (hs : Same r r') : At r' Γ p :=
  ⟨⟨hs.scopes ▸ h.agrees, hs.scopes ▸ h.unready⟩, hs.home ▸ h.housed⟩

theorem bind_resolves (node : Expr Mark) (ref : Reference Mark) (r : Resolver) :
    Resolves (bind node ref)
      (fun ref' r' => Same r r' ∧ ref'.name = ref.name ∧
        ref'.mark = distance r.scopes ref.name.lexeme) r := by
  obtain ⟨bs, hb⟩ := bind_run node ref r
  unfold Resolves
  rw [hb]
  exact ⟨[], (List.append_nil _).symm, fun _ => ⟨⟨rfl, rfl, rfl⟩, rfl, rfl⟩⟩

theorem read_resolves (ref : Reference Mark) (r : Resolver) :
    Resolves (read ref)
      (fun ref' r' => Same r r' ∧ ref'.name = ref.name ∧
        ∀ Γ p, Stands r Γ p → ref.name.Names T → (Expr.var ref').Scoped T Γ p) r := by
  rw [read]
  refine Resolves.get ?_
  split
  · exact Resolves.report fun r' => (bind_resolves _ ref r').mono fun _ _ _ => trivial
  · rename_i hready
    refine (bind_resolves _ ref r).mono ?_
    intro ref' r' h
    obtain ⟨hsame, hname, hmark⟩ := h
    refine ⟨hsame, hname, fun Γ p hat hn => ?_⟩
    rw [hat.agrees.distance] at hmark
    refine .var (hname ▸ hn) (hname ▸ hmark) fun hzero hp => hready ?_
    have hscope : r.scopes ≠ [] := by
      intro he
      have hΓ := hat.agrees
      rw [he] at hΓ
      cases hΓ
      cases hmark.symm.trans hzero
    obtain ⟨s, ss, hs⟩ := List.exists_cons_of_ne_nil hscope
    rw [hs]
    exact hat.unready _ s ss (hname ▸ hp) hs

theorem this_resolves (hT : ∀ t, T t → t.Lexical) (ref : Reference Mark) (r : Resolver) :
    Resolves (this ref)
      (fun ref' r' => Same r r' ∧ ∀ Γ p, At r Γ p → T ref.name ∧ ref.name.kind = .this →
        (Expr.this ref').Scoped T Γ p) r := by
  rw [this]
  refine Resolves.get ?_
  have hbind (hh : r.home ≠ .none) :
      Resolves (bind (.this ref) ref)
        (fun ref' r' => Same r r' ∧ ∀ Γ p, At r Γ p → T ref.name ∧ ref.name.kind = .this →
          (Expr.this ref').Scoped T Γ p) r := by
    refine (bind_resolves _ ref r).mono ?_
    intro ref' r' h
    obtain ⟨hsame, hname, hmark⟩ := h
    refine ⟨hsame, fun Γ p hat hf => ?_⟩
    have hthis : ref.name.lexeme = "this" := (hT _ hf.1).2.1 hf.2
    rw [hat.agrees.distance, hthis] at hmark
    obtain ⟨d, hd⟩ := hat.housed.this hh
    exact .this (hname ▸ hf.1) (hname ▸ hthis) (hmark.trans hd) hd
  cases hh : r.home with
  | none => exact Resolves.report fun r' => .pure trivial
  | plain => exact hbind (by simp [hh])
  | derived => exact hbind (by simp [hh])

theorem super_resolves (hT : ∀ t, T t → t.Lexical) (ref : Reference Mark) (method : Token)
    (r : Resolver) :
    Resolves (super ref method)
      (fun ref' r' => Same r r' ∧ ∀ Γ p, At r Γ p →
        (T ref.name ∧ ref.name.kind = .super) ∧ T method →
        (Expr.super ref' method).Scoped T Γ p) r := by
  rw [super]
  refine Resolves.get ?_
  cases hh : r.home with
  | none => exact Resolves.report fun r' => .pure trivial
  | plain => exact Resolves.report fun r' => .pure trivial
  | derived =>
    refine (bind_resolves _ ref r).mono ?_
    intro ref' r' h
    obtain ⟨hsame, hname, hmark⟩ := h
    refine ⟨hsame, fun Γ p hat hf => ?_⟩
    have hsuper : ref.name.lexeme = "super" := (hT _ hf.1.1).2.2 hf.1.2
    have hhoused := hat.housed
    rw [hh] at hhoused
    obtain ⟨k, hthis, hk⟩ := hhoused
    rw [hat.agrees.distance, hsuper] at hmark
    exact .super (hname ▸ hf.1.1) (hname ▸ hsuper) hf.2 (hmark.trans hk) hk hthis

mutual
theorem expr_resolves (hT : ∀ t, T t → t.Lexical) (e : Expr Mark) (r : Resolver) :
    Resolves (expr e)
      (fun e' r' => Same r r' ∧ ∀ Γ p, At r Γ p → e.Formed T → e'.Scoped T Γ p) r := by
  cases e with
  | literal v =>
    rw [expr]
    exact .pure ⟨.refl r, fun _ _ _ _ => .literal⟩
  | grouping e =>
    rw [expr]
    refine (expr_resolves hT e r).bind fun e' r' => .pure ?_
    intro h
    exact ⟨h.1, fun Γ p hat hf => .grouping (h.2 Γ p hat hf)⟩
  | unary op e =>
    rw [expr]
    refine (expr_resolves hT e r).bind fun e' r' => .pure ?_
    intro h
    exact ⟨h.1, fun Γ p hat hf => .unary hf.1.1 hf.1.2 (h.2 Γ p hat hf.2)⟩
  | binary l op right =>
    rw [expr]
    refine (expr_resolves hT l r).bind fun l' r₁ => ?_
    refine (expr_resolves hT right r₁).bind fun e' r₂ => .pure ?_
    intro h₂ h₁
    refine ⟨h₁.1.trans h₂.1, fun Γ p hat hf => ?_⟩
    exact .binary hf.1.1 hf.1.2 (h₁.2 Γ p hat hf.2.1) (h₂.2 Γ p (hat.same h₁.1) hf.2.2)
  | logical l op right =>
    rw [expr]
    refine (expr_resolves hT l r).bind fun l' r₁ => ?_
    refine (expr_resolves hT right r₁).bind fun e' r₂ => .pure ?_
    intro h₂ h₁
    refine ⟨h₁.1.trans h₂.1, fun Γ p hat hf => ?_⟩
    exact .logical (h₁.2 Γ p hat hf.1) (h₂.2 Γ p (hat.same h₁.1) hf.2)
  | var ref =>
    rw [expr]
    refine (read_resolves (T := T) ref r).bind fun ref' r' => .pure ?_
    intro h
    exact ⟨h.1, fun Γ p hat hf => h.2.2 Γ p hat.toStands hf⟩
  | assign ref e =>
    rw [expr]
    refine (expr_resolves hT e r).bind fun e' r₁ => ?_
    refine (bind_resolves _ ref r₁).bind fun ref' r₂ => .pure ?_
    intro h₂ h₁
    obtain ⟨hsame, hname, hmark⟩ := h₂
    refine ⟨h₁.1.trans hsame, fun Γ p hat hf => ?_⟩
    rw [(hat.same h₁.1).agrees.distance] at hmark
    exact .assign (hname ▸ hf.1) (hname ▸ hmark) (h₁.2 Γ p hat hf.2)
  | call f paren args =>
    rw [expr]
    refine (expr_resolves hT f r).bind fun f' r₁ => ?_
    refine (exprs_resolves hT args r₁).bind fun args' r₂ => .pure ?_
    intro h₂ h₁
    refine ⟨h₁.1.trans h₂.1, fun Γ p hat hf => ?_⟩
    exact .call hf.1 (h₁.2 Γ p hat hf.2.1) (h₂.2 Γ p (hat.same h₁.1) hf.2.2)
  | get o name =>
    rw [expr]
    refine (expr_resolves hT o r).bind fun o' r' => .pure ?_
    intro h
    exact ⟨h.1, fun Γ p hat hf => .get hf.1 (h.2 Γ p hat hf.2)⟩
  | set o name e =>
    rw [expr]
    refine (expr_resolves hT e r).bind fun e' r₁ => ?_
    refine (expr_resolves hT o r₁).bind fun o' r₂ => .pure ?_
    intro h₂ h₁
    refine ⟨h₁.1.trans h₂.1, fun Γ p hat hf => ?_⟩
    exact .set hf.1 (h₂.2 Γ p (hat.same h₁.1) hf.2.1) (h₁.2 Γ p hat hf.2.2)
  | this ref =>
    rw [expr]
    refine (this_resolves hT ref r).bind fun ref' r' => .pure ?_
    exact id
  | super ref method =>
    rw [expr]
    refine (super_resolves hT ref method r).bind fun ref' r' => .pure ?_
    exact id

theorem exprs_resolves (hT : ∀ t, T t → t.Lexical) (es : List (Expr Mark)) (r : Resolver) :
    Resolves (exprs es)
      (fun es' r' => Same r r' ∧ ∀ Γ p, At r Γ p → Expr.FormedAll T es →
        ∀ e' ∈ es', e'.Scoped T Γ p) r := by
  cases es with
  | nil =>
    rw [exprs]
    exact .pure ⟨.refl r, fun _ _ _ _ e' he => absurd he List.not_mem_nil⟩
  | cons e es =>
    rw [exprs]
    refine (expr_resolves hT e r).bind fun e' r₁ => ?_
    refine (exprs_resolves hT es r₁).bind fun es' r₂ => .pure ?_
    intro h₂ h₁
    refine ⟨h₁.1.trans h₂.1, fun Γ p hat hf => ?_⟩
    exact List.forall_mem_cons.2 ⟨h₁.2 Γ p hat hf.1, h₂.2 Γ p (hat.same h₁.1) hf.2⟩
end

theorem expr?_resolves (hT : ∀ t, T t → t.Lexical) (o : Option (Expr Mark)) (r : Resolver) :
    Resolves (expr? o)
      (fun o' r' => Same r r' ∧ ∀ Γ p, At r Γ p → Expr.Formed? T o →
        ∀ e' ∈ o', Expr.Scoped T Γ p e') r := by
  cases o with
  | none => exact .pure ⟨.refl r, fun _ _ _ _ e' he => by cases he⟩
  | some e =>
    refine (expr_resolves hT e r).bind fun e' r' => .pure ?_
    intro h
    refine ⟨h.1, fun Γ p hat hf e'' he => ?_⟩
    cases he
    exact h.2 Γ p hat hf

/-- Two states of the resolver inside the same routine and class. -/
structure Back (r r' : Resolver) : Prop where
  body : r'.body = r.body
  home : r'.home = r.home

theorem Back.refl (r : Resolver) : Back r r := ⟨rfl, rfl⟩

theorem Back.trans (h : Back r r') (h' : Back r' r'') : Back r r'' :=
  ⟨h'.body.trans h.body, h'.home.trans h.home⟩

theorem Same.back (h : Same r r') : Back r r' := ⟨h.body, h.home⟩

/-- Setting a name declares it, or changes nothing but whether it can be read. -/
structure Marks (x : Text) (b : Bool) (r r' : Resolver) : Prop where
  back : Back r r'
  declares : ∀ Γ, Agrees r.scopes Γ → Agrees r'.scopes (Γ.declare x)
  keeps : ∀ Γ, Agrees r.scopes (Scopes.declare x Γ) → Agrees r'.scopes (Γ.declare x)
  ready : ∀ s ss, r'.scopes = s :: ss → s.get? x = some b

theorem mark_resolves (x : Text) (b : Bool) (r : Resolver) :
    Resolves (mark x b) (fun _ r' => Marks x b r r') r := by
  unfold Resolves
  cases hs : r.scopes with
  | nil =>
    rw [mark_nil hs]
    refine ⟨[], (List.append_nil _).symm, fun _ => ⟨.refl r, fun Γ h => ?_, fun Γ h => h, ?_⟩⟩
    · rw [hs] at h ⊢
      cases h
      exact .nil
    · intro s ss h
      rw [hs] at h
      cases h
  | cons s ss =>
    rw [mark_cons hs]
    refine ⟨[], (List.append_nil _).symm, fun _ => ⟨⟨rfl, rfl⟩, fun Γ h => ?_, fun Γ h => ?_, ?_⟩⟩
    · rw [hs] at h
      cases h with
      | cons hl ht => exact .cons (hl.set x b) ht
    · rw [hs] at h
      cases Γ with
      | nil => cases h
      | cons g Γ =>
        cases h with
        | cons hl ht => exact .cons (hl.set_again b) ht
    · intro s' ss' h
      cases h
      exact Dict.get?_set_self s x b

theorem Agrees.free (h : Agrees ss Γ) (hx : ¬ Dict.has (ss.head?.getD []) x) : Γ.Free x := by
  intro g hg hm
  cases h with
  | nil => cases hg
  | cons hl _ =>
    cases hg
    exact hx ((hl x).2 hm)

theorem declare_resolves (name : Token) (r : Resolver) :
    Resolves (declare name)
      (fun _ r' => Back r r' ∧ ∀ Γ, Agrees r.scopes Γ →
        Stands r' (Γ.declare name.lexeme) (some name.lexeme) ∧ Γ.Free name.lexeme) r := by
  rw [declare]
  refine Resolves.get ?_
  split
  · exact Resolves.report fun r' => (mark_resolves _ _ r').mono fun _ _ _ => trivial
  · rename_i hfree
    refine (mark_resolves _ _ r).mono ?_
    intro _ r' h
    refine ⟨h.back, fun Γ hΓ =>
      ⟨⟨h.declares Γ hΓ, fun x s ss hx hs => ?_⟩, hΓ.free hfree⟩⟩
    cases hx
    exact h.ready s ss hs

theorem define_resolves (name : Token) (r : Resolver) :
    Resolves (define name)
      (fun _ r' => Back r r' ∧ ∀ Γ, Agrees r.scopes (Scopes.declare name.lexeme Γ) →
        Agrees r'.scopes (Γ.declare name.lexeme)) r :=
  (mark_resolves _ _ r).mono fun _ _ h => ⟨h.back, h.keeps⟩

theorem params_resolves (ps : List Token) (r : Resolver) :
    Resolves (params ps)
      (fun _ r' => Back r r' ∧ ∀ g Γ, Agrees r.scopes (g :: Γ) →
        Agrees r'.scopes (((ps.map Token.lexeme).reverse ++ g) :: Γ)) r := by
  induction ps generalizing r with
  | nil => exact .pure ⟨.refl r, fun g Γ h => h⟩
  | cons p ps ih =>
    rw [params]
    refine (declare_resolves p r).bind fun _ r₁ => ?_
    refine (define_resolves p r₁).bind fun _ r₂ => ?_
    refine (ih r₂).mono ?_
    intro _ r₃ h₃ h₂ h₁
    refine ⟨(h₁.1.trans h₂.1).trans h₃.1, fun g Γ h => ?_⟩
    have hdefined := h₂.2 (g :: Γ) (h₁.2 (g :: Γ) h).1.agrees
    have hrest := h₃.2 _ _ hdefined
    rw [List.map_cons, List.reverse_cons, List.append_assoc]
    exact hrest

theorem superclass_resolves (name : Token) (sup : Option (Reference Mark)) (r : Resolver) :
    Resolves (superclass name sup)
      (fun sup' r' => sup'.isSome = sup.isSome ∧ r'.body = r.body ∧
        r'.home = (if sup.isSome then .derived else r.home) ∧
        ∀ Γ, Agrees r.scopes Γ → (∀ ref ∈ sup, ref.name.Names T) →
          (∀ ref ∈ sup', (Expr.var ref).Scoped T Γ (some name.lexeme)) ∧
          Agrees r'.scopes (if sup.isSome then ["super"] :: Γ else Γ)) r := by
  cases sup with
  | none =>
    refine .pure ⟨rfl, rfl, rfl, fun Γ h _ => ⟨?_, h⟩⟩
    intro ref href
    cases href
  | some ref =>
    have hrest (r : Resolver) :
        Resolves (MonadState.modifyGet (fun r => ((), { r with home := .derived })) >>= fun _ =>
          read ref >>= fun ref => begin >>= fun _ => mark "super" true >>= fun _ =>
          Pure.pure (some ref))
          (fun sup' r' => sup'.isSome = true ∧ r'.body = r.body ∧ r'.home = .derived ∧
            ∀ Γ, Agrees r.scopes Γ → ref.name.Names T → ref.name.lexeme ≠ name.lexeme →
              (∀ ref ∈ sup', (Expr.var ref).Scoped T Γ (some name.lexeme)) ∧
              Agrees r'.scopes (["super"] :: Γ)) r := by
      refine Resolves.modify rfl ?_
      refine (read_resolves (T := T) ref _).bind fun ref' r₁ => ?_
      refine Resolves.modify rfl ?_
      refine (mark_resolves _ _ _).bind fun _ r₂ => .pure ?_
      intro h₂ h₁
      refine ⟨rfl, h₂.back.body.trans h₁.1.body, h₂.back.home.trans h₁.1.home, ?_⟩
      intro Γ h hn hne
      refine ⟨fun ref href => ?_, ?_⟩
      · cases href
        cases h₁.2.2 Γ none (.of_agrees h) hn with
        | var hn hmark _ =>
          exact .var hn hmark fun _ he => hne (h₁.2.1 ▸ (Option.some.inj he).symm)
      · refine h₂.declares ([] :: Γ) (.cons .nil ?_)
        rw [h₁.1.scopes]
        exact h
    rw [superclass]
    split
    · exact Resolves.report fun r' => (hrest r').mono fun _ _ _ => trivial
    · rename_i hne
      refine (hrest r).mono ?_
      intro sup' r' h
      exact ⟨h.1, h.2.1, h.2.2.1, fun Γ hΓ hn => h.2.2.2 Γ hΓ (hn ref rfl) hne⟩

theorem At.declare (hT : ∀ t, T t → t.Lexical) (h : At r Γ none) (hb : Back r r')
    (hx : Token.Names T x) (ha : Agrees r'.scopes (Γ.declare x.lexeme)) :
    At r' (Γ.declare x.lexeme) none := by
  obtain ⟨hthis, hsuper⟩ := (hT x hx.1).1 hx.2
  exact ⟨.of_agrees ha, hb.home ▸ h.housed.declare hthis hsuper⟩

theorem Agrees.tail (h : Agrees ss Γ) : Agrees ss.tail Γ.tail := by
  cases h with
  | nil => exact .nil
  | cons _ ht => exact ht

/-- After what was done in an inner scope the resolver stands where it stood. -/
theorem At.leave (h : At r Γ none) (hin : At r₁ Γ₁ none) (htail : Γ₁.tail = Γ)
    (hscopes : r'.scopes = r₁.scopes.tail) (hhome : r'.home = r.home) : At r' Γ none := by
  refine ⟨.of_agrees ?_, hhome ▸ h.housed⟩
  rw [hscopes, ← htail]
  exact hin.agrees.tail

theorem checkReturn_resolves (keyword : Token) (value : Option (Expr Mark)) (r : Resolver) :
    Resolves (checkReturn keyword value) (fun _ r' => Same r r') r := by
  rw [checkReturn]
  refine Resolves.get ?_
  dsimp only
  split
  · refine Resolves.report fun r' => ?_
    split
    · exact Resolves.report fun r'' => .pure trivial
    · exact .pure trivial
  · split
    · exact Resolves.report fun r'' => .pure trivial
    · exact .pure (.refl r)

theorem classDecl_scoped {sup : Option (Reference Mark)} {sup' : Option (Reference Distance)}
    {r r₁ r₂ r₃ r₄ r₅ : Resolver} (r₆ : Resolver) (hT : ∀ t, T t → t.Lexical)
    (h₁ : Back { r with home := .plain } r₁ ∧ ∀ Γ, Agrees r.scopes Γ →
      Stands r₁ (Γ.declare name.lexeme) (some name.lexeme) ∧ Γ.Free name.lexeme)
    (h₂ : Back r₁ r₂ ∧ ∀ Γ, Agrees r₁.scopes (Scopes.declare name.lexeme Γ) →
      Agrees r₂.scopes (Γ.declare name.lexeme))
    (h₃ : sup'.isSome = sup.isSome ∧ r₃.body = r₂.body ∧
      r₃.home = (if sup.isSome then .derived else r₂.home) ∧
      ∀ Γ, Agrees r₂.scopes Γ → (∀ ref ∈ sup, ref.name.Names T) →
        (∀ ref ∈ sup', (Expr.var ref).Scoped T Γ (some name.lexeme)) ∧
        Agrees r₃.scopes (if sup.isSome then ["super"] :: Γ else Γ))
    (h₄ : Marks "this" true { r₃ with scopes := [] :: r₃.scopes } r₄)
    (h₅ : Back r₄ r₅ ∧ ∀ Γ, At r₄ Γ none → Stmt.FormedRoutines T methods →
      (∀ f ∈ methods', Routine.Scoped T Γ f) ∧ At r₅ Γ none)
    (hbody : r₆.body = r₅.body) (hhome : r₆.home = r.home)
    (hscopes : r₆.scopes = r₅.scopes.tail.drop (if sup'.isSome then 1 else 0)) :
    Back r r₆ ∧ ∀ Γ, At r Γ none → (Stmt.classDecl name sup methods).Formed T →
      (Stmt.classDecl name sup' methods').Scoped T Γ ∧
      At r₆ (Γ.declare name.lexeme) none := by
  obtain ⟨hsome, hbody₃, hhome₃, hsup⟩ := h₃
  have hback : Back r r₆ := by
    refine ⟨?_, hhome⟩
    rw [hbody, h₅.1.body, h₄.back.body, hbody₃, h₂.1.body, h₁.1.body]
  refine ⟨hback, fun Γ hat hf => ?_⟩
  obtain ⟨hstands, hfree⟩ := h₁.2 Γ hat.agrees
  obtain ⟨hvar, hagrees⟩ := hsup _ (h₂.2 Γ hstands.agrees) hf.2.1
  have hat₄ : At r₄ (Scopes.ofClass sup.isSome (Γ.declare name.lexeme)) none := by
    refine ⟨.of_agrees (h₄.declares _ (.cons .nil hagrees)), ?_⟩
    have hhome₄ : r₄.home = if sup.isSome then .derived else .plain := by
      rw [h₄.back.home, hhome₃, h₂.1.home, h₁.1.home]
    rw [hhome₄]
    exact Housed.ofClass _ _
  obtain ⟨hmethods, hat₅⟩ := h₅.2 _ hat₄ hf.2.2
  rw [← hsome] at hmethods
  refine ⟨.classDecl hf.1 hvar hmethods hfree, hat.declare hT hback hf.1 ?_⟩
  rw [hscopes, hsome]
  cases sup with
  | none => exact hat₅.agrees.tail
  | some ref =>
    simp only [Option.isSome_some, ↓reduceIte, List.drop_one]
    exact hat₅.agrees.tail.tail

mutual
theorem stmt_resolves (hT : ∀ t, T t → t.Lexical) (s : Stmt Mark) (r : Resolver) :
    Resolves (stmt s)
      (fun s' r' => Back r r' ∧ s'.declared? = s.declared? ∧ ∀ Γ, At r Γ none → s.Formed T →
        s'.Scoped T Γ ∧ At r' (Γ.declare? s.declared?) none) r := by
  cases s with
  | expression e =>
    rw [stmt]
    refine (expr_resolves hT e r).bind fun e' r' => .pure ?_
    intro h
    exact ⟨h.1.back, rfl, fun Γ hat hf => ⟨.expression (h.2 Γ none hat hf), hat.same h.1⟩⟩
  | print e =>
    rw [stmt]
    refine (expr_resolves hT e r).bind fun e' r' => .pure ?_
    intro h
    exact ⟨h.1.back, rfl, fun Γ hat hf => ⟨.print (h.2 Γ none hat hf), hat.same h.1⟩⟩
  | varDecl name init =>
    rw [stmt]
    refine (declare_resolves name r).bind fun _ r₁ => ?_
    refine (expr?_resolves hT init r₁).bind fun init' r₂ => ?_
    refine (define_resolves name r₂).bind fun _ r₃ => .pure ?_
    intro h₃ h₂ h₁
    refine ⟨(h₁.1.trans h₂.1.back).trans h₃.1, rfl, fun Γ hat hf => ?_⟩
    obtain ⟨hthis, hsuper⟩ := (hT name hf.1.1).1 hf.1.2
    obtain ⟨hstands, hfree⟩ := h₁.2 Γ hat.agrees
    have hinit : At r₁ (Γ.declare name.lexeme) (some name.lexeme) :=
      ⟨hstands, h₁.1.home ▸ hat.housed.declare hthis hsuper⟩
    refine ⟨.varDecl hf.1 (fun e he => h₂.2 _ _ hinit hf.2 e he) hfree, ?_⟩
    exact hat.declare hT ((h₁.1.trans h₂.1.back).trans h₃.1) hf.1
      (h₃.2 Γ (hinit.same h₂.1).agrees)
  | block body =>
    rw [stmt]
    refine Resolves.modify rfl ?_
    refine (stmts_resolves hT body _).bind fun body' r₁ => ?_
    refine Resolves.modify rfl (.pure ?_)
    intro h
    refine ⟨⟨h.1.body, h.1.home⟩, rfl, fun Γ hat hf => ?_⟩
    have hin : At { r with scopes := [] :: r.scopes } ([] :: Γ) none :=
      ⟨.of_agrees (.cons .nil hat.agrees), hat.housed.begin (by simp) (by simp)⟩
    obtain ⟨hbody, Γ', hat', htail, -⟩ := h.2 _ hin hf
    exact ⟨.block hbody, hat.leave hat' htail rfl h.1.home⟩
  | ifThen c s =>
    rw [stmt]
    refine (expr_resolves hT c r).bind fun c' r₁ => ?_
    refine (stmt_resolves hT s r₁).bind fun s' r₂ => .pure ?_
    intro h₂ h₁
    refine ⟨h₁.1.back.trans h₂.1, rfl, fun Γ hat hf => ?_⟩
    obtain ⟨hs, hat'⟩ := h₂.2.2 Γ (hat.same h₁.1) hf.2.2
    rw [hf.2.1] at hat'
    exact ⟨.ifThen (h₁.2 Γ none hat hf.1) (h₂.2.1.trans hf.2.1) hs, hat'⟩
  | ifElse c s t =>
    rw [stmt]
    refine (expr_resolves hT c r).bind fun c' r₁ => ?_
    refine (stmt_resolves hT s r₁).bind fun s' r₂ => ?_
    refine (stmt_resolves hT t r₂).bind fun t' r₃ => .pure ?_
    intro h₃ h₂ h₁
    refine ⟨(h₁.1.back.trans h₂.1).trans h₃.1, rfl, fun Γ hat hf => ?_⟩
    obtain ⟨hs, hat'⟩ := h₂.2.2 Γ (hat.same h₁.1) hf.2.1.2
    rw [hf.2.1.1] at hat'
    obtain ⟨ht, hat''⟩ := h₃.2.2 Γ hat' hf.2.2.2
    rw [hf.2.2.1] at hat''
    exact ⟨.ifElse (h₁.2 Γ none hat hf.1) (h₂.2.1.trans hf.2.1.1) hs (h₃.2.1.trans hf.2.2.1) ht,
      hat''⟩
  | loop c s =>
    rw [stmt]
    refine (expr_resolves hT c r).bind fun c' r₁ => ?_
    refine (stmt_resolves hT s r₁).bind fun s' r₂ => .pure ?_
    intro h₂ h₁
    refine ⟨h₁.1.back.trans h₂.1, rfl, fun Γ hat hf => ?_⟩
    obtain ⟨hs, hat'⟩ := h₂.2.2 Γ (hat.same h₁.1) hf.2.2
    rw [hf.2.1] at hat'
    exact ⟨.loop (h₁.2 Γ none hat hf.1) (h₂.2.1.trans hf.2.1) hs, hat'⟩
  | funDecl f =>
    obtain ⟨name, ps, body⟩ := f
    rw [stmt]
    refine (declare_resolves name r).bind fun _ r₁ => ?_
    refine (define_resolves name r₁).bind fun _ r₂ => ?_
    refine (routine_resolves hT .function ⟨name, ps, body⟩ r₂).bind fun f' r₃ => .pure ?_
    intro h₃ h₂ h₁
    have hname : f'.name = name := h₃.2.1
    refine ⟨(h₁.1.trans h₂.1).trans h₃.1, congrArg (fun t : Token => some t.lexeme) hname,
      fun Γ hat hf => ?_⟩
    obtain ⟨hstands, hfree⟩ := h₁.2 Γ hat.agrees
    have hat₂ : At r₂ (Γ.declare name.lexeme) none :=
      hat.declare hT (h₁.1.trans h₂.1) hf.1 (h₂.2 Γ hstands.agrees)
    obtain ⟨hr, hat₃⟩ := h₃.2.2 _ hat₂ hf
    exact ⟨.funDecl (hname ▸ hf.1) (hname ▸ hr) (hname ▸ hfree), hat₃⟩
  | ret keyword value =>
    rw [stmt]
    refine (checkReturn_resolves keyword value r).bind fun _ r₁ => ?_
    refine (expr?_resolves hT value r₁).bind fun value' r₂ => .pure ?_
    intro h₂ h₁
    refine ⟨h₁.back.trans h₂.1.back, rfl, fun Γ hat hf => ?_⟩
    have hat₁ := hat.same h₁
    exact ⟨.ret (h₂.2 Γ none hat₁ hf), hat₁.same h₂.1⟩
  | classDecl name sup methods =>
    rw [stmt]
    refine Resolves.get ?_
    refine Resolves.modify rfl ?_
    refine (declare_resolves name _).bind fun _ r₁ => ?_
    refine (define_resolves name r₁).bind fun _ r₂ => ?_
    refine (superclass_resolves (T := T) name sup r₂).bind fun sup' r₃ => ?_
    refine Resolves.modify rfl ?_
    refine (mark_resolves _ _ _).bind fun _ r₄ => ?_
    refine (routines_resolves hT methods r₄).bind fun methods' r₅ => ?_
    refine Resolves.modify rfl ?_
    split
    · rename_i hsome
      refine Resolves.modify rfl (Resolves.modify rfl (.pure ?_))
      intro h₅ h₄ h₃ h₂ h₁
      obtain ⟨hb, hscoped⟩ := classDecl_scoped
        { r₅ with scopes := r₅.scopes.tail.tail, home := r.home } hT h₁ h₂ h₃ h₄ h₅ rfl rfl
        (by simp only [hsome, ↓reduceIte, List.drop_one])
      exact ⟨hb, rfl, hscoped⟩
    · rename_i hnone
      refine Resolves.modify rfl (.pure ?_)
      intro h₅ h₄ h₃ h₂ h₁
      obtain ⟨hb, hscoped⟩ := classDecl_scoped
        { r₅ with scopes := r₅.scopes.tail, home := r.home } hT h₁ h₂ h₃ h₄ h₅ rfl rfl
        (by simp only [hnone, Bool.false_eq_true, ↓reduceIte, List.drop_zero])
      exact ⟨hb, rfl, hscoped⟩

theorem stmts_resolves (hT : ∀ t, T t → t.Lexical) (ss : List (Stmt Mark)) (r : Resolver) :
    Resolves (stmts ss)
      (fun ss' r' => Back r r' ∧ ∀ Γ, At r Γ none → Stmt.FormedAll T ss →
        Program.Scoped T Γ ss' ∧
          ∃ Γ', At r' Γ' none ∧ Γ'.tail = Γ.tail ∧ (Γ = [] → Γ' = [])) r := by
  cases ss with
  | nil =>
    rw [stmts]
    exact .pure ⟨.refl r, fun Γ hat _ => ⟨.nil, Γ, hat, rfl, id⟩⟩
  | cons s ss =>
    rw [stmts]
    refine (stmt_resolves hT s r).bind fun s' r₁ => ?_
    refine (stmts_resolves hT ss r₁).bind fun ss' r₂ => .pure ?_
    intro h₂ h₁
    refine ⟨h₁.1.trans h₂.1, fun Γ hat hf => ?_⟩
    obtain ⟨hs, hat₁⟩ := h₁.2.2 Γ hat hf.1
    obtain ⟨hss, Γ', hat₂, htail, hnil⟩ := h₂.2 _ hat₁ hf.2
    refine ⟨.cons hs (h₁.2.1 ▸ hss), Γ', hat₂, htail.trans (Scopes.declare?_tail Γ _), ?_⟩
    intro he
    exact hnil (he ▸ Scopes.declare?_nil _)

theorem routine_resolves (hT : ∀ t, T t → t.Lexical) (kind : Body) (f : Routine (Stmt Mark))
    (r : Resolver) :
    Resolves (routine kind f)
      (fun f' r' => Back r r' ∧ f'.name = f.name ∧ ∀ Γ, At r Γ none → Stmt.FormedRoutine T f →
        f'.Scoped T Γ ∧ At r' Γ none) r := by
  obtain ⟨name, ps, body⟩ := f
  rw [routine]
  refine Resolves.get ?_
  refine Resolves.modify rfl ?_
  refine Resolves.modify rfl ?_
  refine (params_resolves ps _).bind fun _ r₁ => ?_
  refine (stmts_resolves hT body r₁).bind fun body' r₂ => ?_
  refine Resolves.modify rfl ?_
  refine Resolves.modify rfl (.pure ?_)
  intro h₂ h₁
  have hhome : r₂.home = r.home := h₂.1.home.trans h₁.1.home
  refine ⟨⟨rfl, hhome⟩, rfl, fun Γ hat hf => ?_⟩
  have hps : Agrees r₁.scopes ((ps.map Token.lexeme).reverse :: Γ) := by
    have h := h₁.2 [] Γ (.cons .nil hat.agrees)
    rwa [List.append_nil] at h
  have hin : At r₁ ((ps.map Token.lexeme).reverse :: Γ) none := by
    refine ⟨.of_agrees hps, ?_⟩
    rw [h₁.1.home]
    refine hat.housed.begin ?_ ?_
    · intro hm
      obtain ⟨p, hp, hx⟩ := List.mem_map.1 (List.mem_reverse.1 hm)
      exact ((hT p (hf.2.1 p hp).1).1 (hf.2.1 p hp).2).1 hx
    · intro hm
      obtain ⟨p, hp, hx⟩ := List.mem_map.1 (List.mem_reverse.1 hm)
      exact ((hT p (hf.2.1 p hp).1).1 (hf.2.1 p hp).2).2 hx
  obtain ⟨hbody, Γ', hat', htail, -⟩ := h₂.2 _ hin hf.2.2
  exact ⟨.mk hf.2.1 hbody, hat.leave hat' htail rfl hhome⟩

theorem routines_resolves (hT : ∀ t, T t → t.Lexical) (fs : List (Routine (Stmt Mark)))
    (r : Resolver) :
    Resolves (routines fs)
      (fun fs' r' => Back r r' ∧ ∀ Γ, At r Γ none → Stmt.FormedRoutines T fs →
        (∀ f' ∈ fs', Routine.Scoped T Γ f') ∧ At r' Γ none) r := by
  cases fs with
  | nil =>
    rw [routines]
    exact .pure ⟨.refl r, fun Γ hat _ => ⟨fun f' hf => absurd hf List.not_mem_nil, hat⟩⟩
  | cons f fs =>
    rw [routines]
    refine (routine_resolves hT _ f r).bind fun f' r₁ => ?_
    refine (routines_resolves hT fs r₁).bind fun fs' r₂ => .pure ?_
    intro h₂ h₁
    refine ⟨h₁.1.trans h₂.1, fun Γ hat hf => ?_⟩
    obtain ⟨hr, hat₁⟩ := h₁.2.2 Γ hat hf.1
    obtain ⟨hrs, hat₂⟩ := h₂.2 Γ hat₁ hf.2
    exact ⟨List.forall_mem_cons.2 ⟨hr, hrs⟩, hat₂⟩
end

end Resolver

namespace Resolved
open Resolver

theorem initial_at : At Resolver.initial [] none := ⟨.of_agrees .nil, trivial⟩

theorem ofProgram_scoped (hT : ∀ t, T t → t.Lexical) {program : List (Stmt Mark)}
    (hf : Stmt.FormedAll T program) (h : (ofProgram program).diagnostics = []) :
    Program.Scoped T [] (ofProgram program).tree := by
  obtain ⟨ds, hd, hr⟩ := stmts_resolves hT program Resolver.initial
  have hds : ds = [] := (List.append_eq_nil_iff.1 (hd.symm.trans h)).2
  exact ((hr hds).2 [] initial_at hf).1

end Resolved

end LoxLang
