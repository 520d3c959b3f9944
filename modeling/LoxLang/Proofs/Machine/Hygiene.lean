import LoxLang.Proofs.Machine.Reruns

namespace LoxLang
set_option autoImplicit true

inductive Completion.Spelled (E : Exchange) (W : Atlas) : Completion → Completion → Prop where
  | normal : Completion.Spelled E W .normal .normal
  | returned : v.Spelled E W v' → Completion.Spelled E W (.returned v) (.returned v')

namespace Machine

variable {E : Exchange} {host : Host} {W W' : Atlas} {Λ Λ' : Legend}

/-- With this many steps every function of the evaluator comes to the same in both spellings. -/
structure Hygienic (E : Exchange) (host : Host) (n : Nat) : Prop where
  evaluate : ∀ W Λ e, Reruns E Λ W (Value.Spelled E) (evaluate host n e)
    (evaluate host n (e.spell E Λ))
  arguments : ∀ W Λ es, Reruns E Λ W (fun W => List.Forall₂ (Value.Spelled E W))
    (arguments host n es) (arguments host n (Expr.spellAll E Λ es))
  call : ∀ {Λ} W v v' args args', v.Spelled E W v' → List.Forall₂ (Value.Spelled E W) args args' →
    Reruns E Λ W (Value.Spelled E) (call host n v args) (call host n v' args')
  invoke : ∀ W Λ f f' args args', Closure.Spelled E id W f f' →
    List.Forall₂ (Value.Spelled E W) args args' →
    Reruns E Λ W (Value.Spelled E) (invoke host n f args) (invoke host n f' args')
  run : ∀ W Λ ss ss', Program.Spelled E Λ ss ss' →
    Reruns E Λ W (Completion.Spelled E) (run host n ss) (run host n ss')
  execute : ∀ W Λ s s', Stmt.Spelled E Λ s s' →
    Reruns E Λ W (Completion.Spelled E) (execute host n s) (execute host n s')
  loop : ∀ W Λ c s s', Stmt.Spelled E Λ s s' →
    Reruns E Λ W (Completion.Spelled E) (loop host n c s) (loop host n (c.spell E Λ) s')

theorem Hygienic.zero : Hygienic E host 0 where
  evaluate _ _ _ := .throw .exhausted
  arguments _ _ _ := .throw .exhausted
  call _ _ _ _ _ _ _ := .throw .exhausted
  invoke _ _ _ _ _ _ _ _ := .throw .exhausted
  run _ _ _ _ _ := .throw .exhausted
  execute _ _ _ _ _ := .throw .exhausted
  loop _ _ _ _ _ _ := .throw .exhausted

theorem evaluate_reruns (ih : Hygienic E host n) (e : Expr Distance) :
    Reruns E Λ W (Value.Spelled E) (evaluate host (n + 1) e)
      (evaluate host (n + 1) (e.spell E Λ)) := by
  cases e with
  | literal => exact .pure (Value.ofLiteral_over _)
  | grouping e => exact ih.evaluate W Λ e
  | unary op e => exact (ih.evaluate W Λ e).bind fun _ _ _ _ hv => negate_reruns op hv
  | binary l op r =>
    apply (ih.evaluate W Λ l).bind
    intro W₁ _ _ _ hv
    apply (ih.evaluate W₁ Λ r).bind
    intro _ hW₂ _ _ hu
    exact combine_reruns op (hv.grows hW₂) hu
  | logical l op r =>
    apply (ih.evaluate W Λ l).bind
    intro W₁ _ _ _ hv
    rw [hv.truthy]
    exact .ite (.pure hv) (ih.evaluate W₁ Λ r)
  | var ref | this ref => exact lookUp_reruns ref
  | assign ref e =>
    apply (ih.evaluate W Λ e).bind
    intro _ _ _ _ hv
    exact (assign_reruns ref hv).bind fun _ hW₂ _ _ _ => .pure (hv.grows hW₂)
  | call f paren args =>
    apply (ih.evaluate W Λ f).bind
    intro W₁ _ v v' hv
    apply (ih.arguments W₁ Λ args).bind
    intro W₂ hW₂ args args' hargs
    rw [arity?_respelled host hv, ← hargs.length_eq]
    cases arity? host v with
    | none => exact fault_reruns rfl _
    | some k => exact .ite (ih.call _ _ _ _ _ (hv.grows hW₂) hargs) (fault_reruns rfl _)
  | get o x =>
    apply (ih.evaluate W Λ o).bind
    intro _ _ _ _ hv
    cases hv with
    | object hc => exact property_reruns _ hc x
    | _ => exact fault_reruns rfl _
  | set o x e =>
    apply (ih.evaluate W Λ o).bind
    intro W₁ _ _ _ hv
    cases hv with
    | object hc =>
      apply (ih.evaluate W₁ Λ e).bind
      intro W₂ _ _ _ hv
      refine (Reruns.modify fun m m' hm => ?_).bind fun _ hW₃ _ _ _ => .pure (hv.grows hW₃)
      exact hm.withStore (.refl W₂) (hm.store.setField _ _ hv)
    | _ => exact fault_reruns rfl _
  | super ref x => exact superMethod_reruns ref.mark x

theorem arguments_reruns (ih : Hygienic E host n) (es : List (Expr Distance)) :
    Reruns E Λ W (fun W => List.Forall₂ (Value.Spelled E W)) (arguments host (n + 1) es)
      (arguments host (n + 1) (Expr.spellAll E Λ es)) := by
  cases es with
  | nil => exact .pure .nil
  | cons e es =>
    apply (ih.evaluate W Λ e).bind
    intro W₁ _ _ _ hv
    exact (ih.arguments W₁ Λ es).bind fun _ hW₂ _ _ hvs => .pure (.cons (hv.grows hW₂) hvs)

theorem act_reruns {S : Semblance} {call call' : Value → List Value → Eval Value}
    (hcall : ∀ W v v' args args', v.Spelled E W v' → List.Forall₂ (Value.Spelled E W) args args' →
      Reruns E Λ W (Value.Spelled E) (call v args) (call' v' args'))
    (h : Native.Act.Over S act act') (hS : S = semblance E W) :
    Reruns E Λ W (Value.Spelled E) (act.perform (serve host) property call)
      (act'.perform (serve host) property call') := by
  induction h generalizing W with
  | done hv =>
    subst hS
    exact .pure hv
  | fail he => exact .throw he
  | ask hq _ ih =>
    subst hS
    exact (serve_reruns host hq).bind fun W' hW vs vs' hvs =>
      ih _ (semblance_grows hW) vs vs' hvs rfl
  | property hc _ ih =>
    subst hS
    exact (property_reruns _ hc _).attempt.bind fun W' hW r r' hr =>
      ih _ (semblance_grows hW) r r' hr rfl
  | call hf hargs _ ih =>
    subst hS
    exact (hcall _ _ _ _ _ hf hargs).attempt.bind fun W' hW r r' hr =>
      ih _ (semblance_grows hW) r r' hr rfl

theorem call_reruns (hN : ∀ n ∈ host.natives, n.Incurious) (ih : Hygienic E host n)
    (h : v.Spelled E W v') (hargs : List.Forall₂ (Value.Spelled E W) args args') :
    Reruns E Λ W (Value.Spelled E) (call host (n + 1) v args) (call host (n + 1) v' args') := by
  cases h with
  | function hf => exact ih.invoke _ _ _ _ _ _ hf hargs
  | @klass c c' hc =>
    rw [call, call]
    apply newObject_reruns.bind
    rintro W₁ hW₁ _ id rfl
    have hinit := hc.findMethod "init"
    have hobject : Value.Spelled E W₁ (.object id c) (.object id c') :=
      .object (Class.Spelled.grows hW₁ hc)
    unfold Class.initializer?
    generalize c.findMethod "init" = o, c'.findMethod "init" = o' at hinit
    cases hinit with
    | none => exact .pure hobject
    | some hf =>
      apply (bindMethod_reruns (hf.grows hW₁ _ _) hobject).bind
      intro W₂ hW₂ _ _ hf
      have hargs := hargs.imp (Value.Spelled.grows (hW₁.trans hW₂))
      apply (ih.invoke _ _ _ _ _ _ hf hargs).bind
      intro _ hW₃ _ _ _
      exact .pure (hobject.grows (hW₂.trans hW₃) _ _)
  | @native i =>
    rw [call, call]
    cases hi : host.natives[i]? with
    | none => exact crash_reruns _
    | some native =>
      have hover := hN native (List.mem_of_getElem? hi) (semblance E W) host.now args args' hargs
      exact act_reruns ih.call hover rfl
  | _ => exact crash_reruns _

theorem invoke_reruns (ih : Hygienic E host n) (h : Closure.Spelled E id W f f')
    (hargs : List.Forall₂ (Value.Spelled E W) args args') :
    Reruns E Λ W (Value.Spelled E) (invoke host (n + 1) f args)
      (invoke host (n + 1) f' args') := by
  cases h with
  | @mk k Λ' _ _ _ _ hk hr =>
    cases hr with
    | @mk _ _ _ _ params hot hbody =>
      rw [invoke, invoke]
      apply (newFrame_reruns hk hot).bind
      rintro W₁ hW₁ frame _ ⟨rfl, hframe⟩
      apply (bindParams_reruns hframe params (hargs.imp (Value.Spelled.grows hW₁))).bind
      intro W₂ hW₂ _ _ _
      apply (Reruns.within (hW₂ _ _ hframe) (ih.run _ _ _ _ hbody)).bind
      intro W₃ hW₃ done done' hdone
      apply Reruns.ite
      · apply Reruns.get
        intro m m' hm
        have hthis := hm.store.getAt?_reserved (hW₃ _ _ (hW₂ _ _ (hW₁ _ _ hk))) 0
          (.inl rfl : Text.Reserved "this")
        generalize m.store.getAt? k 0 "this" = o, m'.store.getAt? k 0 "this" = o' at hthis
        cases hthis with
        | none => exact crash_reruns _
        | some hv => exact .pure hv
      · cases hdone with
        | normal => exact .pure .nil
        | returned hv => exact .pure hv

theorem run_reruns (ih : Hygienic E host n) (h : Program.Spelled E Λ ss ss') :
    Reruns E Λ W (Completion.Spelled E) (run host (n + 1) ss) (run host (n + 1) ss') := by
  cases h with
  | nil => exact .pure .normal
  | cons hs hss =>
    apply (ih.execute _ _ _ _ hs).bind
    intro _ _ _ _ hdone
    cases hdone with
    | normal => exact ih.run _ _ _ _ hss
    | returned hv => exact .pure (.returned hv)

theorem execute_reruns (ih : Hygienic E host n) (h : Stmt.Spelled E Λ s s') :
    Reruns E Λ W (Completion.Spelled E) (execute host (n + 1) s) (execute host (n + 1) s') := by
  cases h with
  | @expression _ e => exact (ih.evaluate W Λ e).bind fun _ _ _ _ _ => .pure .normal
  | @print _ e =>
    apply (ih.evaluate W Λ e).bind
    intro _ _ _ _ hv
    exact (print_reruns hv).bind fun _ _ _ _ _ => .pure .normal
  | @varDecl _ x init =>
    have hrest (W' : Atlas) (v v' : Value) (hv : v.Spelled E W' v') :
        Reruns E Λ W' (Completion.Spelled E)
          (do
            bindVariable (← get).current x.lexeme v
            return .normal)
          (do
            bindVariable (← get).current (x.spell E (Λ 0)).lexeme v'
            return .normal) := by
      apply Reruns.get
      intro m m' hm
      rw [hm.current]
      exact (bindVariable_reruns hm.here x.lexeme hv).bind fun _ _ _ _ _ => .pure .normal
    cases init with
    | none => exact hrest W _ _ .nil
    | some e => exact (ih.evaluate W Λ e).bind fun _ _ _ _ hv => hrest _ _ _ hv
  | block hot hbody =>
    apply Reruns.get
    intro m m' hm
    rw [hm.current]
    apply (newFrame_reruns hm.here hot).bind
    rintro W₁ _ frame _ ⟨rfl, hframe⟩
    exact .within hframe (ih.run _ _ _ _ hbody)
  | @ifThen _ _ _ c hs =>
    apply (ih.evaluate W Λ c).bind
    intro _ _ _ _ hv
    rw [hv.truthy]
    exact .ite (ih.execute _ _ _ _ hs) (.pure .normal)
  | @ifElse _ _ _ _ _ c hs ht =>
    apply (ih.evaluate W Λ c).bind
    intro _ _ _ _ hv
    rw [hv.truthy]
    exact .ite (ih.execute _ _ _ _ hs) (ih.execute _ _ _ _ ht)
  | loop hs => exact ih.loop _ _ _ _ _ hs
  | @funDecl _ r r' hx hr =>
    apply Reruns.get
    intro m m' hm
    dsimp only
    rw [hm.current, hr.name]
    apply (close_reruns id hr hm.here _).bind
    intro W₁ hW₁ _ _ hg
    have hbind := bindVariable_reruns (Λ := Λ) (hW₁ _ _ hm.here) r.name.lexeme (.function hg)
    rw [hx] at hbind
    exact hbind.bind fun _ _ _ _ _ => .pure .normal
  | @ret _ _ value =>
    cases value with
    | none => exact .pure (.returned .nil)
    | some e => exact (ih.evaluate W Λ e).bind fun _ _ _ _ hv => .pure (.returned hv)
  | @classDecl _ methods methods' x sup hx hms =>
    have hrest (W' : Atlas) (c c' : Option Class) (hc : Option.Rel (Class.Spelled E W') c c')
        (hsome : c.isSome = sup.isSome) :
        Reruns E Λ W' (Completion.Spelled E)
          (do
            declareClass x c methods
            return .normal)
          (do
            declareClass x c' methods'
            return .normal) :=
      (declareClass_reruns x hx hc (hsome ▸ hms)).bind fun _ _ _ _ _ => .pure .normal
    cases sup with
    | none => exact hrest W _ _ .none rfl
    | some ref =>
      apply (ih.evaluate W Λ (.var ref)).bind
      intro W₁ _ _ _ hv
      have hline : SameLine ref.name (ref.spell E Λ).name := rfl
      have hfault : Reruns E Λ W₁ (fun W c c' => Option.Rel (Class.Spelled E W) c c' ∧ c.isSome = true)
          (fault ref.name "Superclass must be a class.")
          (fault (ref.spell E Λ).name "Superclass must be a class.") := fault_reruns hline _
      cases hv with
      | klass hc => exact hrest W₁ _ _ (.some hc) rfl
      | _ => exact hfault.bind fun _ _ _ _ hc => hrest _ _ _ hc.1 hc.2

theorem loop_reruns (ih : Hygienic E host n) (c : Expr Distance) (hs : Stmt.Spelled E Λ s s') :
    Reruns E Λ W (Completion.Spelled E) (loop host (n + 1) c s)
      (loop host (n + 1) (c.spell E Λ) s') := by
  rw [loop, loop]
  apply (heed_reruns host).bind
  intro _ _ _ _ _
  apply (ih.evaluate _ Λ c).bind
  intro _ _ _ _ hv
  rw [hv.truthy]
  refine .ite ((ih.execute _ _ _ _ hs).bind fun _ _ _ _ hdone => ?_) (.pure .normal)
  cases hdone with
  | normal => exact ih.loop _ _ _ _ _ hs
  | returned hv => exact .pure (.returned hv)

theorem hygienic (hN : ∀ n ∈ host.natives, n.Incurious) (n : Nat) : Hygienic E host n := by
  induction n with
  | zero => exact .zero
  | succ n ih =>
    exact {
      evaluate := fun _ _ e => evaluate_reruns ih e
      arguments := fun _ _ es => arguments_reruns ih es
      call := fun _ _ _ _ _ h hargs => call_reruns hN ih h hargs
      invoke := fun _ _ _ _ _ _ h hargs => invoke_reruns ih h hargs
      run := fun _ _ _ _ h => run_reruns ih h
      execute := fun _ _ _ _ h => execute_reruns ih h
      loop := fun _ _ c _ _ hs => loop_reruns ih c hs }

theorem statements_reruns (hN : ∀ n ∈ host.natives, n.Incurious) (steps : Nat)
    (ss : List (Stmt Distance)) (h : Program.Spelled E Λ ss ss') :
    Reruns E Λ W Any (statements host steps ss) (statements host steps ss') := by
  induction ss generalizing ss' W with
  | nil =>
    cases h with
    | nil => exact .pure trivial
  | cons s ss ih =>
    obtain ⟨s', ss', rfl, hs, hss⟩ := h.cons_inv
    rw [statements, statements]
    apply (heed_reruns host).bind
    intro _ _ _ _ _
    exact ((hygienic hN steps).execute _ _ _ _ hs).bind fun _ _ _ _ _ => ih hss

end Machine

end LoxLang
