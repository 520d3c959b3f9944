import LoxLang.Proofs.Machine.Parallel

namespace LoxLang

namespace Machine
set_option autoImplicit true

variable {R : Token → Token → Prop} {host : Host}

/-- With this many steps every function of the evaluator keeps machines alike. -/
structure Lockstep (R : Token → Token → Prop) (host : Host) (n : Nat) : Prop where
  evaluate : ∀ e e', e.Alike R Eq e' →
    RunsAlike R (Value.Alike R) (evaluate host n e) (evaluate host n e')
  arguments : ∀ es es', List.Forall₂ (Expr.Alike R Eq) es es' →
    RunsAlike R (List.Forall₂ (Value.Alike R)) (arguments host n es) (arguments host n es')
  call : ∀ v v' args args', v.Alike R v' → List.Forall₂ (Value.Alike R) args args' →
    RunsAlike R (Value.Alike R) (call host n v args) (call host n v' args')
  invoke : ∀ f f' args args', f.Alike R f' → List.Forall₂ (Value.Alike R) args args' →
    RunsAlike R (Value.Alike R) (invoke host n f args) (invoke host n f' args')
  run : ∀ ss ss', List.Forall₂ (Stmt.Alike R Eq) ss ss' →
    RunsAlike R (Completion.Alike R) (run host n ss) (run host n ss')
  execute : ∀ s s', s.Alike R Eq s' →
    RunsAlike R (Completion.Alike R) (execute host n s) (execute host n s')
  loop : ∀ c c' s s', c.Alike R Eq c' → s.Alike R Eq s' →
    RunsAlike R (Completion.Alike R) (loop host n c s) (loop host n c' s')

theorem Lockstep.zero : Lockstep R host 0 where
  evaluate _ _ _ := .throw .exhausted
  arguments _ _ _ := .throw .exhausted
  call _ _ _ _ _ _ := .throw .exhausted
  invoke _ _ _ _ _ _ := .throw .exhausted
  run _ _ _ := .throw .exhausted
  execute _ _ _ := .throw .exhausted
  loop _ _ _ _ _ _ := .throw .exhausted

theorem evaluate_alike (hR : Spelled R) (ih : Lockstep R host n) (h : Expr.Alike R Eq e e') :
    RunsAlike R (Value.Alike R) (evaluate host (n + 1) e) (evaluate host (n + 1) e') := by
  cases h with
  | literal => exact .pure (Value.ofLiteral_alike _)
  | grouping he => exact ih.evaluate _ _ he
  | unary ho he => exact (ih.evaluate _ _ he).bind fun _ _ hv => negate_alike hR ho hv
  | binary hl ho hr =>
    apply (ih.evaluate _ _ hl).bind
    intro _ _ hv
    exact (ih.evaluate _ _ hr).bind fun _ _ hu => combine_alike hR ho hv hu
  | logical hl ho hr =>
    apply (ih.evaluate _ _ hl).bind
    intro _ _ hv
    rw [hv.truthy, ho]
    exact .ite (.pure hv) (ih.evaluate _ _ hr)
  | var href | this href =>
    rw [evaluate, evaluate, ← href.mark]
    exact lookUp_alike hR href.name _
  | assign href he =>
    rw [evaluate, evaluate, ← href.mark]
    apply (ih.evaluate _ _ he).bind
    intro _ _ hv
    exact (assign_alike hR href.name _ hv).bind fun _ _ _ => .pure hv
  | call hf hp ha =>
    apply (ih.evaluate _ _ hf).bind
    intro v v' hv
    apply (ih.arguments _ _ ha).bind
    intro args args' hargs
    rw [arity?_alike host hv, ← hargs.length_eq]
    cases arity? host v with
    | none => exact fault_alike hp _
    | some k => exact .ite (ih.call _ _ _ _ hv hargs) (fault_alike hp _)
  | get ho hx =>
    apply (ih.evaluate _ _ ho).bind
    intro _ _ hv
    cases hv with
    | object hc => exact property_alike hR _ hc hx
    | _ => exact fault_alike hx _
  | set ho hx he =>
    apply (ih.evaluate _ _ ho).bind
    intro _ _ hv
    cases hv with
    | object hc =>
      apply (ih.evaluate _ _ he).bind
      intro _ _ hv
      rw [(hR _ _ hx).2]
      refine (RunsAlike.modify fun m m' hm => ?_).bind fun _ _ _ => .pure hv
      exact hm.withStore (hm.store.setField _ _ hv)
    | _ => exact fault_alike hx _
  | super href hx =>
    rw [evaluate, evaluate, ← href.mark]
    exact superMethod_alike hR _ hx

theorem arguments_alike (ih : Lockstep R host n) (h : List.Forall₂ (Expr.Alike R Eq) es es') :
    RunsAlike R (List.Forall₂ (Value.Alike R)) (arguments host (n + 1) es)
      (arguments host (n + 1) es') := by
  cases h with
  | nil => exact .pure .nil
  | cons he hes =>
    apply (ih.evaluate _ _ he).bind
    intro _ _ hv
    exact (ih.arguments _ _ hes).bind fun _ _ hvs => .pure (.cons hv hvs)

theorem act_alike (hR : Spelled R) {call call' : Value → List Value → Eval Value}
    (hcall : ∀ v v' args args', v.Alike R v' → List.Forall₂ (Value.Alike R) args args' →
      RunsAlike R (Value.Alike R) (call v args) (call' v' args'))
    (h : Native.Act.Alike R act act') :
    RunsAlike R (Value.Alike R) (act.perform (serve host) property call)
      (act'.perform (serve host) property call') := by
  induction h with
  | done hv => exact .pure hv
  | fail he => exact .throw he
  | ask hq _ ih => exact (serve_alike host hq).bind ih
  | property hc hx _ ih => exact (property_alike hR _ hc hx).attempt.bind ih
  | call hf hargs _ ih => exact (hcall _ _ _ _ hf hargs).attempt.bind ih

theorem call_alike (hR : Spelled R) (hN : ∀ n ∈ host.natives, n.Blind) (ih : Lockstep R host n)
    (h : Value.Alike R v v') (hargs : List.Forall₂ (Value.Alike R) args args') :
    RunsAlike R (Value.Alike R) (call host (n + 1) v args) (call host (n + 1) v' args') := by
  cases h with
  | function hf => exact ih.invoke _ _ _ _ hf hargs
  | @klass c c' hc =>
    rw [call, call]
    apply newObject_alike.bind
    rintro id _ rfl
    have hinit := hc.findMethod "init"
    unfold Class.initializer?
    generalize c.findMethod "init" = o, c'.findMethod "init" = o' at hinit
    cases hinit with
    | none => exact .pure (.object hc)
    | some hf =>
      apply (bindMethod_alike hf (.object hc)).bind
      intro _ _ hf
      exact (ih.invoke _ _ _ _ hf hargs).bind fun _ _ _ => .pure (.object hc)
  | @native i =>
    rw [call, call]
    cases hi : host.natives[i]? with
    | none => exact crash_alike _
    | some native =>
      exact act_alike hR ih.call (hN native (List.mem_of_getElem? hi) R hR host.now _ _ hargs)
  | _ => exact crash_alike _

theorem invoke_alike (hR : Spelled R) (ih : Lockstep R host n) (h : Closure.Alike R f f')
    (hargs : List.Forall₂ (Value.Alike R) args args') :
    RunsAlike R (Value.Alike R) (invoke host (n + 1) f args) (invoke host (n + 1) f' args') := by
  cases h with
  | @mk _ _ k _ _ hr =>
    cases hr with
    | mk _ hps hbody =>
      rw [invoke, invoke]
      apply (newFrame_alike _).bind
      rintro frame _ rfl
      apply (bindParams_alike hR frame hps hargs).bind
      intro _ _ _
      apply ((ih.run _ _ hbody).within frame).bind
      intro done done' hdone
      apply RunsAlike.ite
      · apply RunsAlike.get
        intro m m' hm
        have hthis := hm.store.getAt? k 0 "this"
        generalize m.store.getAt? k 0 "this" = o, m'.store.getAt? k 0 "this" = o' at hthis
        cases hthis with
        | none => exact crash_alike _
        | some hv => exact .pure hv
      · cases hdone with
        | normal => exact .pure .nil
        | returned hv => exact .pure hv

theorem run_alike (ih : Lockstep R host n) (h : List.Forall₂ (Stmt.Alike R Eq) ss ss') :
    RunsAlike R (Completion.Alike R) (run host (n + 1) ss) (run host (n + 1) ss') := by
  cases h with
  | nil => exact .pure .normal
  | cons hs hss =>
    apply (ih.execute _ _ hs).bind
    intro _ _ hdone
    cases hdone with
    | normal => exact ih.run _ _ hss
    | returned hv => exact .pure (.returned hv)

theorem execute_alike (hR : Spelled R) (ih : Lockstep R host n) (h : Stmt.Alike R Eq s s') :
    RunsAlike R (Completion.Alike R) (execute host (n + 1) s) (execute host (n + 1) s') := by
  cases h with
  | expression he => exact (ih.evaluate _ _ he).bind fun _ _ _ => .pure .normal
  | print he =>
    apply (ih.evaluate _ _ he).bind
    intro _ _ hv
    exact (print_alike hR hv).bind fun _ _ _ => .pure .normal
  | @varDecl x x' _ _ hx hi =>
    have hrest (v v' : Value) (hv : v.Alike R v') : RunsAlike R (Completion.Alike R)
        (do
          bindVariable (← get).current x.lexeme v
          return .normal)
        (do
          bindVariable (← get).current x'.lexeme v'
          return .normal) := by
      apply RunsAlike.get
      intro m m' hm
      rw [hm.current, (hR _ _ hx).2]
      exact (bindVariable_alike _ _ hv).bind fun _ _ _ => .pure .normal
    cases hi with
    | none => exact (RunsAlike.pure .nil).bind hrest
    | some he => exact (ih.evaluate _ _ he).bind hrest
  | block hbody =>
    apply RunsAlike.get
    intro m m' hm
    rw [hm.current]
    apply (newFrame_alike _).bind
    rintro frame _ rfl
    exact (ih.run _ _ hbody).within frame
  | ifThen hc hs =>
    apply (ih.evaluate _ _ hc).bind
    intro _ _ hv
    rw [hv.truthy]
    exact .ite (ih.execute _ _ hs) (.pure .normal)
  | ifElse hc hs ht =>
    apply (ih.evaluate _ _ hc).bind
    intro _ _ hv
    rw [hv.truthy]
    exact .ite (ih.execute _ _ hs) (ih.execute _ _ ht)
  | loop hc hs => exact ih.loop _ _ _ _ hc hs
  | funDecl hf =>
    apply RunsAlike.get
    intro m m' hm
    dsimp only
    rw [hm.current, (hR _ _ hf.name).2]
    apply (close_alike hf _ _).bind
    intro _ _ hg
    exact (bindVariable_alike _ _ (.function hg)).bind fun _ _ _ => .pure .normal
  | ret hv =>
    cases hv with
    | none => exact .pure (.returned .nil)
    | some he => exact (ih.evaluate _ _ he).bind fun _ _ hv => .pure (.returned hv)
  | @classDecl x x' _ _ _ _ hx hsup hms =>
    have hrest (c c' : Option Class) (hc : Option.Rel (Class.Alike R) c c') :
        RunsAlike R (Completion.Alike R)
          (do
            declareClass x c _
            return .normal)
          (do
            declareClass x' c' _
            return .normal) :=
      (declareClass_alike hR hx hc hms).bind fun _ _ _ => .pure .normal
    cases hsup with
    | none => exact (RunsAlike.pure .none).bind hrest
    | some href =>
      apply (ih.evaluate _ _ (.var href)).bind
      intro _ _ hv
      cases hv with
      | klass hc => exact (RunsAlike.pure (.some hc)).bind hrest
      | _ => exact (fault_alike href.name _).bind hrest

theorem loop_alike (ih : Lockstep R host n) (hc : Expr.Alike R Eq c c')
    (hs : Stmt.Alike R Eq s s') :
    RunsAlike R (Completion.Alike R) (loop host (n + 1) c s) (loop host (n + 1) c' s') := by
  rw [loop, loop]
  apply (heed_alike host).bind
  intro _ _ _
  apply (ih.evaluate _ _ hc).bind
  intro _ _ hv
  rw [hv.truthy]
  refine .ite ((ih.execute _ _ hs).bind fun _ _ hdone => ?_) (.pure .normal)
  cases hdone with
  | normal => exact ih.loop _ _ _ _ hc hs
  | returned hv => exact .pure (.returned hv)

theorem lockstep (hR : Spelled R) (hN : ∀ n ∈ host.natives, n.Blind) (n : Nat) :
    Lockstep R host n := by
  induction n with
  | zero => exact .zero
  | succ n ih =>
    exact {
      evaluate := fun _ _ h => evaluate_alike hR ih h
      arguments := fun _ _ h => arguments_alike ih h
      call := fun _ _ _ _ h hargs => call_alike hR hN ih h hargs
      invoke := fun _ _ _ _ h hargs => invoke_alike hR ih h hargs
      run := fun _ _ h => run_alike ih h
      execute := fun _ _ h => execute_alike hR ih h
      loop := fun _ _ _ _ hc hs => loop_alike ih hc hs }

theorem statements_alike (hR : Spelled R) (hN : ∀ n ∈ host.natives, n.Blind) (steps : Nat)
    (h : List.Forall₂ (Stmt.Alike R Eq) ss ss') :
    RunsAlike R Anyhow (statements host steps ss) (statements host steps ss') := by
  induction h with
  | nil => exact .pure trivial
  | cons hs _ ih =>
    rw [statements, statements]
    apply (heed_alike host).bind
    intro _ _ _
    exact ((lockstep hR hN steps).execute _ _ hs).bind fun _ _ _ => ih

theorem statements_append (host : Host) (steps : Nat) (ss ss' : List (Stmt Distance)) :
    statements host steps (ss ++ ss') =
      statements host steps ss >>= fun _ => statements host steps ss' := by
  induction ss with
  | nil => rfl
  | cons s ss ih =>
    rw [List.cons_append, statements, statements, ih]
    simp only [bind_assoc]

end Machine

end LoxLang
