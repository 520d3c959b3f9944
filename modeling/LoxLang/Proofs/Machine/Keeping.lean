import LoxLang.Proofs.Machine.Keeps

namespace LoxLang
set_option autoImplicit true

namespace Watched

variable {T : Token → Prop} {host : Host} {w w' : Watched}

/-- What running with this many steps leaves alone. -/
structure Keeping (T : Token → Prop) (host : Host) (n : Nat) : Prop where
  evaluate : ∀ {w Δ pending e}, w.Fits T host.natives.length → w.Stands Δ pending →
    e.Scoped T Δ.scopes pending → Leaves none (evaluate host n Δ e) w
  arguments : ∀ {w Δ pending es}, w.Fits T host.natives.length → w.Stands Δ pending →
    (∀ e ∈ es, Expr.Scoped T Δ.scopes pending e) → Leaves none (arguments host n Δ es) w
  call : ∀ {w v args}, w.Fits T host.natives.length → v.Fits T host.natives.length w →
    (∀ a ∈ args, Value.Fits T host.natives.length w a) → v.Takes host.natives args.length →
    Leaves none (call host n v args) w
  invoke : ∀ {w f args}, w.Fits T host.natives.length → f.Fits T w →
    (∀ a ∈ args, Value.Fits T host.natives.length w a) → f.arity ≤ args.length →
    Leaves none (invoke host n f args) w
  run : ∀ {w a Δ ss}, w.Fits T host.natives.length → w.Stands (a :: Δ) none →
    Program.Scoped T (Display.scopes (a :: Δ)) ss → Leaves none (run host n (a :: Δ) ss) w
  execute : ∀ {w Δ s}, w.Fits T host.natives.length → w.Stands Δ none → s.Scoped T Δ.scopes →
    Leaves (Δ.global? s.declared?) (execute host n Δ s) w
  loop : ∀ {w Δ c s}, w.Fits T host.natives.length → w.Stands Δ none →
    c.Scoped T Δ.scopes none → s.declared? = none → s.Scoped T Δ.scopes →
    Leaves none (loop host n Δ c s) w

theorem Leaves.nothing {P : Watch α} (h : Leaves none P w) {s : Stmt Distance}
    (hs : s.declared? = none) (Δ : Display) : Leaves (Δ.global? s.declared?) P w := by
  rw [hs, Display.global?_none]
  exact h

theorem Keeping.zero : Keeping T host 0 where
  evaluate _ _ _ := .throw _
  arguments _ _ _ := .throw _
  call _ _ _ _ := .throw _
  invoke _ _ _ _ := .throw _
  run _ _ _ := .throw _
  execute _ _ _ := .throw _
  loop _ _ _ _ _ := .throw _

theorem act_leaves {call : Value → List Value → Watch Value}
    (hruns : ∀ {w v args}, w.Fits T host.natives.length → v.Fits T host.natives.length w →
      (∀ a ∈ args, Value.Fits T host.natives.length w a) → v.Takes host.natives args.length →
      Runs T host (call v args) (fun v w' => v.Fits T host.natives.length w') w)
    (hcall : ∀ {w v args}, w.Fits T host.natives.length → v.Fits T host.natives.length w →
      (∀ a ∈ args, Value.Fits T host.natives.length w a) → v.Takes host.natives args.length →
      Leaves none (call v args) w)
    {act : Native.Act} (h : act.Tame host.natives given)
    (hasks : act.Asks fun q => ∀ x v, q ≠ .define x v) (hw : w.Fits T host.natives.length)
    (hgiven : ∀ v ∈ given, Value.Fits T host.natives.length w v) :
    Leaves none (act.perform (fun q => lift (Machine.serve host q)) property call) w := by
  induction h generalizing w with
  | done => exact .pure _
  | fail => exact .throw _
  | ask hq _ ih =>
    cases hasks with
    | ask hdefine hasks =>
      exact .bind (serve_runs hw fun v hv => from_fits (hq v hv) hgiven) (serve_leaves hdefine)
        fun vs w₁ h₁ hvs => ih vs (hasks vs) h₁.fits (given_fits hgiven h₁.grows hvs)
  | property hobject _ ih =>
    cases hasks with
    | property hasks =>
      exact .bind (property_caught hw (from_fits hobject hgiven) _ _)
        (property_leaves hw.size _ _ _).attempt fun r w₁ h₁ hr =>
          ih r hr.heard (hasks r) h₁.fits (given_fits hgiven h₁.grows hr.fits)
  | call hf hargs htakes _ ih =>
    cases hasks with
    | call hasks =>
      have hv := from_fits hf hgiven
      have ha := fun v hv => from_fits (hargs v hv) hgiven
      exact .bind (hruns hw hv ha htakes).attempt (hcall hw hv ha htakes).attempt
        fun r w₁ h₁ hr => ih r hr.heard (hasks r) h₁.fits (given_fits hgiven h₁.grows hr.fits)

section
variable (hT : ∀ t, T t → t.Lexical) (hN : ∀ n ∈ host.natives, n.Tame host.natives)
  (hD : ∀ n ∈ host.natives, n.Discreet)

include hT hN

include hD in
theorem call_leaves (ih : Keeping T host n) (hw : w.Fits T host.natives.length)
    (hv : v.Fits T host.natives.length w) (ha : ∀ a ∈ args, Value.Fits T host.natives.length w a)
    (htakes : v.Takes host.natives args.length) :
    Leaves none (call host (n + 1) v args) w := by
  have hsound : Sound T host n := sound hT hN n
  cases v with
  | function f => exact ih.invoke hw hv ha htakes
  | klass c =>
    have hc : c.Fits T w := hv
    rw [call]
    have h₁ := After.newObject hw
    refine .step rfl (.of_vars fun _ => rfl) ?_
    rw [Value.Takes, Class.arity] at htakes
    cases hinit : c.initializer? with
    | none => exact .pure _
    | some init =>
      rw [hinit] at htakes
      have hfits := (hc.findMethod hinit).grows h₁.grows
      refine .bind (bindMethod_fits h₁.fits hfits (hc.grows h₁.grows) _) ?_ ?_
      · exact .step rfl (.refl _) (bindMethod_keeps h₁.fits.size _ _)
      · rintro bound w₂ h₂ ⟨hbound, hboundArity⟩
        refine (ih.invoke h₂.fits hbound (fun a hm => (ha a hm).grows (h₁.trans h₂).grows) ?_).map _
        exact hboundArity ▸ htakes
  | native i =>
    rw [call]
    have hi : i < host.natives.length := hv
    have hget := List.getElem?_eq_getElem hi
    have hmem := List.getElem_mem hi
    rw [hget]
    exact act_leaves hsound.call ih.call (hN _ hmem host.now args (htakes _ hget).symm)
      (hD _ hmem host.now args) hw ha
  | nil | bool | number | string | object | absent => cases htakes

theorem evaluate_leaves (ih : Keeping T host n) {Δ : Display}
    (hw : w.Fits T host.natives.length) (hs : w.Stands Δ pending)
    (he : e.Scoped T Δ.scopes pending) : Leaves none (evaluate host (n + 1) Δ e) w := by
  have hsound : Sound T host n := sound hT hN n
  cases he with
  | literal => exact .pure _
  | grouping he => exact ih.evaluate hw hs he
  | unary _ _ he =>
    exact .bind (hsound.evaluate hw hs he) (ih.evaluate hw hs he) fun v w₁ _ _ =>
      .quiet (Machine.negate_quiet _ v)
  | binary _ _ hl hr =>
    refine .bind (hsound.evaluate hw hs hl) (ih.evaluate hw hs hl) fun left w₁ h₁ _ => ?_
    have hs₁ := hs.after h₁
    exact .bind (hsound.evaluate h₁.fits hs₁ hr) (ih.evaluate h₁.fits hs₁ hr) fun right w₂ _ _ =>
      .quiet (Machine.combine_quiet _ left right)
  | logical hl hr =>
    exact .bind (hsound.evaluate hw hs hl) (ih.evaluate hw hs hl) fun left w₁ h₁ _ =>
      .ite (.pure _) (ih.evaluate h₁.fits (hs.after h₁) hr)
  | var | this => exact .refer fun _ _ => .quiet (Machine.lookUp_quiet _ _)
  | assign hname hmark he =>
    refine .bind (hsound.evaluate hw hs he) (ih.evaluate hw hs he) fun v w₁ h₁ _ => ?_
    have hassign := assign_leaves h₁.fits (hs.after h₁) (hname.not_reserved hT) hmark v
    exact .refer fun w₂ hm => (hassign.of_machine hm).map _
  | call hparen hf hargs =>
    refine .bind (hsound.evaluate hw hs hf) (ih.evaluate hw hs hf) fun callee w₁ h₁ hcallee => ?_
    have hs₁ := hs.after h₁
    refine .bind (hsound.arguments h₁.fits hs₁ hargs) (ih.arguments h₁.fits hs₁ hargs)
      fun values w₂ h₂ hvalues => ?_
    cases harity : Machine.arity? host callee with
    | none => exact .quiet (.throw _)
    | some k =>
      dsimp only
      split
      · rename_i hk
        exact ih.call h₂.fits (hcallee.grows h₂.grows) hvalues (hk ▸ Value.takes_of_arity? harity)
      · exact .quiet (.throw _)
  | get hx ho =>
    refine .bind (hsound.evaluate hw hs ho) (ih.evaluate hw hs ho) fun v w₁ h₁ _ => ?_
    cases v with
    | object id c => exact property_leaves h₁.fits.size id c _
    | _ => exact .quiet (.throw _)
  | set hx ho he =>
    refine .bind (hsound.evaluate hw hs ho) (ih.evaluate hw hs ho) fun v w₁ h₁ _ => ?_
    have hs₁ := hs.after h₁
    cases v with
    | object id c =>
      refine .bind (hsound.evaluate h₁.fits hs₁ he) (ih.evaluate h₁.fits hs₁ he)
        fun v w₂ h₂ _ => ?_
      exact .step rfl (.of_vars fun _ => rfl) (.pure _)
    | _ => exact .quiet (.throw _)
  | super => exact .refer fun w₁ hm => superMethod_leaves (hm ▸ hw.size) _ _

theorem arguments_leaves (ih : Keeping T host n) {Δ : Display}
    (hw : w.Fits T host.natives.length) (hs : w.Stands Δ pending)
    (he : ∀ e ∈ es, Expr.Scoped T Δ.scopes pending e) :
    Leaves none (arguments host (n + 1) Δ es) w := by
  have hsound : Sound T host n := sound hT hN n
  cases es with
  | nil => exact .pure _
  | cons e es =>
    obtain ⟨he, hes⟩ := List.forall_mem_cons.1 he
    exact .bind (hsound.evaluate hw hs he) (ih.evaluate hw hs he) fun v w₁ h₁ _ =>
      (ih.arguments h₁.fits (hs.after h₁) hes).map _

theorem invoke_leaves (ih : Keeping T host n) {f : Closure} (hw : w.Fits T host.natives.length)
    (hf : f.Fits T w) (ha : ∀ a ∈ args, Value.Fits T host.natives.length w a)
    (harity : f.arity ≤ args.length) : Leaves none (invoke host (n + 1) f args) w := by
  have hsound : Sound T host n := sound hT hN n
  have hresolved := hf.resolved
  obtain ⟨serial, ⟨name, params, body⟩, frame, isInitializer⟩ := f
  cases hresolved with
  | mk hparams hbody =>
    have hnames : ∀ p ∈ params, ¬ p.lexeme.Reserved := fun p hp => (hparams p hp).not_reserved hT
    have hne : w.machine.store.frames.size ≠ Machine.globals := (Nat.ne_of_lt hw.size).symm
    rw [invoke]
    apply Leaves.get
    have h₁ := After.newFrame hw (some frame)
    refine .step rfl (.newFrame _ _) ?_
    refine .bind (bindParams_runs h₁.fits (Store.lt_size_newFrame _ _)
      (fun p hp he => hnames p hp (.inl he)) (fun a hm => (ha a hm).grows h₁.grows) harity)
      (bindParams_leaves hne hnames) fun _ w₂ h₂ hbound => ?_
    have hstands := stands_of_placed hf.toPlaced h₂ hbound
    refine .bind ((hsound.run (h₂.fits.at_ _) hstands hbody).within
      fun c w' hc => completion_grows hc (.at_ w' _))
      (ih.run (h₂.fits.at_ _) hstands hbody).within fun done w₃ h₃ _ => ?_
    cases isInitializer with
    | false => cases done <;> exact .pure _
    | true =>
      refine .step rfl (.refl _) ?_
      apply Leaves.get
      split
      · exact .pure _
      · exact .quiet (.throw _)

theorem run_leaves (ih : Keeping T host n) {a : Activation} {Δ : Display}
    (hw : w.Fits T host.natives.length) (hs : w.Stands (a :: Δ) none)
    (h : Program.Scoped T (Display.scopes (a :: Δ)) ss) :
    Leaves none (run host (n + 1) (a :: Δ) ss) w := by
  have hsound : Sound T host n := sound hT hN n
  cases h with
  | nil => exact .pure _
  | cons h hrest =>
    refine .bind (hsound.execute hw hs h) (ih.execute hw hs h) ?_
    rintro done w₁ h₁ ⟨-, hnormal⟩
    cases done with
    | normal =>
      rw [← Display.scopes_declare?] at hrest
      have hs₁ := hnormal rfl
      rename_i s _
      cases hx : s.declared? with
      | none =>
        rw [hx] at hrest hs₁
        exact ih.run h₁.fits hs₁ hrest
      | some x =>
        rw [hx] at hrest hs₁
        exact ih.run h₁.fits hs₁ hrest
    | returned v => exact .pure _

theorem execute_leaves (ih : Keeping T host n) {Δ : Display} (hw : w.Fits T host.natives.length)
    (hs : w.Stands Δ none) (h : s.Scoped T Δ.scopes) :
    Leaves (Δ.global? s.declared?) (execute host (n + 1) Δ s) w := by
  have hsound : Sound T host n := sound hT hN n
  cases h with
  | expression he =>
    refine Leaves.nothing ?_ rfl Δ
    exact (ih.evaluate hw hs he).map _
  | print he =>
    refine Leaves.nothing ?_ rfl Δ
    exact .bind (hsound.evaluate hw hs he) (ih.evaluate hw hs he) fun v w₁ _ _ =>
      (Leaves.quiet (Machine.print_quiet v)).map _
  | varDecl hx he _ =>
    rename_i init x _
    have hfree := hx.not_reserved hT
    obtain ⟨hthis, hsuper⟩ := (hT _ hx.1).1 hx.2
    have hfinish (v : Value) (w₁ : Watched) (h₁ : After T host.natives.length w w₁) :
        Leaves (Δ.global? (some x.lexeme))
          (do lift (Machine.bindVariable (← get).machine.current x.lexeme v)
              return Completion.normal) w₁ := (hs.after h₁).keeps h₁.fits hfree v
    cases init with
    | none => exact hfinish .nil w (.refl hw)
    | some e =>
      rw [← Display.scopes_declare] at he
      have hs' := hs.pending hthis hsuper
      exact .bind (hsound.evaluate hw hs' (he e rfl)) (ih.evaluate hw hs' (he e rfl))
        fun v w₁ h₁ _ => hfinish v w₁ h₁
  | block hbody =>
    refine Leaves.nothing ?_ rfl Δ
    apply Leaves.get
    have h₁ := After.newFrame hw (some w.machine.current)
    exact .step rfl (.newFrame _ _) (ih.run (h₁.fits.at_ _) hs.block hbody).within
  | ifThen hc hnone hthen =>
    refine Leaves.nothing ?_ rfl Δ
    refine .bind (hsound.evaluate hw hs hc) (ih.evaluate hw hs hc) fun v w₁ h₁ _ => ?_
    have hbranch := ih.execute h₁.fits (hs.after h₁) hthen
    rw [hnone, Display.global?_none] at hbranch
    exact .ite hbranch (.pure _)
  | ifElse hc hnone hthen hnone' helse =>
    refine Leaves.nothing ?_ rfl Δ
    refine .bind (hsound.evaluate hw hs hc) (ih.evaluate hw hs hc) fun v w₁ h₁ _ => ?_
    have hbranch := ih.execute h₁.fits (hs.after h₁) hthen
    have hbranch' := ih.execute h₁.fits (hs.after h₁) helse
    rw [hnone, Display.global?_none] at hbranch
    rw [hnone', Display.global?_none] at hbranch'
    exact .ite hbranch hbranch'
  | loop hc hnone hbody =>
    refine Leaves.nothing ?_ rfl Δ
    exact ih.loop hw hs hc hnone hbody
  | funDecl hx hr _ => exact (declareFunction_leaves hw hs (hx.not_reserved hT) _).map _
  | ret he =>
    rename_i value keyword
    refine Leaves.nothing ?_ rfl Δ
    cases value with
    | none => exact .pure _
    | some e => exact (ih.evaluate hw hs (he e rfl)).map _
  | classDecl hx hsup hmethods _ =>
    rename_i sup methods x _
    have hfree := hx.not_reserved hT
    obtain ⟨hthis, hsuper⟩ := (hT _ hx.1).1 hx.2
    cases sup with
    | none => exact (declareClass_leaves hw hs hfree none methods _).map _
    | some ref =>
      have href := hsup ref rfl
      rw [← Display.scopes_declare] at href
      have hs' := hs.pending hthis hsuper
      refine .bind (hsound.evaluate hw hs' href) (ih.evaluate hw hs' href) fun v w₁ h₁ _ => ?_
      cases v with
      | klass c =>
        exact (declareClass_leaves h₁.fits (hs.after h₁) hfree (some c) methods _).map _
      | _ => exact .refl _

theorem loop_leaves (ih : Keeping T host n) {Δ : Display} (hw : w.Fits T host.natives.length)
    (hs : w.Stands Δ none) (hc : c.Scoped T Δ.scopes none) (hnone : s.declared? = none)
    (h : s.Scoped T Δ.scopes) : Leaves none (loop host (n + 1) Δ c s) w := by
  have hsound : Sound T host n := sound hT hN n
  rw [loop]
  refine .bind (heed_runs hw) (.quiet (Machine.heed_quiet host)) fun _ w₁ h₁ _ => ?_
  have hs₁ := hs.after h₁
  refine .bind (hsound.evaluate h₁.fits hs₁ hc) (ih.evaluate h₁.fits hs₁ hc) fun v w₂ h₂ _ => ?_
  have hs₂ := hs₁.after h₂
  refine .ite ?_ (.pure _)
  have hbody := ih.execute h₂.fits hs₂ h
  rw [hnone, Display.global?_none] at hbody
  refine .bind (hsound.execute h₂.fits hs₂ h) hbody fun done w₃ h₃ _ => ?_
  cases done with
  | normal => exact ih.loop h₃.fits (hs₂.after h₃) hc hnone h
  | returned v => exact .pure _

include hD in
theorem keeping (n : Nat) : Keeping T host n := by
  induction n with
  | zero => exact .zero
  | succ n ih =>
    exact {
      evaluate := evaluate_leaves hT hN ih
      arguments := arguments_leaves hT hN ih
      call := call_leaves hT hN hD ih
      invoke := invoke_leaves hT hN ih
      run := run_leaves hT hN ih
      execute := execute_leaves hT hN ih
      loop := loop_leaves hT hN ih }

end

end Watched

end LoxLang
