import LoxLang.Proofs.Machine.Making
import LoxLang.Proofs.Scan.Words

namespace LoxLang
set_option autoImplicit true

/-- A returned value fits. -/
def Completion.Fits (T : Token → Prop) (k : Nat) (w : Watched) : Completion → Prop
  | .normal => True
  | .returned v => v.Fits T k w

namespace Watched

variable {T : Token → Prop} {host : Host} {w w' : Watched}

theorem ofLiteral_fits (l : Option Literal) : (Value.ofLiteral l).Fits T k w := by
  cases l with
  | none => trivial
  | some l => cases l <;> trivial

theorem from_fits (h : Value.From args v) (ha : ∀ a ∈ args, a.Fits T k w) : v.Fits T k w := by
  induction h with
  | given hv => exact ha _ hv
  | ofObject _ ih => exact ih
  | parent _ hd ih =>
    cases ih with
    | mk _ hsup => exact hsup _ hd
  | nil | bool | number | string => trivial

theorem given_fits {vs given : List Value} (h : ∀ v ∈ given, Value.Fits T k w v) (hw : w.Grows w')
    (hvs : ∀ v ∈ vs, Value.Fits T k w' v) : ∀ v ∈ vs ++ given, Value.Fits T k w' v :=
  List.forall_mem_append.2 ⟨hvs, fun v hv => (h v hv).grows hw⟩

theorem completion_grows {c : Completion} (h : c.Fits T k w) (hw : w.Grows w') :
    c.Fits T k w' := by
  cases c with
  | normal => trivial
  | returned v => exact Value.Fits.grows h hw

/-- What running does with this many steps. -/
structure Sound (T : Token → Prop) (host : Host) (n : Nat) : Prop where
  evaluate : ∀ {w Δ pending e}, w.Fits T host.natives.length → w.Stands Δ pending →
    e.Scoped T Δ.scopes pending →
    Runs T host (evaluate host n Δ e) (fun v w' => v.Fits T host.natives.length w') w
  arguments : ∀ {w Δ pending es}, w.Fits T host.natives.length → w.Stands Δ pending →
    (∀ e ∈ es, Expr.Scoped T Δ.scopes pending e) →
    Runs T host (arguments host n Δ es)
      (fun vs w' => ∀ v ∈ vs, Value.Fits T host.natives.length w' v) w
  call : ∀ {w v args}, w.Fits T host.natives.length → v.Fits T host.natives.length w →
    (∀ a ∈ args, Value.Fits T host.natives.length w a) → v.Takes host.natives args.length →
    Runs T host (call host n v args) (fun v w' => v.Fits T host.natives.length w') w
  invoke : ∀ {w f args}, w.Fits T host.natives.length → f.Fits T w →
    (∀ a ∈ args, Value.Fits T host.natives.length w a) → f.arity ≤ args.length →
    Runs T host (invoke host n f args) (fun v w' => v.Fits T host.natives.length w') w
  run : ∀ {w Δ ss}, w.Fits T host.natives.length → w.Stands Δ none →
    Program.Scoped T Δ.scopes ss →
    Runs T host (run host n Δ ss) (fun c w' => c.Fits T host.natives.length w') w
  execute : ∀ {w Δ s}, w.Fits T host.natives.length → w.Stands Δ none → s.Scoped T Δ.scopes →
    Runs T host (execute host n Δ s) (fun c w' => c.Fits T host.natives.length w' ∧
      (c = .normal → w'.Stands (Δ.declare? s.declared?) none)) w
  loop : ∀ {w Δ c s}, w.Fits T host.natives.length → w.Stands Δ none →
    c.Scoped T Δ.scopes none → s.declared? = none → s.Scoped T Δ.scopes →
    Runs T host (loop host n Δ c s) (fun c w' => c.Fits T host.natives.length w') w

theorem Sound.zero : Sound T host 0 where
  evaluate hw _ _ := .throw hw .exhausted
  arguments hw _ _ := .throw hw .exhausted
  call hw _ _ _ := .throw hw .exhausted
  invoke hw _ _ _ := .throw hw .exhausted
  run hw _ _ := .throw hw .exhausted
  execute hw _ _ := .throw hw .exhausted
  loop hw _ _ _ _ := .throw hw .exhausted

theorem read_runs {Δ : Display} {ref : Reference Distance} (hw : w.Fits T host.natives.length)
    (hs : w.Stands Δ pending) (hT : T ref.name)
    (hmark : ref.mark = Δ.scopes.distance ref.name.lexeme)
    (hp : ref.mark = some 0 → pending ≠ some ref.name.lexeme) (use : Use) :
    Runs T host (refer use ref Δ >>= fun _ => lift (Machine.lookUp ref.name ref.mark))
      (fun v w' => v.Fits T host.natives.length w') w := by
  refine Runs.refer hw hs hmark (fun _ => hp) fun w' h' hm => lookUp_runs h'.fits hT fun d hd => ?_
  obtain ⟨a, -, -, -, hframe, hbound⟩ := hs.find (hmark.symm.trans hd)
  obtain ⟨v, hv⟩ := hbound fun hzero => hp (hzero ▸ hd)
  rw [hm]
  exact ⟨a.frame, v, hframe, hv⟩

theorem evaluate_runs (hT : ∀ t, T t → t.Lexical) (ih : Sound T host n) {Δ : Display}
    (hw : w.Fits T host.natives.length) (hs : w.Stands Δ pending)
    (he : e.Scoped T Δ.scopes pending) :
    Runs T host (evaluate host (n + 1) Δ e) (fun v w' => v.Fits T host.natives.length w') w := by
  cases he with
  | literal => exact .pure hw (ofLiteral_fits _)
  | grouping he => exact ih.evaluate hw hs he
  | unary hop hk he =>
    apply (ih.evaluate hw hs he).bind
    intro v w₁ h₁ _
    exact negate_runs h₁.fits hop hk v
  | binary hop hk hl hr =>
    apply (ih.evaluate hw hs hl).bind
    intro left w₁ h₁ _
    apply (ih.evaluate h₁.fits (hs.after h₁) hr).bind
    intro right w₂ h₂ _
    exact combine_runs h₂.fits hop hk left right
  | logical hl hr =>
    apply (ih.evaluate hw hs hl).bind
    intro left w₁ h₁ hleft
    exact .ite (.pure h₁.fits hleft) (ih.evaluate h₁.fits (hs.after h₁) hr)
  | var hname hmark hp => exact read_runs hw hs hname.1 hmark hp .read
  | assign hname hmark he =>
    rename_i ref e
    apply (ih.evaluate hw hs he).bind
    intro v w₁ h₁ hv
    refine Runs.refer h₁.fits (hs.after h₁) hmark (fun h => absurd rfl h) fun w₂ h₂ hm => ?_
    have hthis := ((hT _ hname.1).1 hname.2).1
    refine Runs.bind (assign_runs h₂.fits hname.1 hthis (hv.grows h₂.grows) fun d hd => ?_)
      fun _ w₃ h₃ _ => .pure h₃.fits (hv.grows (h₂.trans h₃).grows)
    obtain ⟨a, -, -, -, hframe, -⟩ := (hs.after h₁).find (hmark.symm.trans hd)
    rw [hm]
    exact ⟨a.frame, hframe⟩
  | call hparen hf hargs =>
    rename_i paren f args
    apply (ih.evaluate hw hs hf).bind
    intro callee w₁ h₁ hcallee
    apply (ih.arguments h₁.fits (hs.after h₁) hargs).bind
    intro values w₂ h₂ hvalues
    cases harity : Machine.arity? host callee with
    | none => exact .fault h₂.fits hparen _
    | some k =>
      dsimp only
      split
      · rename_i hk
        exact ih.call h₂.fits (hcallee.grows h₂.grows) hvalues (hk ▸ Value.takes_of_arity? harity)
      · exact .fault h₂.fits hparen _
  | get hx ho =>
    apply (ih.evaluate hw hs ho).bind
    intro v w₁ h₁ hv
    cases v with
    | object id c => exact property_fits h₁.fits hv hx id
    | _ => exact .fault h₁.fits hx _
  | set hx ho he =>
    rename_i x o e
    apply (ih.evaluate hw hs ho).bind
    intro v w₁ h₁ _
    cases v with
    | object id c =>
      apply (ih.evaluate h₁.fits (hs.after h₁) he).bind
      intro v w₂ h₂ hv
      have h₃ : After T host.natives.length w₂
          (w₂.withStore (w₂.machine.store.setField id x.lexeme v)) :=
        ⟨h₂.fits.setField hv id x.lexeme, .withStore (.objects _ _), rfl⟩
      exact .step rfl h₃ (.pure h₃.fits (hv.grows h₃.grows))
    | _ => exact .fault h₁.fits hx _
  | this hname hlex hmark hd =>
    refine read_runs hw hs hname ?_ (fun _ => hlex ▸ hs.named.1) .this
    rw [hlex, hmark, hd]
  | super hname hlex hmethod hmark hd hthis =>
    refine Runs.refer hw hs (by rw [hlex, hmark, hd]) (fun _ _ => hlex ▸ hs.named.2)
      fun w₁ h₁ _ => ?_
    rw [hmark]
    exact superMethod_fits h₁.fits (hs.after h₁) hmethod hd hthis

theorem arguments_runs (ih : Sound T host n) {Δ : Display} (hw : w.Fits T host.natives.length)
    (hs : w.Stands Δ pending) (he : ∀ e ∈ es, Expr.Scoped T Δ.scopes pending e) :
    Runs T host (arguments host (n + 1) Δ es)
      (fun vs w' => ∀ v ∈ vs, Value.Fits T host.natives.length w' v) w := by
  cases es with
  | nil => exact .pure hw fun v hv => absurd hv List.not_mem_nil
  | cons e es =>
    obtain ⟨he, hes⟩ := List.forall_mem_cons.1 he
    apply (ih.evaluate hw hs he).bind
    intro v w₁ h₁ hv
    apply (ih.arguments h₁.fits (hs.after h₁) hes).bind
    intro vs w₂ h₂ hvs
    exact .pure h₂.fits (List.forall_mem_cons.2 ⟨hv.grows h₂.grows, hvs⟩)

/-- What a function of the host does is done on a fit machine. If it fails for the reasons it has when
its calls fail for expected ones, then it runs. -/
theorem act_runs {call : Value → List Value → Watch Value}
    (hcall : ∀ {w v args}, w.Fits T host.natives.length → v.Fits T host.natives.length w →
      (∀ a ∈ args, Value.Fits T host.natives.length w a) → v.Takes host.natives args.length →
      Runs T host (call v args) (fun v w' => v.Fits T host.natives.length w') w)
    {act : Native.Act} (h : act.Tame host.natives given)
    (hraises : ∀ e, act.Raises (Stop.Expected T host) e → e.Expected T host)
    (hw : w.Fits T host.natives.length)
    (hgiven : ∀ v ∈ given, Value.Fits T host.natives.length w v) :
    Runs T host (act.perform (fun q => lift (Machine.serve host q)) property call)
      (fun v w' => v.Fits T host.natives.length w') w := by
  induction h generalizing w with
  | done hv => exact .pure hw (from_fits hv hgiven)
  | fail => exact .throw hw (hraises _ .fail)
  | ask hq _ ih =>
    apply (serve_runs hw fun v hv => from_fits (hq v hv) hgiven).bind
    intro vs w₁ h₁ hvs
    exact ih vs (fun e he => hraises e (.ask he)) h₁.fits (given_fits hgiven h₁.grows hvs)
  | property hobject _ ih =>
    apply (property_caught hw (from_fits hobject hgiven) _ _).bind
    intro r w₁ h₁ hr
    exact ih r hr.heard (fun e he => hraises e (.property hr.heard hr.failed he)) h₁.fits
      (given_fits hgiven h₁.grows hr.fits)
  | call hf hargs htakes _ ih =>
    apply (hcall hw (from_fits hf hgiven) (fun v hv => from_fits (hargs v hv) hgiven)
      htakes).attempt.bind
    intro r w₁ h₁ hr
    exact ih r hr.heard (fun e he => hraises e (.call hr.heard hr.failed he)) h₁.fits
      (given_fits hgiven h₁.grows hr.fits)

theorem call_runs (hN : ∀ n ∈ host.natives, n.Tame host.natives) (ih : Sound T host n)
    (hw : w.Fits T host.natives.length) (hv : v.Fits T host.natives.length w)
    (ha : ∀ a ∈ args, Value.Fits T host.natives.length w a)
    (htakes : v.Takes host.natives args.length) :
    Runs T host (call host (n + 1) v args) (fun v w' => v.Fits T host.natives.length w') w := by
  cases v with
  | function f => exact ih.invoke hw hv ha htakes
  | klass c =>
    have hc : c.Fits T w := hv
    rw [call]
    have h₁ := After.newObject hw
    refine Runs.step rfl h₁ ?_
    rw [Value.Takes, Class.arity] at htakes
    cases hinit : c.initializer? with
    | none => exact .pure h₁.fits (hc.grows h₁.grows)
    | some init =>
      rw [hinit] at htakes
      have hinitFits := hc.findMethod hinit
      apply (bindMethod_fits h₁.fits (hinitFits.grows h₁.grows) (hc.grows h₁.grows) _).bind
      rintro bound w₂ h₂ ⟨hbound, hboundArity⟩
      have h₁₂ := h₁.trans h₂
      refine (ih.invoke h₂.fits hbound (fun a hm => (ha a hm).grows h₁₂.grows) ?_).bind
        fun _ w₃ h₃ _ => .pure h₃.fits (hc.grows (h₁₂.trans h₃).grows)
      exact hboundArity ▸ htakes
  | native i =>
    rw [call]
    have hi : i < host.natives.length := hv
    have hget := List.getElem?_eq_getElem hi
    have hmem := List.getElem_mem hi
    rw [hget]
    have hlen := (htakes _ hget).symm
    exact act_runs ih.call (hN _ hmem host.now args hlen) (fun e he => .native hmem hlen he) hw ha
  | nil | bool | number | string | object | absent => cases htakes

theorem bindParams_runs {ps : List Token} {f : FrameId} (hw : w.Fits T host.natives.length)
    (hf : f < w.machine.store.frames.size) (hp : ∀ p ∈ ps, p.lexeme ≠ "this")
    (ha : ∀ a ∈ args, Value.Fits T host.natives.length w a) (hlen : ps.length ≤ args.length) :
    Runs T host (lift (Machine.bindParams f ps args))
      (fun _ w' => ∀ p ∈ ps, (w'.machine.store.vars f).has p.lexeme) w := by
  induction ps generalizing w args with
  | nil => exact .pure hw fun p hm => absurd hm List.not_mem_nil
  | cons p ps ih =>
    cases args with
    | nil => cases hlen
    | cons v vs =>
      obtain ⟨hthis, hps⟩ := List.forall_mem_cons.1 hp
      obtain ⟨hv, hvs⟩ := List.forall_mem_cons.1 ha
      have h₁ := After.bind (f := f) (x := p.lexeme) hw hv fun _ hx => absurd hx hthis
      have hhas : ((w.machine.store.define f p.lexeme v).vars f).has p.lexeme := by
        rw [Store.vars_define_self _ _ _ hf]
        exact Store.has_set_self _ _ _
      rw [Machine.bindParams]
      apply Runs.bindVariable h₁
      refine (ih h₁.fits (Nat.lt_of_lt_of_le hf h₁.grows.store.size) hps
        (fun a hm => (hvs a hm).grows h₁.grows) (Nat.le_of_succ_le_succ hlen)).mono
        fun _ w₂ h₂ hbound => ?_
      exact List.forall_mem_cons.2 ⟨h₂.grows.store.bound _ _ hhas, hbound⟩

theorem receiver_sound {f : Closure} (hf : f.Fits T w) (hi : f.isInitializer) :
    Visit.Sound ⟨.this, "this", some 0, w.homes f.serial, f.frame, w.machine.store⟩ ∧
      ∃ v, w.machine.store.getAt? f.frame 0 "this" = some v ∧
        ∃ g, (w.machine.store.vars g).get? "this" = some v := by
  obtain ⟨a, Δ, hhome, hthis⟩ := hf.receiver hi
  have hzero : (w.homes f.serial)[0]? = some a := by
    rw [hhome]
    rfl
  obtain ⟨hframe, -⟩ := hf.chain.ancestor? hzero
  obtain ⟨v, hv⟩ := Option.isSome_iff_exists.1
    (hf.filled 0 a hzero "this" hthis fun _ => by simp)
  refine ⟨fun d hd => ?_, v, ?_, a.frame, hv⟩
  · cases hd
    exact ⟨a, hzero, hthis, fun i hi => absurd hi (Nat.not_lt_zero i), hframe, fun _ => ⟨v, hv⟩⟩
  · rw [Store.getAt?, hframe, Option.map_some, hv]
    rfl

/-- The body of a function runs inside a new frame, which binds the parameters. -/
theorem stands_of_placed {f : Closure} {ps : List Token} (hf : f.Placed w)
    (h : After T k (w.withStore (w.machine.store.newFrame (some f.frame)).2) w')
    (hbound : ∀ p ∈ ps, (w'.machine.store.vars w.machine.store.frames.size).has p.lexeme) :
    (w'.at_ w.machine.store.frames.size).Stands
      (⟨w.machine.store.frames.size, (ps.map Token.lexeme).reverse⟩ :: w.homes f.serial) none := by
  have hgrows := (Store.Grows.newFrame _ _).trans h.grows.store
  have hparent : w'.machine.store.parent? w.machine.store.frames.size = some f.frame :=
    (h.grows.store.parent? _ (Store.lt_size_newFrame _ _)).trans (Store.parent?_newFrame_self _ _)
  refine ⟨.cons hparent (hf.chain.grows hgrows) _, .cons (hf.filled.grows hgrows) fun x hx => ?_,
    by simp, by simp⟩
  obtain ⟨p, hp, rfl⟩ := List.mem_map.1 (List.mem_reverse.1 hx)
  exact hbound p hp

theorem invoke_runs (hT : ∀ t, T t → t.Lexical) (ih : Sound T host n) {f : Closure}
    (hw : w.Fits T host.natives.length) (hf : f.Fits T w)
    (ha : ∀ a ∈ args, Value.Fits T host.natives.length w a) (harity : f.arity ≤ args.length) :
    Runs T host (invoke host (n + 1) f args)
      (fun v w' => v.Fits T host.natives.length w') w := by
  have hresolved := hf.resolved
  obtain ⟨serial, ⟨name, params, body⟩, frame, isInitializer⟩ := f
  cases hresolved with
  | mk hparams hbody =>
    have hnames : ∀ p ∈ params, p.lexeme ≠ "this" := fun p hp =>
      ((hT p (hparams p hp).1).1 (hparams p hp).2).1
    rw [invoke]
    apply Runs.get
    have h₁ := After.newFrame hw (some frame)
    refine Runs.step rfl h₁ ?_
    apply (bindParams_runs h₁.fits (Store.lt_size_newFrame _ _) hnames
      (fun a hm => (ha a hm).grows h₁.grows) harity).bind
    intro _ w₂ h₂ hbound
    have h₁₂ := h₁.trans h₂
    refine ((ih.run (h₂.fits.at_ _) (stands_of_placed hf.toPlaced h₂ hbound) hbody).within
      fun c w' hc => completion_grows hc (.at_ w' _)).bind fun done w₃ h₃ hdone => ?_
    have h₁₃ := h₁₂.trans h₃
    cases isInitializer with
    | false =>
      cases done with
      | returned v => exact .pure h₃.fits hdone
      | normal => exact .pure h₃.fits trivial
    | true =>
      have hf₃ := hf.grows h₁₃.grows
      obtain ⟨hsound, v, hget, g, hg⟩ := receiver_sound hf₃ rfl
      have hhome : w₃.homes serial = w.homes serial := h₁₃.grows.homes serial hf.serial
      rw [hhome] at hsound
      refine Runs.visit h₃.fits hsound fun w₄ h₄ hm => ?_
      apply Runs.get
      rw [hm, hget]
      exact .pure h₄.fits ((h₃.fits.vars g _ v hg).grows h₄.grows)

theorem run_runs (ih : Sound T host n) {Δ : Display} (hw : w.Fits T host.natives.length)
    (hs : w.Stands Δ none) (h : Program.Scoped T Δ.scopes ss) :
    Runs T host (run host (n + 1) Δ ss) (fun c w' => c.Fits T host.natives.length w') w := by
  cases h with
  | nil => exact .pure hw trivial
  | cons h hrest =>
    apply (ih.execute hw hs h).bind
    rintro done w₁ h₁ ⟨hdone, hnormal⟩
    cases done with
    | normal =>
      rw [← Display.scopes_declare?] at hrest
      exact ih.run h₁.fits (hnormal rfl) hrest
    | returned v => exact .pure h₁.fits hdone

theorem Runs.nothing {Δ : Display} {P : Watch Completion} (hs : w.Stands Δ none)
    (h : Runs T host P (fun c w' => c.Fits T host.natives.length w') w) :
    Runs T host P (fun c w' => c.Fits T host.natives.length w' ∧
      (c = .normal → w'.Stands Δ none)) w :=
  h.mono fun _ _ hw' hc => ⟨hc, fun _ => hs.after hw'⟩

theorem Stands.pending {Δ : Display} {x : Text} (hs : w.Stands Δ none) (hthis : x ≠ "this")
    (hsuper : x ≠ "super") : w.Stands (Δ.declare x) (some x) where
  chain := hs.chain.declare x
  filled := hs.filled.declare x
  named := ⟨fun h => hthis (Option.some.inj h), fun h => hsuper (Option.some.inj h)⟩

theorem Stands.block {Δ : Display} (hs : w.Stands Δ none) :
    ((w.withStore (w.machine.store.newFrame (some w.machine.current)).2).at_
      w.machine.store.frames.size).Stands (⟨w.machine.store.frames.size, []⟩ :: Δ) none where
  chain := .cons (Store.parent?_newFrame_self _ _) (hs.chain.grows (.newFrame _ _)) _
  filled := .cons (hs.filled.grows (.newFrame _ _)) fun x hx => absurd hx List.not_mem_nil
  named := ⟨by simp, by simp⟩

theorem execute_runs (hT : ∀ t, T t → t.Lexical) (ih : Sound T host n) {Δ : Display}
    (hw : w.Fits T host.natives.length) (hs : w.Stands Δ none) (h : s.Scoped T Δ.scopes) :
    Runs T host (execute host (n + 1) Δ s) (fun c w' => c.Fits T host.natives.length w' ∧
      (c = .normal → w'.Stands (Δ.declare? s.declared?) none)) w := by
  cases h with
  | expression he =>
    apply Runs.nothing hs
    apply (ih.evaluate hw hs he).bind
    intro v w₁ h₁ _
    exact .pure h₁.fits trivial
  | print he =>
    apply Runs.nothing hs
    apply (ih.evaluate hw hs he).bind
    intro v w₁ h₁ hv
    apply (print_runs h₁.fits hv).bind
    intro _ w₂ h₂ _
    exact .pure h₂.fits trivial
  | varDecl hx he _ =>
    rename_i init x _
    obtain ⟨hthis, hsuper⟩ := (hT _ hx.1).1 hx.2
    have hfinish (v : Value) (w₁ : Watched) (h₁ : After T host.natives.length w w₁)
        (hv : v.Fits T host.natives.length w₁) :
        Runs T host (do lift (Machine.bindVariable (← get).machine.current x.lexeme v)
                        return Completion.normal)
          (fun c w' => c.Fits T host.natives.length w' ∧
            (c = .normal → w'.Stands (Δ.declare x.lexeme) none)) w₁ := by
      have h₂ := After.bind (f := w₁.machine.current) (x := x.lexeme) h₁.fits hv
        fun _ he => absurd he hthis
      apply Runs.get
      refine Runs.step rfl h₂ (.pure h₂.fits ⟨trivial, fun _ => ?_⟩)
      exact (hs.after h₁).define v
    cases init with
    | none => exact hfinish .nil w (.refl hw) trivial
    | some e =>
      rw [← Display.scopes_declare] at he
      exact (ih.evaluate hw (hs.pending hthis hsuper) (he e rfl)).bind hfinish
  | block hbody =>
    apply Runs.nothing hs
    apply Runs.get
    have h₁ := After.newFrame hw (some w.machine.current)
    refine Runs.step rfl h₁ ?_
    exact (ih.run (h₁.fits.at_ _) hs.block hbody).within
      fun c w' hc => completion_grows hc (.at_ w' _)
  | ifThen hc hnone hthen =>
    apply Runs.nothing hs
    apply (ih.evaluate hw hs hc).bind
    intro v w₁ h₁ _
    exact .ite ((ih.execute h₁.fits (hs.after h₁) hthen).mono fun _ _ _ h => h.1)
      (.pure h₁.fits trivial)
  | ifElse hc _ hthen _ helse =>
    apply Runs.nothing hs
    apply (ih.evaluate hw hs hc).bind
    intro v w₁ h₁ _
    exact .ite ((ih.execute h₁.fits (hs.after h₁) hthen).mono fun _ _ _ h => h.1)
      ((ih.execute h₁.fits (hs.after h₁) helse).mono fun _ _ _ h => h.1)
  | loop hc hnone hbody => exact .nothing hs (ih.loop hw hs hc hnone hbody)
  | funDecl hx hr _ =>
    have hthis := ((hT _ hx.1).1 hx.2).1
    apply (declareFunction_fits hw hs hr hthis).bind
    intro _ w₁ h₁ hs₁
    exact .pure h₁.fits ⟨trivial, fun _ => hs₁⟩
  | ret he =>
    rename_i value keyword
    apply Runs.nothing hs
    cases value with
    | none => exact .pure hw trivial
    | some e =>
      apply (ih.evaluate hw hs (he e rfl)).bind
      intro v w₁ h₁ hv
      exact .pure h₁.fits hv
  | classDecl hx hsup hmethods _ =>
    rename_i sup methods x _
    obtain ⟨hthis, hsuper⟩ := (hT _ hx.1).1 hx.2
    cases sup with
    | none =>
      have hnone : ∀ c ∈ (none : Option Class), c.Fits T w := fun c hc => by cases hc
      apply (declareClass_fits hw hs hnone hmethods hthis).bind
      intro _ w₁ h₁ hs₁
      exact .pure h₁.fits ⟨trivial, fun _ => hs₁⟩
    | some ref =>
      have href := hsup ref rfl
      rw [← Display.scopes_declare] at href
      apply (ih.evaluate hw (hs.pending hthis hsuper) href).bind
      intro v w₁ h₁ hv
      cases v with
      | klass c =>
        have hc : ∀ d ∈ some c, d.Fits T w₁ := by
          intro d hd
          cases hd
          exact hv
        apply (declareClass_fits h₁.fits (hs.after h₁) hc hmethods hthis).bind
        intro _ w₂ h₂ hs₂
        exact .pure h₂.fits ⟨trivial, fun _ => hs₂⟩
      | _ =>
        cases href with
        | var hname _ _ =>
          exact (Runs.fault (R := fun _ _ => False) h₁.fits hname.1 _).bind
            fun _ _ _ hf => hf.elim

theorem loop_runs (ih : Sound T host n) {Δ : Display} (hw : w.Fits T host.natives.length)
    (hs : w.Stands Δ none) (hc : c.Scoped T Δ.scopes none) (hnone : s.declared? = none)
    (h : s.Scoped T Δ.scopes) :
    Runs T host (loop host (n + 1) Δ c s) (fun c w' => c.Fits T host.natives.length w') w := by
  rw [loop]
  apply (heed_runs hw).bind
  intro _ w₁ h₁ _
  apply (ih.evaluate h₁.fits (hs.after h₁) hc).bind
  intro v w₂ h₂ _
  have h₁₂ := h₁.trans h₂
  refine .ite ?_ (.pure h₂.fits trivial)
  apply (ih.execute h₂.fits (hs.after h₁₂) h).bind
  rintro done w₃ h₃ ⟨hdone, -⟩
  cases done with
  | normal => exact ih.loop h₃.fits (hs.after (h₁₂.trans h₃)) hc hnone h
  | returned v => exact .pure h₃.fits hdone

theorem sound (hT : ∀ t, T t → t.Lexical) (hN : ∀ n ∈ host.natives, n.Tame host.natives) (n : Nat) :
    Sound T host n := by
  induction n with
  | zero => exact .zero
  | succ n ih =>
    exact {
      evaluate := evaluate_runs hT ih
      arguments := arguments_runs ih
      call := call_runs hN ih
      invoke := invoke_runs hT ih
      run := run_runs ih
      execute := execute_runs hT ih
      loop := loop_runs ih }

theorem global_stands (h : w.machine.current = Machine.globals) : w.Stands [] none :=
  ⟨h, .nil _ _, by simp, by simp⟩

theorem statements_runs (hT : ∀ t, T t → t.Lexical) (hN : ∀ n ∈ host.natives, n.Tame host.natives)
    (steps : Nat) (hw : w.Fits T host.natives.length)
    (hg : w.machine.current = Machine.globals) (h : Program.Scoped T [] ss) :
    Runs T host (statements host steps ss) (fun _ _ => True) w := by
  induction ss generalizing w with
  | nil => exact .pure hw trivial
  | cons s ss ih =>
    cases h with
    | cons hs hss =>
      rw [Scopes.declare?_nil] at hss
      rw [statements]
      apply (heed_runs hw).bind
      intro _ w₁ h₁ _
      have hg₁ := h₁.current.trans hg
      apply ((sound hT hN steps).execute h₁.fits (global_stands hg₁) hs).bind
      intro _ w₂ h₂ _
      exact ih h₂.fits (h₂.current.trans hg₁) hss

end Watched

end LoxLang
