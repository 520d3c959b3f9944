import LoxLang.Proofs.Machine.Bound

namespace LoxLang
set_option autoImplicit true

namespace Context

variable {w : Watched} {Δ : Display} {p : Option Text}

theorem Fits.this {ctx : Context} (h : ctx.Fits w.machine.store Δ)
    (hs : w.Stands Δ p) (hd : Δ.scopes.distance "this" = some d) :
    ∃ id c, ctx.receiver = some (id, c) ∧ w.machine.Binds d "this" (.object id c) := by
  obtain ⟨g, id, c, hg, hr, hv⟩ := h.receiver d hd
  exact ⟨id, c, hr, g, hs.frame? hg, hv⟩

theorem Fits.super {ctx : Context} (h : ctx.Fits w.machine.store Δ)
    (hs : w.Stands Δ p) (hd : Δ.scopes.distance "this" = some k)
    (hd' : Δ.scopes.distance "super" = some (k + 1)) :
    ∃ c, ctx.parent = some c ∧ w.machine.Binds (k + 1) "super" (.klass c) := by
  obtain ⟨g, c, hg, hp, hv⟩ := h.parent k hd hd'
  exact ⟨c, hp, g, hs.frame? hg, hv⟩

end Context

namespace Anchored

variable {T : Token → Prop} {host : Host} {w w' : Watched} {a a' : Anchored}

/-- The two machines stand at a place whose context fits the activations around it. -/
structure Place (T : Token → Prop) (host : Host) (ctx : Context) (Δ : Display)
    (pending : Option Text) (w : Watched) (a : Anchored) : Prop where
  fits : w.Fits T host.natives.length
  stands : w.Stands Δ pending
  context : ctx.Fits w.machine.store Δ
  tied : Tied w a

theorem Place.next {ctx : Context} (h : Place T host ctx Δ p w a)
    (hn : Next T host new w w' a') : Place T host ctx Δ p w' a' :=
  ⟨hn.after.fits, h.stands.after hn.after, h.context.keeps hn.keeps, hn.tied⟩

theorem Place.declaring {ctx : Context} {x : Text} (h : Place T host ctx Δ none w a)
    (hx : ¬ x.Reserved) : Place T host ctx (Δ.declare x) (some x) w a :=
  ⟨h.fits, h.stands.pending (fun he => hx (.inl he)) fun he => hx (.inr he), h.context.declare hx,
    h.tied⟩

def Sighted (ctx : Context) (e : Expr Distance) (P : Watch Value) (w : Watched) : Prop :=
  match P w with
  | .ok v w' => Sight.Sound ⟨e, some v, ctx, w'.machine⟩
  | .error _ w' => Sight.Sound ⟨e, none, ctx, w'.machine⟩

theorem Tied.note {ctx : Context} {e : Expr Distance} {value : Option Value} (h : Tied w a)
    (hv : Sight.Sound ⟨e, value, ctx, w.machine⟩) : Tied w (a.note ctx e value) := by
  refine ⟨h.machine, h.origins, fun v hm => ?_⟩
  rcases List.mem_append.1 hm with hm | hm
  · exact h.sights v hm
  · rw [List.mem_singleton.1 hm, h.machine]
    exact hv

theorem Agree.sighted {ctx : Context} {P : Watch Value} {Q : Anchor Value} (h : Agree P Q w a)
    (hs : Sighted ctx e P w) : Agree P (sighted ctx e Q) w a := by
  unfold Agree at h ⊢
  unfold Sighted at hs
  unfold Anchored.sighted
  cases hp : P w with
  | ok v w' =>
    rw [hp] at h hs
    obtain ⟨a', hq, ht⟩ := h
    rw [hq]
    exact ⟨_, rfl, ht.note hs⟩
  | error stop w' =>
    rw [hp] at h hs
    obtain ⟨a', hq, ht⟩ := h
    rw [hq]
    exact ⟨_, rfl, ht.note hs⟩

/-- What running with this many steps has in common on the two machines. -/
structure Binding (T : Token → Prop) (host : Host) (n : Nat) : Prop where
  evaluate : ∀ {ctx Δ pending w a e}, Place T host ctx Δ pending w a →
    e.Scoped T Δ.scopes pending →
    Follows T host (Watched.evaluate host n Δ e) (evaluate host n ctx e)
      (fun v w' => v.Fits T host.natives.length w') none w a
  arguments : ∀ {ctx Δ pending w a es}, Place T host ctx Δ pending w a →
    (∀ e ∈ es, Expr.Scoped T Δ.scopes pending e) →
    Follows T host (Watched.arguments host n Δ es) (arguments host n ctx es)
      (fun vs w' => ∀ v ∈ vs, Value.Fits T host.natives.length w' v) none w a
  call : ∀ {w a v args}, w.Fits T host.natives.length → Tied w a →
    v.Fits T host.natives.length w → (∀ u ∈ args, Value.Fits T host.natives.length w u) →
    v.Takes host.natives args.length →
    Follows T host (Watched.call host n v args) (call host n v args)
      (fun v w' => v.Fits T host.natives.length w') none w a
  invoke : ∀ {w a f args}, w.Fits T host.natives.length → Tied w a → f.Fits T w →
    (∀ u ∈ args, Value.Fits T host.natives.length w u) → f.arity ≤ args.length →
    Follows T host (Watched.invoke host n f args) (invoke host n f args)
      (fun v w' => v.Fits T host.natives.length w') none w a
  run : ∀ {ctx b Δ w a ss}, Place T host ctx (b :: Δ) none w a → Display.Inner (b :: Δ) →
    Program.Scoped T (Display.scopes (b :: Δ)) ss →
    Follows T host (Watched.run host n (b :: Δ) ss) (run host n ctx ss)
      (fun c w' => c.Fits T host.natives.length w') none w a
  execute : ∀ {ctx Δ w a s}, Place T host ctx Δ none w a → Δ.Inner → s.Scoped T Δ.scopes →
    Follows T host (Watched.execute host n Δ s) (execute host n ctx s)
      (fun c w' => c.Fits T host.natives.length w' ∧
        (c = .normal → w'.Stands (Δ.declare? s.declared?) none)) (Δ.global? s.declared?) w a
  loop : ∀ {ctx Δ w a c s}, Place T host ctx Δ none w a → Δ.Inner → c.Scoped T Δ.scopes none →
    s.declared? = none → s.Scoped T Δ.scopes →
    Follows T host (Watched.loop host n Δ c s) (loop host n ctx c s)
      (fun c w' => c.Fits T host.natives.length w') none w a

def asksReceiver : Expr Distance → Bool
  | .this _ | .super _ _ => true
  | _ => false

theorem Sighted.of_runs {ctx : Context} {P : Watch Value}
    (h : Watched.Runs T host P (fun v w' => v.Fits T host.natives.length w') w)
    (he : asksReceiver e = false) : Sighted ctx e P w := by
  have hthis (ref : Reference Distance) (h : e = .this ref) : False := by
    subst h
    cases he
  have hsuper (ref : Reference Distance) (name : Token) (h : e = .super ref name) : False := by
    subst h
    cases he
  unfold Watched.Runs at h
  unfold Sighted
  cases hp : P w with
  | ok v w' =>
    rw [hp] at h
    refine ⟨fun ref he => (hthis ref he).elim, fun ref name he => (hsuper ref name he).elim,
      fun f hf => ?_⟩
    rcases hf with hf | hf
    · exact h.1.fits.held hf
    · cases hf
      exact h.1.fits.seated h.2
  | error stop w' =>
    rw [hp] at h
    refine ⟨fun ref he => (hthis ref he).elim, fun ref name he => (hsuper ref name he).elim,
      fun f hf => ?_⟩
    rcases hf with hf | hf
    · exact h.1.fits.held hf
    · cases hf

theorem this_ok {ctx : Context} {ref : Reference Distance} (h : Place T host ctx Δ pending w a)
    (hlex : ref.name.lexeme = "this") (hmark : ref.mark = some d)
    (hd : Δ.scopes.distance "this" = some d) : ∃ id c w', ctx.receiver = some (id, c) ∧
      w.machine.Binds d "this" (.object id c) ∧ w'.machine = w.machine ∧ w'.homes = w.homes ∧
      Watched.evaluate host (n + 1) Δ (.this ref) w = .ok (.object id c) w' := by
  obtain ⟨id, c, hreceiver, hbinds⟩ := h.context.this h.stands hd
  refine ⟨id, c, { w with visits := w.visits ++
    [⟨.this, ref.name.lexeme, ref.mark, Δ, w.machine.current, w.machine.store⟩] }, hreceiver, hbinds,
    rfl, rfl, ?_⟩
  have hlook : Machine.lookUp ref.name (some d) w.machine = .ok (.object id c) w.machine :=
    Machine.lookUp_ok (by rw [hlex]; exact hbinds.getAt?)
  change Watched.lift (Machine.lookUp ref.name ref.mark) { w with visits := _ } = _
  unfold Watched.lift
  rw [hmark]
  dsimp only
  rw [hlook]

theorem this_agrees {ctx : Context} {ref : Reference Distance} (h : Place T host ctx Δ pending w a)
    (hlex : ref.name.lexeme = "this") (hmark : ref.mark = some d)
    (hd : Δ.scopes.distance "this" = some d) :
    Agree (Watched.evaluate host (n + 1) Δ (.this ref)) (this ctx) w a ∧
      Sighted ctx (.this ref) (Watched.evaluate host (n + 1) Δ (.this ref)) w := by
  obtain ⟨id, c, w', hreceiver, hbinds, hm, hhomes, hok⟩ := this_ok (n := n) h hlex hmark hd
  have hthis : this ctx a = .ok (.object id c) a := by
    unfold this
    rw [hreceiver]
    rfl
  constructor
  · unfold Agree
    rw [hok, hthis]
    exact ⟨a, rfl, hm ▸ h.tied.machine, hm ▸ hhomes ▸ h.tied.origins, h.tied.sights⟩
  · unfold Sighted
    rw [hok]
    dsimp only
    rw [hm]
    refine ⟨fun ref' he => ?_, fun _ _ he => (by cases he), fun f hf => ?_⟩
    · cases he
      exact ⟨id, c, d, hreceiver, hmark, hbinds, rfl⟩
    · exact h.fits.held (hf.resolve_right fun he => by cases he)

theorem super_sighted {ctx : Context} {ref : Reference Distance} {name : Token}
    (h : Place T host ctx Δ pending w a)
    (hr : Watched.Runs T host (Watched.evaluate host (n + 1) Δ (.super ref name))
      (fun v w' => v.Fits T host.natives.length w') w)
    (hmark : ref.mark = some (k + 1)) (hd : Δ.scopes.distance "this" = some k)
    (hd' : Δ.scopes.distance "super" = some (k + 1)) :
    Sighted ctx (.super ref name) (Watched.evaluate host (n + 1) Δ (.super ref name)) w := by
  obtain ⟨id, c, hreceiver, hthis⟩ := h.context.this h.stands hd
  obtain ⟨parent, hparent, hsuper⟩ := h.context.super h.stands hd hd'
  have hctx : ctx = ⟨some (id, c), some parent⟩ := by
    cases ctx
    cases hreceiver
    cases hparent
    rfl
  let w₁ : Watched := { w with visits := w.visits ++
    [⟨.super, ref.name.lexeme, ref.mark, Δ, w.machine.current, w.machine.store⟩] }
  have hl := Watched.superMethod_leaves (w := w₁) h.fits.size (some (k + 1)) name
  have hrun : Watched.evaluate host (n + 1) Δ (.super ref name) w =
      Watched.superMethod (some (k + 1)) name w₁ := by
    rw [← hmark]
    rfl
  unfold Watched.Runs at hr
  unfold Watched.Leaves at hl
  unfold Sighted
  rw [hrun] at hr ⊢
  rw [Watched.superMethod_eq (w := w₁) hthis hsuper] at hr hl ⊢
  cases hm : parent.nearest? name.lexeme with
  | none =>
    refine ⟨fun _ he => (by cases he), fun ref' name' he => ?_, fun f hf => ?_⟩
    · cases he
      refine ⟨id, c, parent, k, hctx, hmark, hthis, hsuper, ?_⟩
      rw [hm]
    · exact h.fits.held (hf.resolve_right fun he => by cases he)
  | some m =>
    obtain ⟨f, w', hok, hbound⟩ := Watched.bindMethod_boundTo w₁ m (.object id c)
    have hfun : (Watched.bindMethod m (.object id c) >>= fun f => pure (Value.function f)) w₁ =
        .ok (.function f) w' := by
      change EStateM.bind _ _ w₁ = _
      unfold EStateM.bind
      rw [hok]
      rfl
    rw [hm] at hr hl
    dsimp only at hr hl ⊢
    rw [hfun] at hr hl ⊢
    obtain ⟨hafter, hf⟩ := hr
    have hs' := h.stands.after hafter
    have hc' := h.context.keeps hl
    obtain ⟨id', c', hreceiver', hthis'⟩ := hc'.this hs' hd
    obtain ⟨parent', hparent', hsuper'⟩ := hc'.super hs' hd hd'
    cases hreceiver.symm.trans hreceiver'
    cases hparent.symm.trans hparent'
    refine ⟨fun _ he => (by cases he), fun ref' name' he => ?_, fun f' hf' => ?_⟩
    · cases he
      refine ⟨id, c, parent, k, hctx, hmark, hthis', hsuper', ?_⟩
      rw [hm]
      exact ⟨f, rfl, hbound⟩
    · rcases hf' with hf' | hf'
      · exact hafter.fits.held hf'
      · cases hf'
        exact hafter.fits.seated hf

theorem act_agrees {callW : Value → List Value → Watch Value}
    {callA : Value → List Value → Anchor Value}
    (hcall : ∀ {w a v args}, w.Fits T host.natives.length → Tied w a →
      v.Fits T host.natives.length w → (∀ u ∈ args, Value.Fits T host.natives.length w u) →
      v.Takes host.natives args.length →
      Follows T host (callW v args) (callA v args)
        (fun v w' => v.Fits T host.natives.length w') none w a)
    {act : Native.Act} (h : act.Tame host.natives given)
    (hasks : act.Asks fun q => ∀ x v, q ≠ .define x v) (hw : w.Fits T host.natives.length)
    (ht : Tied w a) (hgiven : ∀ v ∈ given, Value.Fits T host.natives.length w v) :
    Agree (act.perform (fun q => Watched.lift (Machine.serve host q)) Watched.property callW)
      (act.perform (fun q => lift (Machine.serve host q)) property callA) w a := by
  induction h generalizing w a with
  | done => exact .pure ht _
  | fail => exact .throw ht _
  | @ask _ _ q hq _ ih =>
    cases hasks with
    | ask hdefine hasks =>
      have hleaves : Watched.Leaves none (Watched.lift (Machine.serve host q)) w :=
        Watched.serve_leaves hdefine
      refine Follows.bind ⟨Watched.serve_runs hw fun v hv => Watched.from_fits (hq v hv) hgiven,
        hleaves, .lift ht hleaves (Machine.serve_barren host _)⟩ fun vs w₁ a₁ h₁ hvs => ?_
      exact ih vs (hasks vs) h₁.after.fits h₁.tied
        (Watched.given_fits hgiven h₁.after.grows hvs)
  | property hobject _ ih =>
    cases hasks with
    | property hasks =>
      have hfits := Watched.from_fits hobject hgiven
      refine Follows.bind ⟨Watched.property_caught hw hfits _ _,
        (Watched.property_leaves hw.size _ _ _).attempt,
        (property_agrees ht hw hfits _ _).attempt⟩ fun r w₁ a₁ h₁ hr => ?_
      exact ih r hr.heard (hasks r) h₁.after.fits h₁.tied
        (Watched.given_fits hgiven h₁.after.grows hr.fits)
  | call hf hargs htakes _ ih =>
    cases hasks with
    | call hasks =>
      have hfollows := hcall hw ht (Watched.from_fits hf hgiven)
        (fun v hv => Watched.from_fits (hargs v hv) hgiven) htakes
      refine Follows.bind ⟨hfollows.runs.attempt, hfollows.leaves.attempt, hfollows.agree.attempt⟩
        fun r w₁ a₁ h₁ hr => ?_
      exact ih r hr.heard (hasks r) h₁.after.fits h₁.tied
        (Watched.given_fits hgiven h₁.after.grows hr.fits)

theorem call_agrees (hN : ∀ n ∈ host.natives, n.Tame host.natives)
    (hD : ∀ n ∈ host.natives, n.Discreet) (ih : Binding T host n)
    (hw : w.Fits T host.natives.length) (ht : Tied w a)
    (hv : v.Fits T host.natives.length w) (ha : ∀ u ∈ args, Value.Fits T host.natives.length w u)
    (htakes : v.Takes host.natives args.length) :
    Agree (Watched.call host (n + 1) v args) (call host (n + 1) v args) w a := by
  cases v with
  | function f => exact (ih.invoke hw ht hv ha htakes).agree
  | klass c =>
    have hc : c.Fits T w := hv
    have h₁ := Watched.After.newObject hw
    have hkeeps : w.machine.store.Keeps none w.machine.store.newObject.2 := .of_vars fun _ => rfl
    have ht₁ := ht.step (m := { w.machine with store := w.machine.store.newObject.2 }) hkeeps rfl
    obtain ⟨m, origins, sights⟩ := a
    obtain rfl : m = w.machine := ht.machine
    rw [Watched.call, call, ← Class.findMethod_eq]
    refine .step rfl rfl ?_
    rw [Value.Takes, Class.arity] at htakes
    cases hinit : c.initializer? with
    | none =>
      have hfind : c.findMethod "init" = none := hinit
      dsimp only
      rw [hfind]
      exact .pure ht₁ _
    | some init =>
      have hfind : c.findMethod "init" = some init := hinit
      rw [hinit] at htakes
      have hfits := (hc.findMethod hinit).grows h₁.grows
      dsimp only
      rw [hfind]
      refine Follows.bind ⟨Watched.bindMethod_fits h₁.fits hfits (hc.grows h₁.grows) _,
        .step rfl (.refl _) (Watched.bindMethod_keeps h₁.fits.size _ _),
        bindMethod_agrees ht₁ h₁.fits.size hfits _ _⟩ ?_
      rintro bound w₂ a₂ h₂ ⟨hbound, hboundArity⟩
      refine (ih.invoke h₂.after.fits h₂.tied hbound
        (fun u hm => (ha u hm).grows (h₁.trans h₂.after).grows) ?_).agree.map _
      exact hboundArity ▸ htakes
  | native i =>
    rw [Watched.call, call]
    have hi : i < host.natives.length := hv
    have hget := List.getElem?_eq_getElem hi
    have hmem := List.getElem_mem hi
    rw [hget]
    exact act_agrees ih.call (hN _ hmem host.now args (htakes _ hget).symm)
      (hD _ hmem host.now args) hw ht ha
  | nil | bool | number | string | object | absent => cases htakes

theorem arguments_agrees (ih : Binding T host n) {ctx : Context} {Δ : Display}
    (h : Place T host ctx Δ pending w a) (he : ∀ e ∈ es, Expr.Scoped T Δ.scopes pending e) :
    Agree (Watched.arguments host (n + 1) Δ es) (arguments host (n + 1) ctx es) w a := by
  cases es with
  | nil => exact .pure h.tied _
  | cons e es =>
    obtain ⟨he, hes⟩ := List.forall_mem_cons.1 he
    exact (ih.evaluate h he).bind fun v w₁ a₁ h₁ _ => (ih.arguments (h.next h₁) hes).agree.map _

theorem heed_follows (hw : w.Fits T host.natives.length) (ht : Tied w a) :
    Follows T host (Watched.lift (Machine.heed host)) (lift (Machine.heed host)) (fun _ _ => True)
      none w a :=
  ⟨Watched.heed_runs hw, .quiet (Machine.heed_quiet host), .quiet ht (Machine.heed_quiet host)⟩

theorem loop_agrees (ih : Binding T host n) {ctx : Context} {Δ : Display}
    (h : Place T host ctx Δ none w a) (hΔ : Δ.Inner) (hc : c.Scoped T Δ.scopes none)
    (hnone : s.declared? = none) (hs : s.Scoped T Δ.scopes) :
    Agree (Watched.loop host (n + 1) Δ c s) (loop host (n + 1) ctx c s) w a := by
  rw [Watched.loop, loop]
  refine (heed_follows h.fits h.tied).bind fun _ w₁ a₁ h₁ _ => ?_
  have hplace := h.next h₁
  refine (ih.evaluate hplace hc).bind fun v w₂ a₂ h₂ _ => ?_
  refine .ite ?_ (.pure h₂.tied _)
  refine (ih.execute (hplace.next h₂) hΔ hs).bind fun done w₃ a₃ h₃ _ => ?_
  cases done with
  | normal => exact (ih.loop ((hplace.next h₂).next h₃) hΔ hc hnone hs).agree
  | returned v => exact .pure h₃.tied _

theorem run_agrees (hT : ∀ t, T t → t.Lexical) (ih : Binding T host n) {ctx : Context} {Δ : Display}
    (h : Place T host ctx (b :: Δ) none w a) (hΔ : Display.Inner (b :: Δ))
    (hs : Program.Scoped T (Display.scopes (b :: Δ)) ss) :
    Agree (Watched.run host (n + 1) (b :: Δ) ss) (run host (n + 1) ctx ss) w a := by
  cases hs with
  | nil => exact .pure h.tied _
  | cons hs hrest =>
    refine (ih.execute h hΔ hs).bind ?_
    rintro done w₁ a₁ h₁ ⟨-, hnormal⟩
    cases done with
    | returned v => exact .pure h₁.tied _
    | normal =>
      rw [← Display.scopes_declare?] at hrest
      have hs₁ := hnormal rfl
      have hctx := h.context.keeps h₁.keeps
      rename_i s _
      cases hx : s.declared? with
      | none =>
        rw [hx] at hrest hs₁
        exact (ih.run ⟨h₁.after.fits, hs₁, hctx, h₁.tied⟩ hΔ hrest).agree
      | some x =>
        rw [hx] at hrest hs₁
        have hfree := hs.declared_not_reserved hT hx
        exact (ih.run ⟨h₁.after.fits, hs₁, hctx.declare hfree, h₁.tied⟩ (hΔ.declare hfree)
          hrest).agree

theorem initializer_receiver {ctx : Context} {f : Closure} (hf : f.Fits T w)
    (hi : f.isInitializer) (hc : ctx.Fits w.machine.store (w.homes f.serial)) :
    ∃ id c, ctx.receiver = some (id, c) ∧
      (w.machine.store.vars f.frame).get? "this" = some (.object id c) ∧
      w.machine.store.getAt? f.frame 0 "this" = some (.object id c) := by
  obtain ⟨b, Δ, hhome, hthis⟩ := hf.receiver hi
  have hd : (w.homes f.serial).scopes.distance "this" = some 0 := by
    rw [hhome, Display.scopes, List.map_cons, Scopes.distance_cons, if_pos hthis]
  obtain ⟨g, id, c, hg, hr, hv⟩ := hc.receiver 0 hd
  have hchain := hf.chain
  rw [hhome] at hchain hg
  cases hg
  refine ⟨id, c, hr, hchain.1 ▸ hv, ?_⟩
  rw [Store.getAt?, (hchain.ancestor? (d := 0) rfl).1, Option.map_some, hv]
  rfl

theorem not_mem_params {ps : List Token} {x : Text} (hp : ∀ p ∈ ps, ¬ p.lexeme.Reserved)
    (hx : x.Reserved) : x ∉ (ps.map Token.lexeme).reverse := by
  intro hm
  obtain ⟨p, hmem, rfl⟩ := List.mem_map.1 (List.mem_reverse.1 hm)
  exact hp p hmem hx

theorem invoke_agrees (hT : ∀ t, T t → t.Lexical) (ih : Binding T host n) {f : Closure}
    (hw : w.Fits T host.natives.length) (ht : Tied w a) (hf : f.Fits T w)
    (ha : ∀ u ∈ args, Value.Fits T host.natives.length w u)
    (harity : f.arity ≤ args.length) :
    Agree (Watched.invoke host (n + 1) f args) (invoke host (n + 1) f args) w a := by
  have hresolved := hf.resolved
  have horigin := ht.origins f.serial hf.serial
  obtain ⟨serial, ⟨name, params, body⟩, frame, isInitializer⟩ := f
  cases hresolved with
  | mk hparams hbody =>
    have hnames : ∀ p ∈ params, ¬ p.lexeme.Reserved := fun p hp => (hparams p hp).not_reserved hT
    have hne : w.machine.store.frames.size ≠ Machine.globals := (Nat.ne_of_lt hw.size).symm
    have h₁ := Watched.After.newFrame hw (some frame)
    have hkeeps := Store.Keeps.newFrame w.machine.store (some frame)
    have ht₁ := ht.step (m := { w.machine with store := _ }) hkeeps rfl
    obtain ⟨m, origins, sights⟩ := a
    obtain rfl : m = w.machine := ht.machine
    rw [Watched.invoke, invoke]
    refine .get (.step rfl rfl ?_)
    have hleaves : Watched.Leaves none (Watched.lift
        (Machine.bindParams w.machine.store.frames.size params args))
        (w.withStore (w.machine.store.newFrame (some frame)).2) :=
      Watched.bindParams_leaves hne hnames
    refine Follows.bind ⟨Watched.bindParams_runs h₁.fits (Store.lt_size_newFrame _ _)
      (fun p hp he => hnames p hp (.inl he)) (fun u hm => (ha u hm).grows h₁.grows) harity,
      hleaves, .lift ht₁ hleaves (Machine.bindParams_barren _ _ _)⟩ ?_
    intro _ w₂ a₂ h₂ hbound
    have hctx := (horigin.context.keeps hkeeps).keeps h₂.keeps
    have hplace : Place T host (origins serial).context
        (⟨w.machine.store.frames.size, (params.map Token.lexeme).reverse⟩ :: w.homes serial) none
        (w₂.at_ w.machine.store.frames.size) (a₂.at_ w.machine.store.frames.size) :=
      ⟨h₂.after.fits.at_ _, Watched.stands_of_placed hf.toPlaced h₂.after hbound,
        hctx.push _ (not_mem_params hnames (.inl rfl)), h₂.tied.at_ _⟩
    have hrun := ih.run hplace (.push _ (not_mem_params hnames (.inr rfl)) _) hbody
    refine Follows.bind ⟨hrun.runs.within fun c w' hc => Watched.completion_grows hc (.at_ w' _),
      hrun.leaves.within, .within h₂.tied hrun.agree⟩ ?_
    intro done w₃ a₃ h₃ _
    cases isInitializer with
    | false => cases done <;> exact .pure h₃.tied _
    | true =>
      have hgrows := (h₁.trans (h₂.after.trans h₃.after)).grows
      have hhome : w₃.homes serial = w.homes serial := hgrows.homes serial hf.serial
      have hctx₃ : Context.Fits (origins serial).context w₃.machine.store (w₃.homes serial) :=
        hhome ▸ hctx.keeps h₃.keeps
      obtain ⟨id, c, hreceiver, -, hget⟩ := initializer_receiver (hf.grows hgrows) rfl hctx₃
      refine .visit h₃.tied fun w₄ hm _ ht₄ => ?_
      have hthis : this (origins serial).context = pure (.object id c) := by
        unfold this
        rw [hreceiver]
      refine Agree.of_eq ?_ ?_ (.pure ht₄ (.object id c))
      · rw [Machine.get_bind, hm, hget]
      · rw [if_pos rfl, hthis]

theorem execute_agrees (hT : ∀ t, T t → t.Lexical) (ih : Binding T host n) {ctx : Context}
    {Δ : Display} (h : Place T host ctx Δ none w a) (hΔ : Δ.Inner) (hs : s.Scoped T Δ.scopes) :
    Agree (Watched.execute host (n + 1) Δ s) (execute host (n + 1) ctx s) w a := by
  cases hs with
  | expression he => exact (ih.evaluate h he).agree.map _
  | print he =>
    refine (ih.evaluate h he).bind fun v w₁ a₁ h₁ _ => Agree.map ?_ fun _ => Completion.normal
    exact .quiet h₁.tied (Machine.print_quiet v)
  | varDecl hx he _ =>
    rename_i init x _
    have hfree := hx.not_reserved hT
    have hfinish (v : Value) (w₁ : Watched) (a₁ : Anchored) (h₁ : Place T host ctx Δ none w₁ a₁) :
        Agree (do Watched.lift (Machine.bindVariable (← get).machine.current x.lexeme v)
                  return Completion.normal)
          (do lift (Machine.bindVariable (← get).machine.current x.lexeme v)
              return Completion.normal) w₁ a₁ := by
      have hkeeps : Watched.Leaves _
          (Watched.lift (Machine.bindVariable w₁.machine.current x.lexeme v)) w₁ := h₁.stands.keeps h₁.fits hfree v
      obtain ⟨m, origins, sights⟩ := a₁
      obtain rfl : m = w₁.machine := h₁.tied.machine
      exact .get (.map (.lift h₁.tied hkeeps fun _ => rfl) _)
    cases init with
    | none => exact hfinish .nil w a h
    | some e =>
      rw [← Display.scopes_declare] at he
      refine (ih.evaluate (h.declaring hfree) (he e rfl)).bind fun v w₁ a₁ h₁ _ => ?_
      exact hfinish v w₁ a₁ (h.next h₁)
  | block hbody =>
    have h₁ := Watched.After.newFrame h.fits (some w.machine.current)
    have hkeeps := Store.Keeps.newFrame w.machine.store (some w.machine.current)
    have ht₁ := h.tied.step (m := { w.machine with store := _ }) hkeeps rfl
    obtain ⟨m, origins, sights⟩ := a
    obtain rfl : m = w.machine := h.tied.machine
    have hplace : Place T host ctx (⟨w.machine.store.frames.size, []⟩ :: Δ) none _ _ :=
      ⟨h₁.fits.at_ _, h.stands.block, (h.context.keeps hkeeps).push _ (by simp), ht₁.at_ _⟩
    exact .get (.step rfl rfl (.within ht₁ (ih.run hplace (.push _ (by simp) Δ) hbody).agree))
  | ifThen hc hnone hthen =>
    refine (ih.evaluate h hc).bind fun v w₁ a₁ h₁ _ => ?_
    exact .ite (ih.execute (h.next h₁) hΔ hthen).agree (.pure h₁.tied _)
  | ifElse hc hnone hthen hnone' helse =>
    refine (ih.evaluate h hc).bind fun v w₁ a₁ h₁ _ => ?_
    exact .ite (ih.execute (h.next h₁) hΔ hthen).agree (ih.execute (h.next h₁) hΔ helse).agree
  | loop hc hnone hbody => exact (ih.loop h hΔ hc hnone hbody).agree
  | funDecl hx hr _ =>
    exact (declareFunction_agrees h.tied h.fits h.stands h.context hΔ (hx.not_reserved hT)).map _
  | ret he =>
    rename_i value keyword
    cases value with
    | none => exact .pure h.tied _
    | some e => exact (ih.evaluate h (he e rfl)).agree.map _
  | classDecl hx hsup hmethods _ =>
    rename_i sup methods x _
    have hfree := hx.not_reserved hT
    cases sup with
    | none =>
      exact (declareClass_agrees h.tied h.fits h.stands h.context hΔ hfree none methods).map _
    | some ref =>
      have href := hsup ref rfl
      rw [← Display.scopes_declare] at href
      refine (ih.evaluate (h.declaring hfree) href).bind fun v w₁ a₁ h₁ _ => ?_
      cases v with
      | klass c =>
        have h' := h.next h₁
        exact (declareClass_agrees h'.tied h'.fits h'.stands h'.context hΔ hfree (some c)
          methods).map _
      | _ => exact ⟨_, rfl, h₁.tied⟩

section
variable (hT : ∀ t, T t → t.Lexical) (hN : ∀ n ∈ host.natives, n.Tame host.natives)
  (hD : ∀ n ∈ host.natives, n.Discreet)

include hT hN

theorem evaluate_agrees (ih : Binding T host n) {ctx : Context} {Δ : Display}
    (h : Place T host ctx Δ pending w a) (he : e.Scoped T Δ.scopes pending) :
    Agree (Watched.evaluate host (n + 1) Δ e) (evaluate host (n + 1) ctx e) w a := by
  have hruns := (Watched.sound hT hN (n + 1)).evaluate h.fits h.stands he
  have hplain (he : asksReceiver e = false) : Sighted ctx e _ w := .of_runs hruns he
  cases he with
  | literal => exact .sighted (.pure h.tied _) (hplain rfl)
  | grouping he => exact .sighted (ih.evaluate h he).agree (hplain rfl)
  | unary _ _ he =>
    refine .sighted ((ih.evaluate h he).bind fun v w₁ a₁ h₁ _ => ?_) (hplain rfl)
    exact .quiet h₁.tied (Machine.negate_quiet _ v)
  | binary _ _ hl hr =>
    refine .sighted ((ih.evaluate h hl).bind fun left w₁ a₁ h₁ _ => ?_) (hplain rfl)
    refine (ih.evaluate (h.next h₁) hr).bind fun right w₂ a₂ h₂ _ => ?_
    exact .quiet h₂.tied (Machine.combine_quiet _ left right)
  | logical hl hr =>
    refine .sighted ((ih.evaluate h hl).bind fun left w₁ a₁ h₁ _ => ?_) (hplain rfl)
    exact .ite (.pure h₁.tied _) (ih.evaluate (h.next h₁) hr).agree
  | var =>
    refine .sighted (.refer h.tied fun w₁ _ _ ht => ?_) (hplain rfl)
    exact .quiet ht (Machine.lookUp_quiet _ _)
  | assign hname hmark he =>
    refine .sighted ((ih.evaluate h he).bind fun v w₁ a₁ h₁ _ => ?_) (hplain rfl)
    have hassign := Watched.assign_leaves h₁.after.fits (h.next h₁).stands
      (hname.not_reserved hT) hmark v
    refine .refer h₁.tied fun w₂ hm _ ht => Agree.map ?_ _
    exact .lift ht (hassign.of_machine hm) (Machine.assign_barren _ _ v)
  | call hparen hf hargs =>
    refine .sighted ((ih.evaluate h hf).bind fun callee w₁ a₁ h₁ hcallee => ?_) (hplain rfl)
    refine (ih.arguments (h.next h₁) hargs).bind fun values w₂ a₂ h₂ hvalues => ?_
    cases harity : Machine.arity? host callee with
    | none => exact .stop h₂.tied
    | some k =>
      dsimp only
      split
      · rename_i hk
        exact (ih.call h₂.after.fits h₂.tied (hcallee.grows h₂.after.grows) hvalues
          (hk ▸ Value.takes_of_arity? harity)).agree
      · exact .stop h₂.tied
  | get hx ho =>
    refine .sighted ((ih.evaluate h ho).bind fun v w₁ a₁ h₁ hv => ?_) (hplain rfl)
    cases v with
    | object id c => exact property_agrees h₁.tied h₁.after.fits hv id _
    | _ => exact .stop h₁.tied
  | set hx ho he =>
    refine .sighted ((ih.evaluate h ho).bind fun v w₁ a₁ h₁ _ => ?_) (hplain rfl)
    cases v with
    | object id c =>
      refine (ih.evaluate (h.next h₁) he).bind fun v w₂ a₂ h₂ _ => Agree.map ?_ fun _ => v
      exact .lift h₂.tied (.of_vars fun _ => rfl) fun _ => rfl
    | _ => exact .stop h₁.tied
  | this _ hlex hmark hd =>
    obtain ⟨hagree, hsighted⟩ := this_agrees (n := n) h hlex hmark hd
    exact .sighted hagree hsighted
  | super hname hlex hmethod hmark hd' hd =>
    refine .sighted (.refer h.tied fun w₁ hm hhomes ht => ?_) (super_sighted h hruns hmark hd hd')
    obtain ⟨id, c, hreceiver, hthis⟩ := h.context.this h.stands hd
    obtain ⟨parent, hparent, hsuper⟩ := h.context.super h.stands hd hd'
    have hfits : parent.Fits T w := by
      obtain ⟨g, -, hg⟩ := hsuper
      exact h.fits.vars g _ _ hg
    have hgrows : w.Grows w₁ := ⟨hm ▸ .refl _, fun n _ => congrFun hhomes n⟩
    rw [← hm] at hthis hsuper
    rw [hmark]
    exact superMethod_agrees ht (hm ▸ h.fits.size) (hfits.grows hgrows) hreceiver hparent hthis
      hsuper _

include hD in
theorem binding (n : Nat) : Binding T host n := by
  induction n with
  | zero =>
    have hsound : Watched.Sound T host 0 := Watched.sound hT hN 0
    have hkeeps : Watched.Keeping T host 0 := Watched.keeping hT hN hD 0
    exact {
      evaluate h he := ⟨hsound.evaluate h.fits h.stands he, hkeeps.evaluate h.fits h.stands he,
        .throw h.tied _⟩
      arguments h he := ⟨hsound.arguments h.fits h.stands he, hkeeps.arguments h.fits h.stands he,
        .throw h.tied _⟩
      call hw ht hv ha hk := ⟨hsound.call hw hv ha hk, hkeeps.call hw hv ha hk, .throw ht _⟩
      invoke hw ht hf ha hk := ⟨hsound.invoke hw hf ha hk, hkeeps.invoke hw hf ha hk, .throw ht _⟩
      run h _ hs := ⟨hsound.run h.fits h.stands hs, hkeeps.run h.fits h.stands hs,
        .throw h.tied _⟩
      execute h _ hs := ⟨hsound.execute h.fits h.stands hs, hkeeps.execute h.fits h.stands hs,
        .throw h.tied _⟩
      loop h _ hc hnone hs := ⟨hsound.loop h.fits h.stands hc hnone hs,
        hkeeps.loop h.fits h.stands hc hnone hs, .throw h.tied _⟩ }
  | succ n ih =>
    have hsound : Watched.Sound T host (n + 1) := Watched.sound hT hN (n + 1)
    have hkeeps : Watched.Keeping T host (n + 1) := Watched.keeping hT hN hD (n + 1)
    exact {
      evaluate h he := ⟨hsound.evaluate h.fits h.stands he, hkeeps.evaluate h.fits h.stands he,
        evaluate_agrees hT hN ih h he⟩
      arguments h he := ⟨hsound.arguments h.fits h.stands he, hkeeps.arguments h.fits h.stands he,
        arguments_agrees ih h he⟩
      call hw ht hv ha hk := ⟨hsound.call hw hv ha hk, hkeeps.call hw hv ha hk,
        call_agrees hN hD ih hw ht hv ha hk⟩
      invoke hw ht hf ha hk := ⟨hsound.invoke hw hf ha hk, hkeeps.invoke hw hf ha hk,
        invoke_agrees hT ih hw ht hf ha hk⟩
      run h hΔ hs := ⟨hsound.run h.fits h.stands hs, hkeeps.run h.fits h.stands hs,
        run_agrees hT ih h hΔ hs⟩
      execute h hΔ hs := ⟨hsound.execute h.fits h.stands hs, hkeeps.execute h.fits h.stands hs,
        execute_agrees hT ih h hΔ hs⟩
      loop h hΔ hc hnone hs := ⟨hsound.loop h.fits h.stands hc hnone hs,
        hkeeps.loop h.fits h.stands hc hnone hs, loop_agrees ih h hΔ hc hnone hs⟩ }

end

end Anchored

end LoxLang
