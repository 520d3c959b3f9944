import LoxLang.Proofs.Machine.Sound
import LoxLang.Proofs.Resolver.Sound

namespace LoxLang
set_option autoImplicit true

theorem Stmt.Scoped.declared_not_reserved {s : Stmt Distance} (hT : ∀ t, T t → t.Lexical)
    (h : s.Scoped T Γ) (hx : s.declared? = some x) : ¬ x.Reserved := by
  cases h with
  | varDecl hn | funDecl hn | classDecl hn =>
    cases hx
    exact hn.not_reserved hT
  | _ => cases hx

namespace Store

/-- From one store to the next the global names are the same but for a new one, if any, and `this`
and `super` keep their values. -/
structure Keeps (new : Option Text) (s s' : Store) : Prop where
  globals : ∀ x, (s'.vars Machine.globals).has x = true ↔
    (s.vars Machine.globals).has x = true ∨ new = some x
  reserved : ∀ f x v, x.Reserved → (s.vars f).get? x = some v → (s'.vars f).get? x = some v

theorem Keeps.of_vars (h : ∀ f, s'.vars f = s.vars f) : Keeps none s s' where
  globals x := by simp [h]
  reserved f x v _ hv := by
    rw [h]
    exact hv

theorem Keeps.refl (s : Store) : Keeps none s s := .of_vars fun _ => rfl

theorem Keeps.trans (h : Keeps none s s') (h' : Keeps new s' s'') : Keeps new s s'' where
  globals x := by
    have hx := h.globals x
    rw [h'.globals]
    simp_all
  reserved f x v hr hv := h'.reserved f x v hr (h.reserved f x v hr hv)

theorem Keeps.then (h : Keeps new s s') (h' : Keeps none s' s'') : Keeps new s s'' where
  globals x := by
    have hx := h'.globals x
    rw [hx, h.globals]
    simp
  reserved f x v hr hv := h'.reserved f x v hr (h.reserved f x v hr hv)

theorem Keeps.newFrame (s : Store) (p : Option FrameId) : Keeps none s (s.newFrame p).2 :=
  .of_vars (vars_newFrame s p)

theorem reserved_define {s : Store} {x y : Text} (hx : ¬ x.Reserved) (hy : y.Reserved)
    (hv : (s.vars g).get? y = some v) (f : FrameId) (u : Value) :
    ((s.define f x u).vars g).get? y = some v := by
  have hne : y ≠ x := fun he => hx (he ▸ hy)
  by_cases hg : g = f
  · subst hg
    by_cases hs : g < s.frames.size
    · rw [vars_define_self s x u hs, Dict.get?_set_of_ne _ _ hne]
      exact hv
    · rw [vars_of_size_le s (Nat.le_of_not_lt hs)] at hv
      cases hv
  · rw [vars_define_of_ne s x u hg]
    exact hv

theorem Keeps.local {x : Text} (hf : f ≠ Machine.globals) (hx : ¬ x.Reserved) (v : Value) :
    Keeps none s (s.define f x v) where
  globals y := by
    rw [vars_define_of_ne s x v hf.symm]
    simp
  reserved _ _ _ hy hu := reserved_define hx hy hu _ v

theorem Keeps.global {x : Text} (hs : Machine.globals < s.frames.size) (hx : ¬ x.Reserved)
    (v : Value) : Keeps (some x) s (s.define Machine.globals x v) where
  globals y := by
    rw [vars_define_self s x v hs]
    by_cases hy : y = x
    · subst hy
      simp [has_set_self]
    · rw [Dict.has, Dict.get?_set_of_ne _ _ hy, ← Dict.has]
      simp [Ne.symm hy]
  reserved _ _ _ hy hu := reserved_define hx hy hu _ v

theorem Keeps.rebind {x : Text} (hbound : (s.vars f).has x) (hx : ¬ x.Reserved) (v : Value) :
    Keeps none s (s.define f x v) where
  globals y := by
    by_cases hf : f = Machine.globals
    · subst hf
      refine ⟨fun hy => .inl ?_, fun hy => (Grows.define s _ x v).bound _ y (hy.resolve_right nofun)⟩
      by_cases he : y = x
      · rw [he]
        exact hbound
      · by_cases hs : Machine.globals < s.frames.size
        · rw [vars_define_self s x v hs, Dict.has, Dict.get?_set_of_ne _ _ he] at hy
          exact hy
        · rw [vars_of_size_le s (Nat.le_of_not_lt hs)] at hbound
          cases hbound
    · rw [vars_define_of_ne s x v (Ne.symm hf)]
      simp
  reserved _ _ _ hy hu := reserved_define hx hy hu _ v

theorem Keeps.scope (hs : Machine.globals < s.frames.size) (p : Option FrameId) (x : Text)
    (v : Value) : Keeps none s ((s.newFrame p).2.define s.frames.size x v) where
  globals y := by
    rw [vars_define_of_ne _ x v (Nat.ne_of_lt hs), vars_newFrame]
    simp
  reserved g y u _ hu := by
    have hg : g ≠ s.frames.size := by
      rintro rfl
      rw [vars_of_size_le s (Nat.le_refl _)] at hu
      cases hu
    rw [vars_define_of_ne _ x v hg, vars_newFrame]
    exact hu

theorem has_of_holder? {s : Store} {f : FrameId} (h : s.holder? x f = some g) :
    (s.vars g).has x := by
  induction f using Nat.strongRecOn with
  | ind f ih =>
    unfold holder? at h
    split at h
    · cases h
      assumption
    · split at h
      · split at h
        · exact ih _ ‹_› h
        · cases h
      · cases h

end Store

namespace Machine

def Quiet (step : Eval α) : Prop := ∀ m, match step m with
  | .ok _ m' | .error _ m' => m'.store = m.store

theorem Quiet.pure (a : α) : Quiet (Pure.pure a) := fun _ => rfl

theorem Quiet.throw (e : Stop) : Quiet (α := α) (MonadExcept.throw e) := fun _ => rfl

theorem Quiet.get {F : Machine → Eval α} (h : ∀ m, Quiet (F m)) :
    Quiet (MonadState.get >>= F) := fun m => h m m

theorem negate_quiet (op : Token) (v : Value) : Quiet (negate op v) := by
  unfold negate
  split
  · exact .pure _
  · split
    · exact .pure _
    · exact .throw _
  · exact .throw _

theorem arithmetic_quiet (op : Token) (left right : Value) : Quiet (arithmetic op left right) := by
  unfold arithmetic
  split
  · split
    all_goals first
      | exact .pure _
      | exact .throw _
  · exact .throw _

theorem combine_quiet (op : Token) (left right : Value) : Quiet (combine op left right) := by
  unfold combine
  split
  · exact .pure _
  · exact .pure _
  · unfold add
    split
    · exact .pure _
    · exact .pure _
    · exact .throw _
  · exact arithmetic_quiet op left right

theorem lookUp_quiet (name : Token) (d : Distance) : Quiet (lookUp name d) := by
  apply Quiet.get
  intro m
  cases d with
  | some k =>
    dsimp only
    split
    · exact .pure _
    · exact .throw _
  | none =>
    dsimp only
    split
    · exact .pure _
    · exact .throw _

theorem heed_quiet (host : Host) : Quiet (heed host) := by
  intro m
  rw [heed_apply]
  cases host.signal m.polls m.output with
  | true => rfl
  | false => rfl

theorem print_quiet (v : Value) : Quiet (print v) := by
  unfold print
  split
  · exact fun _ => rfl
  · exact .throw _

end Machine

namespace Watched

variable {T : Token → Prop} {host : Host} {w w' : Watched}

/-- A step adds at most this name to the global ones, and none if it fails. -/
def Leaves (new : Option Text) (P : Watch α) (w : Watched) : Prop :=
  match P w with
  | .ok _ w' => w.machine.store.Keeps new w'.machine.store
  | .error _ w' => w.machine.store.Keeps none w'.machine.store

theorem Leaves.pure (a : α) : Leaves none (Pure.pure a) w := .refl _

theorem Leaves.throw (e : Stop) : Leaves (α := α) new (MonadExcept.throw e) w := .refl _

theorem Leaves.bind {P : Watch α} {F : α → Watch β} (hr : Runs T host P R w)
    (h : Leaves none P w)
    (hF : ∀ a w', After T host.natives.length w w' → R a w' → Leaves new (F a) w') :
    Leaves new (P >>= F) w := by
  unfold Runs at hr
  unfold Leaves at h
  change Leaves new (EStateM.bind P F) w
  unfold Leaves EStateM.bind
  cases hp : P w with
  | error e w' =>
    rw [hp] at h
    exact h
  | ok a w' =>
    rw [hp] at h hr
    have hrest := hF a w' hr.1 hr.2
    unfold Leaves at hrest
    dsimp only at h ⊢
    cases hf : F a w' with
    | ok b w'' =>
      rw [hf] at hrest
      exact h.trans hrest
    | error e w'' =>
      rw [hf] at hrest
      exact h.trans hrest

theorem Leaves.step {P : Watch α} {F : α → Watch β} (hp : P w = .ok a w')
    (hw : w.machine.store.Keeps none w'.machine.store) (h : Leaves new (F a) w') :
    Leaves new (P >>= F) w := by
  change Leaves new (EStateM.bind P F) w
  unfold Leaves EStateM.bind
  unfold Leaves at h
  rw [hp]
  dsimp only
  cases hf : F a w' with
  | ok b w'' =>
    rw [hf] at h
    exact hw.trans h
  | error e w'' =>
    rw [hf] at h
    exact hw.trans h

theorem Leaves.refer {F : Unit → Watch α} {use : Use} {ref : Reference Distance} {Δ : Display}
    (h : ∀ w', w'.machine = w.machine → Leaves new (F ()) w') :
    Leaves new (refer use ref Δ >>= F) w := by
  have hrefer : Watched.refer use ref Δ w = .ok () { w with visits := w.visits ++
      [⟨use, ref.name.lexeme, ref.mark, Δ, w.machine.current, w.machine.store⟩] } := rfl
  exact .step hrefer (.refl _) (h _ rfl)

theorem Leaves.map {P : Watch α} (h : Leaves new P w) (f : α → β) :
    Leaves new (P >>= fun a => Pure.pure (f a)) w := by
  change Leaves new (EStateM.bind P fun a => Pure.pure (f a)) w
  unfold Leaves EStateM.bind
  unfold Leaves at h
  cases hp : P w with
  | ok a w' =>
    rw [hp] at h
    exact h
  | error e w' =>
    rw [hp] at h
    exact h

theorem Leaves.get {F : Watched → Watch α} (h : Leaves new (F w) w) :
    Leaves new (MonadState.get >>= F) w := h

theorem Leaves.ite {c : Prop} [Decidable c] {P P' : Watch α} (h : Leaves new P w)
    (h' : Leaves new P' w) : Leaves new (if c then P else P') w := by
  split
  · exact h
  · exact h'

theorem Leaves.within {P : Watch α} (h : Leaves new P (w.at_ f)) :
    Leaves new (within f P) w := by
  unfold Leaves Watched.within
  unfold Leaves Watched.at_ at h
  cases hp : P { w with machine := { w.machine with current := f } } with
  | ok a w' =>
    rw [hp] at h
    exact h
  | error e w' =>
    rw [hp] at h
    exact h

theorem Leaves.quiet {step : Eval α} (h : Machine.Quiet step) : Leaves none (lift step) w := by
  have hm := h w.machine
  unfold Leaves lift
  cases hs : step w.machine with
  | ok a m =>
    rw [hs] at hm
    exact .of_vars fun f => congrArg (·.vars f) hm
  | error e m =>
    rw [hs] at hm
    exact .of_vars fun f => congrArg (·.vars f) hm

theorem Leaves.attempt {P : Watch α} (h : Leaves none P w) : Leaves none (Native.attempt P) w := by
  unfold Leaves Native.attempt at *
  cases hp : P w with
  | ok a w' =>
    rw [hp] at h
    exact h
  | error e w' =>
    rw [hp] at h
    dsimp only at h ⊢
    cases e.isFatal with
    | true => exact h
    | false => exact h

theorem serve_leaves {q : Native.Request} (hq : ∀ x v, q ≠ .define x v) :
    Leaves none (lift (Machine.serve host q)) w := by
  cases q with
  | define x v => exact absurd rfl (hq x v)
  | _ => exact .of_vars fun _ => rfl

theorem Leaves.of_machine {P : Eval α} (h : Leaves new (lift P) w)
    (hm : w'.machine = w.machine) : Leaves new (lift P) w' := by
  unfold Leaves lift at h ⊢
  rw [hm]
  cases hp : P w.machine with
  | ok a m =>
    rw [hp] at h
    exact h
  | error e m =>
    rw [hp] at h
    exact h

theorem Leaves.lift_get {F : Machine → Eval α} (h : Leaves new (lift (F w.machine)) w) :
    Leaves new (lift (MonadState.get >>= F)) w := h

theorem bindMethod_keeps (hsize : Machine.globals < w.machine.store.frames.size) (m : Closure)
    (v : Value) : w.machine.store.Keeps none (((w.machine.store.newFrame (some m.frame)).2.define
      w.machine.store.frames.size "this" v).newSerial).2 :=
  (Store.Keeps.scope hsize (some m.frame) "this" v).trans (.of_vars fun _ => rfl)

theorem Stands.local {Δ : Display} {d : Nat} (hw : w.Fits T k) (hs : w.Stands Δ p)
    (ha : Δ[d]? = some a) :
    a.frame ≠ Machine.globals := by
  obtain ⟨-, p, hp⟩ := hs.chain.ancestor? ha
  intro he
  rw [he, hw.root] at hp
  cases hp

end Watched

/-- The name if these activations are none, so that the place is outside of all scopes. -/
def Display.global? : Display → Option Text → Option Text
  | [], x => x
  | _ :: _, _ => none

@[simp] theorem Display.global?_none (Δ : Display) : Δ.global? none = none := by cases Δ <;> rfl

namespace Watched

variable {T : Token → Prop} {host : Host} {w w' : Watched}

theorem Stands.keeps {Δ : Display} {x : Text} (hw : w.Fits T k) (hs : w.Stands Δ p)
    (hx : ¬ x.Reserved) (v : Value) : w.machine.store.Keeps (Δ.global? (some x))
      (w.machine.store.define w.machine.current x v) := by
  cases Δ with
  | nil =>
    have hcurrent : w.machine.current = Machine.globals := hs.chain
    rw [hcurrent]
    exact .global hw.size hx v
  | cons a Δ =>
    have hcurrent : w.machine.current = a.frame := hs.chain.1
    rw [hcurrent]
    exact .local (hs.local (d := 0) hw rfl) hx v

theorem property_leaves (hsize : Machine.globals < w.machine.store.frames.size) (id : Nat)
    (c : Class) (name : Token) : Leaves none (property id c name) w := by
  apply Leaves.get
  refine .step rfl (.refl _) ?_
  rw [Machine.property]
  apply Leaves.lift_get
  split
  · exact .quiet (.pure _)
  · split
    · exact bindMethod_keeps hsize _ _
    · exact .quiet (.throw _)

theorem superMethod_leaves (hsize : Machine.globals < w.machine.store.frames.size) (d : Distance)
    (method : Token) : Leaves none (superMethod d method) w := by
  apply Leaves.get
  refine .step rfl (.refl _) ?_
  rw [Machine.superMethod]
  apply Leaves.lift_get
  dsimp only
  split
  · split
    · exact .quiet (.throw _)
    · split
      · exact bindMethod_keeps hsize _ _
      · exact .quiet (.throw _)
  · exact .quiet (.throw _)

theorem assign_leaves {Δ : Display} {name : Token} (hw : w.Fits T k) (hs : w.Stands Δ p)
    (hx : ¬ name.lexeme.Reserved) (hmark : mark = Δ.scopes.distance name.lexeme) (v : Value) :
    Leaves none (lift (Machine.assign name mark v)) w := by
  subst hmark
  rw [Machine.assign]
  apply Leaves.lift_get
  cases hd : Δ.scopes.distance name.lexeme with
  | some d =>
    obtain ⟨a, ha, -, -, hframe, -⟩ := hs.find hd
    have hassign : w.machine.store.assignAt? w.machine.current d name.lexeme v =
        some (w.machine.store.define a.frame name.lexeme v) := by
      rw [Store.assignAt?, hframe, Option.map_some]
    dsimp only
    rw [hassign]
    exact Store.Keeps.local (hs.local hw ha) hx v
  | none =>
    dsimp only
    cases ha : w.machine.store.assign? Machine.globals name.lexeme v with
    | some store =>
      obtain ⟨g, hg, rfl⟩ := Option.map_eq_some_iff.1 ha
      exact Store.Keeps.rebind (Store.has_of_holder? hg) hx v
    | none => exact .quiet (.throw _)

theorem bindParams_leaves {ps : List Token} (hf : f ≠ Machine.globals)
    (hp : ∀ p ∈ ps, ¬ p.lexeme.Reserved) :
    Leaves none (lift (Machine.bindParams f ps args)) w := by
  induction ps generalizing w args with
  | nil => exact .quiet (.pure _)
  | cons p ps ih =>
    obtain ⟨hx, hps⟩ := List.forall_mem_cons.1 hp
    cases args with
    | nil => exact .quiet (.throw _)
    | cons v vs =>
      rw [Machine.bindParams, lift_bind]
      exact .step rfl (.local hf hx v) (ih hps)

theorem declareFunction_leaves {r : Routine (Stmt Distance)} {Δ : Display}
    (hw : w.Fits T k) (hs : w.Stands Δ none) (hx : ¬ r.name.lexeme.Reserved) (Δ' : Display) :
    Leaves (Δ.global? (some r.name.lexeme)) (declareFunction r Δ') w := by
  have hopened := After.opened hw Δ'
  have hkeeps := (hs.after (hopened.trans (.newSerial hopened.fits))).keeps
    hopened.fits.newSerial hx (.function ⟨w.machine.store.serial, r, w.machine.current, false⟩)
  have hserial : w.machine.store.Keeps none w.machine.store.newSerial.2 := .of_vars fun _ => rfl
  exact hserial.trans hkeeps

theorem closeMethods_ok (frame : FrameId) (rs : List (Routine (Stmt Distance)))
    (ms : Dict Closure) (m : Machine) : ∃ ms' serial, Machine.closeMethods frame rs ms m =
      .ok ms' { m with store := { m.store with serial } } := by
  induction rs generalizing ms m with
  | nil => exact ⟨ms, m.store.serial, rfl⟩
  | cons r rs ih => exact ih _ _

theorem finishClass_keeps {name : Token} (hbound : (m.store.vars here).has name.lexeme)
    (hx : ¬ name.lexeme.Reserved) (frame : FrameId) (superclass : Option Class)
    (methods : List (Routine (Stmt Distance))) :
    ∃ m', (do
        let methods ← Machine.closeMethods frame methods []
        let c := Class.mk (← Machine.newSerial) name.lexeme superclass methods
        let m ← get
        match m.store.assign? here name.lexeme (.klass c) with
        | some store => set { m with store }
        | none => throw (.fault (.undefinedVariable name)) : Eval Unit) m = .ok () m' ∧
      m.store.Keeps none m'.store := by
  obtain ⟨ms, serial, hms⟩ := closeMethods_ok frame methods [] m
  have hassign (s : Store) (hs : s.frames = m.store.frames) (v : Value) :
      s.assign? here name.lexeme v = some (s.define here name.lexeme v) := by
    have hhas : (s.vars here).has name.lexeme := by
      rw [Store.vars, hs]
      exact hbound
    rw [Store.assign?, Store.holder?_of_has hhas]
    rfl
  let c := Class.mk serial name.lexeme superclass ms
  let s : Store := { m.store with serial := serial + 1 }
  refine ⟨{ m with store := s.define here name.lexeme (.klass c) }, ?_, ?_⟩
  · change EStateM.bind _ _ m = _
    unfold EStateM.bind
    rw [hms]
    change (match s.assign? here name.lexeme (.klass c) with
      | some store => set { m with store }
      | none => throw (.fault (.undefinedVariable name)) : Eval Unit) { m with store := s } = _
    rw [hassign s rfl]
    rfl
  · have hserial : m.store.Keeps none s := .of_vars fun _ => rfl
    exact hserial.trans (Store.Keeps.rebind (s := s) hbound hx _)

/-- A class is made without fail. Beyond its name it binds at most `super`, in a frame of its own. -/
theorem declareClass_ok {name : Token} {Δ : Display} (hw : w.Fits T k) (hs : w.Stands Δ none)
    (hx : ¬ name.lexeme.Reserved) (superclass : Option Class)
    (methods : List (Routine (Stmt Distance))) :
    ∃ m, Machine.declareClass name superclass methods w.machine = .ok () m ∧
      w.machine.store.Keeps (Δ.global? (some name.lexeme)) m.store ∧
      ∀ c ∈ superclass,
        (m.store.vars w.machine.store.frames.size).get? "super" = some (.klass c) := by
  have hnil := hs.keeps hw hx .nil
  have hhas := has_define_self (x := name.lexeme) hw hs .nil
  let s := w.machine.store.define w.machine.current name.lexeme .nil
  cases superclass with
  | none =>
    obtain ⟨m, hm, hkeeps⟩ := finishClass_keeps (m := { w.machine with store := s }) hhas hx
      w.machine.current none methods
    exact ⟨m, hm, hnil.then hkeeps, nofun⟩
  | some c =>
    have hsame : s.frames.size = w.machine.store.frames.size := Store.size_define _ _ _ _
    have hsize : Machine.globals < s.frames.size := hsame ▸ hw.size
    have hscope := Store.Keeps.scope hsize (some w.machine.current) "super" (.klass c)
    have hgrows := (Store.Grows.newFrame s (some w.machine.current)).trans
      (.define _ s.frames.size "super" (.klass c))
    obtain ⟨m, hm, hkeeps⟩ := finishClass_keeps
      (m := { w.machine with store :=
        (s.newFrame (some w.machine.current)).2.define s.frames.size "super" (.klass c) })
      (hgrows.bound _ _ hhas) hx s.frames.size (some c) methods
    refine ⟨m, hm, hnil.then (hscope.trans hkeeps), fun d hd => ?_⟩
    cases hd
    refine hkeeps.reserved _ _ _ (.inr rfl) ?_
    rw [← hsame]
    exact Store.get?_newFrame_define _ _ _ _

theorem declareClass_leaves {name : Token} {Δ : Display} (hw : w.Fits T k)
    (hs : w.Stands Δ none) (hx : ¬ name.lexeme.Reserved) (superclass : Option Class)
    (methods : List (Routine (Stmt Distance))) (Δ' : Display) :
    Leaves (Δ.global? (some name.lexeme)) (declareClass name superclass methods Δ') w := by
  obtain ⟨m, hm, hkeeps, -⟩ := declareClass_ok hw hs hx superclass methods
  apply Leaves.get
  refine .step rfl (.refl _) ?_
  unfold Leaves lift
  dsimp only
  rw [hm]
  exact hkeeps

end Watched

end LoxLang
