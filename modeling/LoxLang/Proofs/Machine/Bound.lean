import LoxLang.Proofs.Machine.Context

namespace LoxLang
set_option autoImplicit true

/-- The two machines are the same, the origins of functions fit the activations they were made in, and
all that was noted is sound. -/
structure Anchored.Tied (w : Watched) (a : Anchored) : Prop where
  machine : a.machine = w.machine
  origins : ∀ n < w.machine.store.serial, (a.origins n).Fits w.machine.store (w.homes n)
  sights : ∀ v ∈ a.sights, v.Sound

namespace Anchored

def at_ (a : Anchored) (f : FrameId) : Anchored :=
  { a with machine := { a.machine with current := f } }

def opened (a : Anchored) (o : Origin) : Anchored :=
  { a with origins := fun n => if a.machine.store.serial ≤ n then o else a.origins n }

variable {T : Token → Prop} {host : Host} {w w' : Watched} {a a' : Anchored}

theorem Tied.at_ (h : Tied w a) (f : FrameId) : Tied (w.at_ f) (a.at_ f) :=
  ⟨congrArg (fun m : Machine => { m with current := f }) h.machine, h.origins, h.sights⟩

/-- The machine makes a step while functions are made in these activations and have this origin. -/
theorem Tied.opened (h : Tied w a) (hk : w.machine.store.Keeps new m.store)
    (hnew : ∀ n, w.machine.store.serial ≤ n → n < m.store.serial → o.Fits m.store Δ) :
    Tied { w.opened Δ with machine := m } { a.opened o with machine := m } := by
  refine ⟨rfl, fun n hn => ?_, h.sights⟩
  have hs : a.machine.store.serial = w.machine.store.serial :=
    congrArg (fun m : Machine => m.store.serial) h.machine
  dsimp only [Watched.opened, Anchored.opened]
  rw [hs]
  split
  · rename_i hle
    exact hnew n hle hn
  · rename_i hlt
    exact (h.origins n (Nat.lt_of_not_le hlt)).keeps hk

theorem Tied.step (h : Tied w a) (hk : w.machine.store.Keeps new m.store)
    (hs : m.store.serial = w.machine.store.serial) :
    Tied { w with machine := m } { a with machine := m } :=
  ⟨rfl, fun n hn => (h.origins n (hs ▸ hn)).keeps hk, h.sights⟩

/-- Steps of the two machines end alike. -/
def Agree (P : Watch α) (Q : Anchor α) (w : Watched) (a : Anchored) : Prop :=
  match P w with
  | .ok x w' => ∃ a', Q a = .ok x a' ∧ Tied w' a'
  | .error e w' => ∃ a', Q a = .error e a' ∧ Tied w' a'

theorem Agree.pure (h : Tied w a) (x : α) : Agree (Pure.pure x) (Pure.pure x) w a := ⟨a, rfl, h⟩

theorem Agree.throw (h : Tied w a) (e : Stop) :
    Agree (α := α) (MonadExcept.throw e) (MonadExcept.throw e) w a := ⟨a, rfl, h⟩

/-- A step of the watched machine that runs and leaves names alone, and one that agrees with it. -/
structure Follows (T : Token → Prop) (host : Host) (P : Watch α) (Q : Anchor α)
    (R : α → Watched → Prop) (new : Option Text) (w : Watched) (a : Anchored) : Prop where
  runs : Watched.Runs T host P R w
  leaves : Watched.Leaves new P w
  agree : Agree P Q w a

structure Next (T : Token → Prop) (host : Host) (new : Option Text) (w w' : Watched)
    (a' : Anchored) : Prop where
  after : Watched.After T host.natives.length w w'
  keeps : w.machine.store.Keeps new w'.machine.store
  tied : Tied w' a'

theorem Follows.bind {P : Watch α} {Q : Anchor α} {F : α → Watch β} {G : α → Anchor β}
    (h : Follows T host P Q R new w a)
    (hF : ∀ x w' a', Next T host new w w' a' → R x w' → Agree (F x) (G x) w' a') :
    Agree (P >>= F) (Q >>= G) w a := by
  obtain ⟨hr, hl, h⟩ := h
  unfold Watched.Runs at hr
  unfold Watched.Leaves at hl
  unfold Agree at h
  change Agree (EStateM.bind P F) (EStateM.bind Q G) w a
  unfold Agree EStateM.bind
  cases hp : P w with
  | error e w' =>
    rw [hp] at h
    obtain ⟨a', hq, ht⟩ := h
    dsimp only
    rw [hq]
    exact ⟨a', rfl, ht⟩
  | ok x w' =>
    rw [hp] at h hr hl
    obtain ⟨a', hq, ht⟩ := h
    have hrest := hF x w' a' ⟨hr.1, hl, ht⟩ hr.2
    unfold Agree at hrest
    dsimp only
    rw [hq]
    exact hrest

theorem Agree.map {P : Watch α} {Q : Anchor α} (h : Agree P Q w a) (f : α → β) :
    Agree (P >>= fun x => Pure.pure (f x)) (Q >>= fun x => Pure.pure (f x)) w a := by
  unfold Agree at h
  change Agree (EStateM.bind P fun x => Pure.pure (f x)) (EStateM.bind Q fun x => Pure.pure (f x)) w a
  unfold Agree EStateM.bind
  cases hp : P w with
  | error e w' =>
    rw [hp] at h
    obtain ⟨a', hq, ht⟩ := h
    dsimp only
    rw [hq]
    exact ⟨a', rfl, ht⟩
  | ok x w' =>
    rw [hp] at h
    obtain ⟨a', hq, ht⟩ := h
    dsimp only
    rw [hq]
    exact ⟨a', rfl, ht⟩

theorem Agree.step {P : Watch α} {Q : Anchor α} {F : α → Watch β} {G : α → Anchor β}
    (hp : P w = .ok x w') (hq : Q a = .ok x a') (h : Agree (F x) (G x) w' a') :
    Agree (P >>= F) (Q >>= G) w a := by
  unfold Agree at h
  change Agree (EStateM.bind P F) (EStateM.bind Q G) w a
  unfold Agree EStateM.bind
  rw [hp, hq]
  exact h

theorem Agree.get {F : Watched → Watch α} {G : Anchored → Anchor α} (h : Agree (F w) (G a) w a) :
    Agree (MonadState.get >>= F) (MonadState.get >>= G) w a := h

theorem Agree.ite {c : Prop} [Decidable c] {P P' : Watch α} {Q Q' : Anchor α}
    (h : Agree P Q w a) (h' : Agree P' Q' w a) :
    Agree (if c then P else P') (if c then Q else Q') w a := by
  split
  · exact h
  · exact h'

theorem Agree.attempt {P : Watch α} {Q : Anchor α} (h : Agree P Q w a) :
    Agree (Native.attempt P) (Native.attempt Q) w a := by
  unfold Agree at h ⊢
  unfold Native.attempt
  cases hp : P w with
  | ok x w' =>
    rw [hp] at h
    obtain ⟨a', hq, ht⟩ := h
    rw [hq]
    exact ⟨a', rfl, ht⟩
  | error e w' =>
    rw [hp] at h
    obtain ⟨a', hq, ht⟩ := h
    rw [hq]
    dsimp only
    cases e.isFatal with
    | true => exact ⟨a', rfl, ht⟩
    | false => exact ⟨a', rfl, ht⟩

theorem Agree.visit {F : Unit → Watch α} {Q : Anchor α} (ht : Tied w a)
    (h : ∀ w', w'.machine = w.machine → w'.homes = w.homes → Tied w' a → Agree (F ()) Q w' a) :
    Agree (Watched.visit use name mark Δ frame >>= F) Q w a :=
  h { w with visits := w.visits ++ [⟨use, name, mark, Δ, frame, w.machine.store⟩] } rfl rfl
    ⟨ht.machine, ht.origins, ht.sights⟩

theorem Agree.refer {F : Unit → Watch α} {Q : Anchor α} (ht : Tied w a)
    (h : ∀ w', w'.machine = w.machine → w'.homes = w.homes → Tied w' a → Agree (F ()) Q w' a) :
    Agree (Watched.refer use ref Δ >>= F) Q w a := .visit ht h

theorem Agree.within {P : Watch α} {Q : Anchor α} (ht : Tied w a)
    (h : Agree P Q (w.at_ f) (a.at_ f)) :
    Agree (Watched.within f P) (Anchored.within f Q) w a := by
  have hcurrent : a.machine.current = w.machine.current := congrArg Machine.current ht.machine
  unfold Agree at h ⊢
  unfold Watched.within Anchored.within
  unfold Watched.at_ Anchored.at_ at h
  cases hp : P { w with machine := { w.machine with current := f } } with
  | ok x w' =>
    rw [hp] at h
    obtain ⟨a', hq, ht'⟩ := h
    rw [hq, hcurrent]
    exact ⟨_, rfl, ht'.at_ _⟩
  | error e w' =>
    rw [hp] at h
    obtain ⟨a', hq, ht'⟩ := h
    rw [hq, hcurrent]
    exact ⟨_, rfl, ht'.at_ _⟩

end Anchored

namespace Machine

def Barren (step : Eval α) : Prop := ∀ m, match step m with
  | .ok _ m' | .error _ m' => m'.store.serial = m.store.serial

theorem Quiet.barren {step : Eval α} (h : Quiet step) : Barren step := by
  intro m
  have hm := h m
  cases hs : step m with
  | ok x m' =>
    rw [hs] at hm
    exact congrArg Store.serial hm
  | error e m' =>
    rw [hs] at hm
    exact congrArg Store.serial hm

theorem Barren.get {F : Machine → Eval α}
    (h : ∀ m, match F m m with | .ok _ m' | .error _ m' => m'.store.serial = m.store.serial) :
    Barren (MonadState.get >>= F) := h

theorem assign_barren (name : Token) (d : Distance) (v : Value) : Barren (assign name d v) := by
  apply Barren.get
  intro m
  cases d with
  | some n =>
    dsimp only
    cases h : m.store.assignAt? m.current n name.lexeme v with
    | none => rfl
    | some s =>
      obtain ⟨g, -, rfl⟩ := Option.map_eq_some_iff.1 h
      rfl
  | none =>
    dsimp only
    cases h : m.store.assign? globals name.lexeme v with
    | none => rfl
    | some s =>
      obtain ⟨g, -, rfl⟩ := Option.map_eq_some_iff.1 h
      rfl

theorem bindParams_barren (f : FrameId) (ps : List Token) (vs : List Value) :
    Barren (bindParams f ps vs) := by
  induction ps generalizing vs with
  | nil => exact fun _ => rfl
  | cons p ps ih =>
    cases vs with
    | nil => exact fun _ => rfl
    | cons v vs =>
      intro m
      exact ih vs { m with store := m.store.define f p.lexeme v }

theorem serve_barren (host : Host) (q : Native.Request) : Barren (serve host q) := by
  intro m
  cases q <;> rfl

theorem get_bind {σ ε : Type} (F : σ → EStateM ε σ α) (s : σ) : (get >>= F) s = F s s := rfl

theorem lookUp_ok {m : Machine} {name : Token} {k : Nat}
    (h : m.store.getAt? m.current k name.lexeme = some v) :
    lookUp name (some k) m = .ok v m := by
  rw [lookUp, get_bind]
  dsimp only
  rw [h]
  rfl

end Machine

namespace Watched

variable {T : Token → Prop} {w w' : Watched}

theorem Fits.seated (hw : w.Fits T k) {f : Closure} (hf : f.Fits T w) :
    f.Seated w.machine.store := by
  intro hi
  obtain ⟨b, Δ, hhome, hthis⟩ := hf.receiver hi
  have hfilled := hf.filled 0 b (by rw [hhome]; rfl) "this" hthis fun _ => by simp
  have hchain := hf.chain
  rw [hhome] at hchain
  obtain ⟨hframe, p, hp, -⟩ := hchain
  obtain ⟨v, hv⟩ := Option.isSome_iff_exists.1 hfilled
  have hne : b.frame ≠ Machine.globals := by
    intro he
    rw [hframe, he, hw.root] at hp
    cases hp
  obtain ⟨id, c, rfl⟩ := hw.receivers _ _ hne hv
  exact ⟨id, c, hframe ▸ hv⟩

theorem Fits.held (hw : w.Fits T k) {f : Closure} (h : w.machine.store.Holds (.function f)) :
    f.Seated w.machine.store := by
  rcases h with ⟨g, x, hx⟩ | ⟨id, x, hx⟩
  · exact hw.seated (hw.vars g x _ hx)
  · exact hw.seated (hw.fields id x _ hx)

theorem Stands.frame? {Δ : Display} {p : Option Text} (hs : w.Stands Δ p) (hg : Δ.frame? d = some g) :
    w.machine.store.ancestor? w.machine.current d = some g := by
  obtain ⟨b, hb, rfl⟩ := Option.map_eq_some_iff.1 hg
  exact (hs.chain.ancestor? hb).1

theorem bindMethod_boundTo (w : Watched) (m : Closure) (v : Value) : ∃ f w',
    bindMethod m v w = .ok f w' ∧ m.BoundTo w'.machine.store v f := by
  refine ⟨_, _, rfl, rfl, rfl, ?_, ?_⟩
  · exact (Store.parent?_define _ _ _ _ _).trans (Store.parent?_newFrame_self _ _)
  · exact Store.get?_newFrame_define _ _ _ _

theorem superMethod_eq {id : Nat} (hthis : w.machine.Binds k "this" (.object id c))
    (hsuper : w.machine.Binds (k + 1) "super" (.klass parent)) (name : Token) :
    superMethod (some (k + 1)) name w =
      match parent.nearest? name.lexeme with
      | some m => (bindMethod m (.object id c) >>= fun f => pure (Value.function f)) w
      | none => .error (.fault (.undefinedProperty name))
        (w.opened (w.methodHome parent name.lexeme)) := by
  have hhome : w.superHome (some (k + 1)) name.lexeme = w.methodHome parent name.lexeme := by
    rw [superHome, Option.getD_some, hsuper.getAt?]
  change lift (Machine.superMethod (some (k + 1)) name)
    (w.opened (w.superHome (some (k + 1)) name.lexeme)) = _
  have hmethod : Machine.superMethod (some (k + 1)) name w.machine =
      (parent.findMethod name.lexeme).elim
        (throw (.fault (.undefinedProperty name)) : Eval Value)
        (fun f => Value.function <$> Machine.bindMethod f (.object id c)) w.machine := by
    rw [Machine.superMethod, Machine.get_bind]
    simp only [Option.getD_some, Nat.add_sub_cancel, hsuper.getAt?, hthis.getAt?]
    cases parent.findMethod name.lexeme <;> rfl
  unfold lift
  dsimp only [opened]
  rw [hmethod, hhome, methodHome, Class.findMethod_eq]
  cases parent.nearest? name.lexeme <;> rfl

end Watched

namespace Anchored

variable {T : Token → Prop} {host : Host} {w w' : Watched} {a a' : Anchored}

theorem Agree.lift {step : Eval α} (ht : Tied w a) (hl : Watched.Leaves new (Watched.lift step) w)
    (hb : Machine.Barren step) : Agree (Watched.lift step) (Anchored.lift step) w a := by
  have hm := hb w.machine
  unfold Watched.Leaves Watched.lift at hl
  unfold Agree Watched.lift Anchored.lift
  rw [ht.machine]
  cases hs : step w.machine with
  | ok x m =>
    rw [hs] at hl hm
    exact ⟨_, rfl, ht.step hl hm⟩
  | error e m =>
    rw [hs] at hl hm
    exact ⟨_, rfl, ht.step hl hm⟩

theorem Agree.quiet {step : Eval α} (ht : Tied w a) (h : Machine.Quiet step) :
    Agree (Watched.lift step) (Anchored.lift step) w a := .lift ht (.quiet h) h.barren

theorem Agree.stop {e : Stop} (ht : Tied w a) :
    Agree (α := α) (Watched.lift (MonadExcept.throw e)) (Anchored.lift (MonadExcept.throw e)) w a :=
  .quiet ht (.throw e)

theorem Agree.opened {step : Eval α} {o : Origin} {Δ : Display} (ht : Tied w a)
    (hl : Watched.Leaves new (Watched.lift step) w)
    (hnew : ∀ m, (∃ x, step w.machine = .ok x m) ∨ (∃ e, step w.machine = .error e m) →
      ∀ n, w.machine.store.serial ≤ n → n < m.store.serial → o.Fits m.store Δ) :
    Agree (Watched.open_ Δ >>= fun _ => Watched.lift step)
      (Anchored.open_ o >>= fun _ => Anchored.lift step) w a := by
  unfold Watched.Leaves Watched.lift at hl
  obtain ⟨m₀, origins, sights⟩ := a
  obtain rfl : m₀ = w.machine := ht.machine
  change match Watched.lift step (w.opened Δ) with
    | .ok x w' => ∃ a', Anchored.lift step (opened ⟨w.machine, origins, sights⟩ o) = .ok x a' ∧
      Tied w' a'
    | .error e w' => ∃ a', Anchored.lift step (opened ⟨w.machine, origins, sights⟩ o) = .error e a' ∧
      Tied w' a'
  unfold Watched.lift Anchored.lift
  dsimp only [Watched.opened, Anchored.opened]
  cases hs : step w.machine with
  | ok x m =>
    rw [hs] at hl
    exact ⟨_, rfl, ht.opened hl (hnew m (.inl ⟨x, hs⟩))⟩
  | error e m =>
    rw [hs] at hl
    exact ⟨_, rfl, ht.opened hl (hnew m (.inr ⟨e, hs⟩))⟩

theorem Tied.watching (ht : Tied w a) (Δ : Display) : Tied (w.opened Δ) a := by
  refine ⟨ht.machine, fun n hn => ?_, ht.sights⟩
  rw [(Watched.Grows.opened w Δ).homes n hn]
  exact ht.origins n hn

theorem Agree.of_eq {P P' : Watch α} {Q Q' : Anchor α} (hp : P w = P' w) (hq : Q a = Q' a)
    (h : Agree P' Q' w a) : Agree P Q w a := by
  unfold Agree at h ⊢
  rw [hp, hq]
  exact h

theorem bindMethod_agrees (ht : Tied w a)
    (hsize : Machine.globals < w.machine.store.frames.size) (hm : m.FitsMethod T w) (id : Nat)
    (c : Class) :
    Agree (Watched.bindMethod m (.object id c)) (bindMethod m id c) w a := by
  apply Agree.get
  have hkeeps := Watched.bindMethod_keeps hsize m (.object id c)
  refine .opened ht hkeeps fun m' hm' n _ _ => ?_
  rcases hm' with ⟨f, hf⟩ | ⟨e, he⟩
  · cases hf
    exact .bound ((ht.origins m.serial hm.serial).keeps hkeeps) (Store.get?_newFrame_define _ _ _ _)
  · cases he

theorem property_agrees (ht : Tied w a) (hw : w.Fits T k) (hc : c.Fits T w) (id : Nat)
    (name : Token) : Agree (Watched.property id c name) (property id c name) w a := by
  have hfields : a.machine.store.fields id = w.machine.store.fields id :=
    congrArg (fun m : Machine => m.store.fields id) ht.machine
  cases hv : (w.machine.store.fields id).get? name.lexeme with
  | some v =>
    have hproperty : property id c name a = (pure v : Anchor Value) a := by
      rw [property, Machine.get_bind, hfields, hv]
    unfold Agree
    rw [Watched.property_eq, hproperty, hv]
    exact ⟨a, rfl, ht.watching _⟩
  | none =>
    cases hm : c.nearest? name.lexeme with
    | none =>
      have hproperty : property id c name a =
          Anchored.lift (throw (.fault (.undefinedProperty name))) a := by
        rw [property, Machine.get_bind, hfields, hv, hm]
      unfold Agree
      rw [Watched.property_eq, hproperty, hv, Class.findMethod_eq, hm]
      exact ⟨a, rfl, ht.watching _⟩
    | some m =>
      have hproperty : property id c name a =
          (bindMethod m id c >>= fun f => pure (Value.function f)) a := by
        rw [property, Machine.get_bind, hfields, hv, hm]
      have hfits := hc.findMethod ((c.findMethod_eq name.lexeme).trans hm)
      refine .of_eq ?_ hproperty ((bindMethod_agrees ht hw.size hfits id c).map Value.function)
      rw [Watched.property_eq, hv, Class.findMethod_eq, hm]

theorem superMethod_agrees {ctx : Context} {id : Nat} (ht : Tied w a)
    (hsize : Machine.globals < w.machine.store.frames.size) (hp : parent.Fits T w)
    (hreceiver : ctx.receiver = some (id, c)) (hparent : ctx.parent = some parent)
    (hthis : w.machine.Binds k "this" (.object id c))
    (hsuper : w.machine.Binds (k + 1) "super" (.klass parent)) (name : Token) :
    Agree (Watched.superMethod (some (k + 1)) name) (superMethod ctx name) w a := by
  have hmethod : superMethod ctx name = match parent.nearest? name.lexeme with
      | some m => bindMethod m id c >>= fun f => pure (.function f)
      | none => Anchored.lift (throw (.fault (.undefinedProperty name))) := by
    obtain ⟨receiver, superclass⟩ := ctx
    obtain rfl : receiver = some (id, c) := hreceiver
    obtain rfl : superclass = some parent := hparent
    rfl
  cases hm : parent.nearest? name.lexeme with
  | none =>
    unfold Agree
    rw [Watched.superMethod_eq hthis hsuper, hmethod, hm]
    exact ⟨a, rfl, ht.watching _⟩
  | some m =>
    have hmfits := hp.findMethod ((parent.findMethod_eq name.lexeme).trans hm)
    refine .of_eq ?_ ?_ ((bindMethod_agrees ht hsize hmfits id c).map Value.function)
    · rw [Watched.superMethod_eq hthis hsuper, hm]
    · rw [hmethod, hm]

theorem declareClass_agrees {ctx : Context} {name : Token} {Δ : Display} (ht : Tied w a)
    (hw : w.Fits T k) (hs : w.Stands Δ none) (hc : ctx.Fits w.machine.store Δ) (hΔ : Δ.Inner)
    (hx : ¬ name.lexeme.Reserved) (superclass : Option Class)
    (methods : List (Routine (Stmt Distance))) :
    Agree (Watched.declareClass name superclass methods (Δ.declare name.lexeme))
      (declareClass name superclass methods ctx) w a := by
  obtain ⟨m, hm, hkeeps, hsuper⟩ := Watched.declareClass_ok hw hs hx superclass methods
  have hctx : ctx.Fits m.store (Δ.declare name.lexeme) := (hc.declare hx).keeps hkeeps
  have hleaves : Watched.Leaves (Δ.global? (some name.lexeme))
      (Watched.lift (Machine.declareClass name superclass methods)) w := by
    unfold Watched.Leaves Watched.lift
    rw [hm]
    exact hkeeps
  change Agree (Watched.open_ (w.classHome superclass (Δ.declare name.lexeme)) >>= fun _ =>
    Watched.lift (Machine.declareClass name superclass methods)) _ w a
  refine .opened ht hleaves fun m' hm' n _ _ => ?_
  rw [hm] at hm'
  rcases hm' with ⟨_, hm'⟩ | ⟨_, hm'⟩
  · cases hm'
    cases superclass with
    | none => exact .function hctx (hΔ.declare hx)
    | some c => exact .method hctx (hsuper c rfl)
  · cases hm'

theorem declareFunction_agrees {ctx : Context} {r : Routine (Stmt Distance)} {Δ : Display}
    (ht : Tied w a) (hw : w.Fits T k) (hs : w.Stands Δ none) (hc : ctx.Fits w.machine.store Δ)
    (hΔ : Δ.Inner) (hx : ¬ r.name.lexeme.Reserved) :
    Agree (Watched.declareFunction r (Δ.declare r.name.lexeme)) (declareFunction r ctx) w a := by
  obtain ⟨m, origins, sights⟩ := a
  obtain rfl : m = w.machine := ht.machine
  have hleaves := Watched.declareFunction_leaves hw hs hx (Δ.declare r.name.lexeme)
  exact ⟨_, rfl, ht.opened hleaves fun n _ _ =>
    .function ((hc.declare hx).keeps hleaves) (hΔ.declare hx)⟩

end Anchored

end LoxLang
