import LoxLang.Proofs.Machine.Steps

namespace LoxLang
set_option autoImplicit true

namespace Watched

variable {T : Token → Prop} {host : Host} {w w' : Watched}

def opened (w : Watched) (Δ : Display) : Watched :=
  { w with homes := fun n => if w.machine.store.serial ≤ n then Δ else w.homes n }

theorem opened_homes (w : Watched) (Δ : Display) (h : w.machine.store.serial ≤ n) :
    (w.opened Δ).homes n = Δ := if_pos h

theorem Grows.opened (w : Watched) (Δ : Display) : Grows w (w.opened Δ) :=
  ⟨.refl _, fun _ hn => if_neg (Nat.not_le.2 hn)⟩

theorem After.opened (hw : w.Fits T k) (Δ : Display) : After T k w (w.opened Δ) :=
  ⟨hw.of_store (.opened w Δ) rfl hw.visits, .opened w Δ, rfl⟩

theorem Runs.open_ {F : Unit → Watch α} {Δ : Display} (hw : w.Fits T host.natives.length)
    (h : Runs T host (F ()) R (w.opened Δ)) : Runs T host (Watched.open_ Δ >>= F) R w :=
  .step rfl (.opened hw Δ) h

theorem After.newFrame (hw : w.Fits T k) (p : Option FrameId) :
    After T k w (w.withStore (w.machine.store.newFrame p).2) :=
  ⟨hw.newFrame p, .withStore (.newFrame _ p), rfl⟩

theorem After.newSerial (hw : w.Fits T k) :
    After T k w (w.withStore w.machine.store.newSerial.2) :=
  ⟨hw.newSerial, .withStore (.newSerial _), rfl⟩

theorem After.bind {x : Text} (hw : w.Fits T k) (hv : v.Fits T k w)
    (hthis : f ≠ Machine.globals → x = "this" → ∃ id c, v = .object id c) :
    After T k w (w.withStore (w.machine.store.define f x v)) :=
  .define hw (hv.grows (.withStore (.define _ _ _ _))) hthis

theorem Runs.newFrame {F : FrameId → Eval α} {p : FrameId} (hw : w.Fits T host.natives.length)
    (h : Runs T host (lift (F w.machine.store.frames.size)) R
      (w.withStore (w.machine.store.newFrame (some p)).2)) :
    Runs T host (lift (Machine.newFrame p >>= F)) R w := by
  rw [lift_bind]
  exact .step rfl (.newFrame hw _) h

theorem Runs.newSerial {F : Nat → Eval α} (hw : w.Fits T host.natives.length)
    (h : Runs T host (lift (F w.machine.store.serial)) R
      (w.withStore w.machine.store.newSerial.2)) :
    Runs T host (lift (Machine.newSerial >>= F)) R w := by
  rw [lift_bind]
  exact .step rfl (.newSerial hw) h

theorem Runs.close {F : Closure → Eval α} {r : Routine (Stmt Distance)} {isInitializer : Bool}
    (hw : w.Fits T host.natives.length)
    (h : Runs T host (lift (F ⟨w.machine.store.serial, r, frame, isInitializer⟩)) R
      (w.withStore w.machine.store.newSerial.2)) :
    Runs T host (lift (Machine.close r frame isInitializer >>= F)) R w := by
  rw [lift_bind]
  exact .step rfl (.newSerial hw) h

theorem Runs.bindVariable {F : Unit → Eval α} {f : FrameId} {x : Text}
    (hw : After T host.natives.length w (w.withStore (w.machine.store.define f x v)))
    (h : Runs T host (lift (F ())) R (w.withStore (w.machine.store.define f x v))) :
    Runs T host (lift (Machine.bindVariable f x v >>= F)) R w := by
  rw [lift_bind]
  exact .step rfl hw h

structure Opens (w : Watched) (Δ : Display) (frame : FrameId) : Prop where
  homes : ∀ n, w.machine.store.serial ≤ n → w.homes n = Δ
  chain : Δ.Chain w.machine.store frame
  filled : Δ.Filled w.machine.store none

theorem Opens.after (h : w.Opens Δ frame) (hg : w.Grows w') (hh : w'.homes = w.homes) :
    w'.Opens Δ frame where
  homes n hn := hh ▸ h.homes n (Nat.le_trans hg.store.serial hn)
  chain := h.chain.grows hg.store
  filled := h.filled.grows hg.store

theorem Opens.placed (h : w.Opens Δ frame) (routine : Routine (Stmt Distance))
    (isInitializer : Bool) :
    Closure.Placed (w.withStore w.machine.store.newSerial.2)
      ⟨w.machine.store.serial, routine, frame, isInitializer⟩ := by
  have hhome : w.homes w.machine.store.serial = Δ := h.homes _ (Nat.le_refl _)
  refine ⟨Nat.lt_succ_self _, ?_, ?_⟩
  · change Display.Chain _ (w.homes w.machine.store.serial) frame
    rw [hhome]
    exact h.chain.grows (.newSerial _)
  · change Display.Filled _ none (w.homes w.machine.store.serial)
    rw [hhome]
    exact h.filled.grows (.newSerial _)

theorem Runs.scope {F : FrameId → Eval α} {Δ : Display} {x : Text}
    (hw : w.Fits T host.natives.length) (hchain : Δ.Chain w.machine.store p)
    (hfilled : Δ.Filled w.machine.store none)
    (hhomes : ∀ n, w.machine.store.serial ≤ n →
      w.homes n = ⟨w.machine.store.frames.size, [x]⟩ :: Δ)
    (hv : v.Fits T host.natives.length w) (hthis : x = "this" → ∃ id c, v = .object id c)
    (h : ∀ w', After T host.natives.length w w' →
      w'.Opens (⟨w.machine.store.frames.size, [x]⟩ :: Δ) w.machine.store.frames.size →
      Runs T host (lift (F w.machine.store.frames.size)) R w') :
    Runs T host (lift (do
      let f ← Machine.newFrame p
      Machine.bindVariable f x v
      F f)) R w := by
  have h₁ := After.newFrame hw (some p)
  have h₂ := After.bind (f := w.machine.store.frames.size) h₁.fits (hv.grows h₁.grows)
    fun _ => hthis
  have hgrows := (h₁.trans h₂).grows.store
  apply Runs.newFrame hw
  apply Runs.bindVariable h₂
  refine h _ (h₁.trans h₂) ⟨hhomes, .cons ?_ (hchain.grows hgrows) _,
    .cons (hfilled.grows hgrows) fun y hy => ?_⟩
  · exact (Store.parent?_define _ _ _ _ _).trans (Store.parent?_newFrame_self _ _)
  · rw [List.mem_singleton.1 hy]
    exact Store.has_newFrame_define _ _ x v

theorem bindMethod_runs (hw : w.Fits T host.natives.length) (hm : m.FitsMethod T w)
    (hhomes : ∀ n, w.machine.store.serial ≤ n → w.homes n = w.receiver m) (hc : c.Fits T w)
    (id : Nat) :
    Runs T host (lift (Machine.bindMethod m (.object id c)))
      (fun f w' => f.Fits T w' ∧ f.arity = m.arity) w := by
  refine Runs.scope (x := "this") hw hm.chain hm.filled hhomes hc (fun _ => ⟨id, c, rfl⟩)
    fun w₁ h₁ ho => ⟨.newSerial h₁.fits, ⟨ho.placed m.routine m.isInitializer, ?_, fun _ => ?_⟩, rfl⟩
  · change m.routine.Scoped T (Display.scopes (w₁.homes w₁.machine.store.serial))
    rw [ho.homes _ (Nat.le_refl _)]
    exact hm.resolved
  · exact ⟨_, _, ho.homes _ (Nat.le_refl _), List.mem_singleton_self _⟩

theorem receiver_opened (hm : m.FitsMethod T w) (Δ : Display) :
    (w.opened Δ).receiver m = w.receiver m := by
  have hhome := (Grows.opened w Δ).homes _ hm.serial
  rw [receiver, hhome]
  rfl

theorem bindMethod_fits (hw : w.Fits T host.natives.length) (hm : m.FitsMethod T w)
    (hc : c.Fits T w) (id : Nat) :
    Runs T host (bindMethod m (.object id c)) (fun f w' => f.Fits T w' ∧ f.arity = m.arity) w := by
  apply Runs.get
  apply Runs.open_ hw
  refine bindMethod_runs (After.opened hw _).fits (hm.grows (.opened w _)) (fun n hn => ?_)
    (hc.grows (.opened w _)) id
  rw [receiver_opened hm]
  exact opened_homes w _ hn

theorem property_eq (w : Watched) (id : Nat) (c : Class) (name : Token) :
    property id c name w =
      match (w.machine.store.fields id).get? name.lexeme with
      | some v => .ok v (w.opened (w.methodHome c name.lexeme))
      | none =>
        match c.findMethod name.lexeme with
        | some m => (bindMethod m (.object id c) >>= fun f => pure (Value.function f)) w
        | none =>
          .error (.fault (.undefinedProperty name)) (w.opened (w.methodHome c name.lexeme)) := by
  change lift (Machine.property id c name) (w.opened (w.methodHome c name.lexeme)) = _
  have hproperty (m : Machine) : Machine.property id c name m =
      (match (m.store.fields id).get? name.lexeme with
      | some v => pure v
      | none =>
        match c.findMethod name.lexeme with
        | some method => Value.function <$> Machine.bindMethod method (.object id c)
        | none => throw (.fault (.undefinedProperty name)) : Eval Value) m := rfl
  unfold lift
  rw [hproperty, methodHome]
  dsimp only [opened]
  cases (w.machine.store.fields id).get? name.lexeme with
  | some v => rfl
  | none => cases c.findMethod name.lexeme <;> rfl

theorem property_ends (hw : w.Fits T host.natives.length) (hc : c.Fits T w) (name : Token)
    (id : Nat) : match property id c name w with
      | .ok v w' => After T host.natives.length w w' ∧ v.Fits T host.natives.length w'
      | .error e w' =>
        After T host.natives.length w w' ∧ e = .fault (.undefinedProperty name) := by
  have hopened := After.opened hw (w.methodHome c name.lexeme)
  rw [property_eq]
  cases hfield : Dict.get? (w.machine.store.fields id) name.lexeme with
  | some v => exact ⟨hopened, hopened.fits.fields id _ v hfield⟩
  | none =>
    cases hfind : c.findMethod name.lexeme with
    | none => exact ⟨hopened, rfl⟩
    | some m =>
      have hbound := bindMethod_fits hw (hc.findMethod hfind) hc id
      exact ⟨hbound.1, hbound.2.1⟩

theorem property_fits (hw : w.Fits T host.natives.length) (hc : c.Fits T w) {name : Token}
    (hT : T name) (id : Nat) :
    Runs T host (property id c name) (fun v w' => v.Fits T host.natives.length w') w := by
  have h := property_ends hw hc name id
  unfold Runs
  cases hp : property id c name w with
  | ok v w' =>
    rw [hp] at h
    exact h
  | error e w' =>
    rw [hp] at h
    exact ⟨h.1, h.2 ▸ .fault hT⟩

theorem property_caught (hw : w.Fits T host.natives.length) (hc : c.Fits T w) (name : Token)
    (id : Nat) : Runs T host (Native.attempt (property id c name))
      (Caught T host.natives.length (· = .fault (.undefinedProperty name))) w := by
  have h := property_ends hw hc name id
  unfold Runs Native.attempt
  cases hp : property id c name w with
  | ok v w' =>
    rw [hp] at h
    exact ⟨h.1, .ok h.2⟩
  | error e w' =>
    rw [hp] at h
    obtain ⟨hafter, rfl⟩ := h
    exact ⟨hafter, .error rfl rfl⟩

theorem superMethod_fits (hw : w.Fits T host.natives.length) (hs : w.Stands Δ pending)
    {method : Token} (hT : T method) (hsuper : Δ.scopes.distance "super" = some (k + 1))
    (hthis : Δ.scopes.distance "this" = some k) :
    Runs T host (superMethod (some (k + 1)) method)
      (fun v w' => v.Fits T host.natives.length w') w := by
  obtain ⟨b, -, -, -, hframe, hbound⟩ := hs.find hsuper
  obtain ⟨parent, hparent⟩ := hbound fun h => by cases h
  obtain ⟨a, ha, -, -, hframe', hbound'⟩ := hs.find hthis
  obtain ⟨receiver, hreceiver⟩ := hbound' fun _ => hs.named.1
  obtain ⟨-, p, hp⟩ := hs.chain.ancestor? ha
  have hne : a.frame ≠ Machine.globals := by
    intro he
    rw [he, hw.root] at hp
    cases hp
  obtain ⟨id, c, rfl⟩ := hw.receivers _ _ hne hreceiver
  have hgetSuper : w.machine.store.getAt? w.machine.current (k + 1) "super" = some parent := by
    rw [Store.getAt?, hframe, Option.map_some, hparent]
    rfl
  have hgetThis : w.machine.store.getAt? w.machine.current k "this" = some (.object id c) := by
    rw [Store.getAt?, hframe', Option.map_some, hreceiver]
    rfl
  have hc : c.Fits T w := hw.vars _ _ _ hreceiver
  apply Runs.get
  apply Runs.open_ hw
  generalize hhome : w.superHome (some (k + 1)) method.lexeme = home
  have hopened := After.opened hw home
  rw [Machine.superMethod]
  apply Runs.lift_get
  have hgetSuper' : (w.opened home).machine.store.getAt? (w.opened home).machine.current
      ((some (k + 1)).getD 0) "super" = some parent := hgetSuper
  have hgetThis' : (w.opened home).machine.store.getAt? (w.opened home).machine.current
      ((some (k + 1)).getD 0 - 1) "this" = some (.object id c) := hgetThis
  dsimp only
  rw [hgetSuper', hgetThis']
  dsimp only
  cases parent with
  | klass d =>
    have hd : d.Fits T w := hw.vars _ _ _ hparent
    cases hfind : d.findMethod method.lexeme with
    | none =>
      dsimp only
      rw [hfind]
      exact ⟨.refl hopened.fits, .fault hT⟩
    | some m =>
      have hm := hd.findMethod hfind
      dsimp only
      rw [hfind]
      dsimp only
      rw [lift_bind]
      refine (bindMethod_runs hopened.fits (hm.grows hopened.grows) (fun n hn => ?_)
        (hc.grows hopened.grows) id).bind fun f w' hafter hf => .pure hafter.fits hf.1
      rw [receiver_opened hm]
      refine (opened_homes w _ hn).trans ?_
      rw [← hhome, superHome]
      have hgetSuper'' : w.machine.store.getAt? w.machine.current ((some (k + 1)).getD 0) "super" =
          some (.klass d) := hgetSuper
      rw [hgetSuper'']
      dsimp only
      rw [methodHome, hfind]
  | _ => exact ⟨.refl hopened.fits, .fault hT⟩

theorem closeMethods_runs {Δ : Display} {ms : Dict Closure} (hw : w.Fits T host.natives.length)
    (ho : w.Opens Δ frame) (hr : ∀ r ∈ rs, Routine.Scoped T (["this"] :: Δ.scopes) r)
    (hm : ∀ x m, ms.get? x = some m → m.FitsMethod T w) :
    Runs T host (lift (Machine.closeMethods frame rs ms))
      (fun ms' w' => ∀ x m, ms'.get? x = some m → m.FitsMethod T w') w := by
  induction rs generalizing w ms with
  | nil => exact ⟨.refl hw, hm⟩
  | cons r rs ih =>
    have hserial := After.newSerial hw
    rw [Machine.closeMethods]
    apply Runs.close hw
    refine ih hserial.fits (ho.after hserial.grows rfl)
      (fun r' hr' => hr r' (List.mem_cons_of_mem r hr')) fun x m hx => ?_
    by_cases hname : x = r.name.lexeme
    · rw [hname, Dict.get?_set_self] at hx
      cases hx
      refine ⟨ho.placed r _, ?_⟩
      change r.Scoped T (["this"] :: Display.scopes (w.homes w.machine.store.serial))
      rw [ho.homes _ (Nat.le_refl _)]
      exact hr r List.mem_cons_self
    · rw [Dict.get?_set_of_ne _ _ hname] at hx
      exact (hm x m hx).grows hserial.grows

theorem Stands.after (h : w.Stands Δ pending) (hw : After T k w w') : w'.Stands Δ pending :=
  h.grows hw.grows hw.current

theorem finishClass_runs {name : Token} {Δ home : Display} {superclass : Option Class}
    {methods : List (Routine (Stmt Distance))} (hw : w.Fits T host.natives.length)
    (hs : w.Stands Δ none) (ho : w.Opens home frame)
    (hr : ∀ r ∈ methods, Routine.Scoped T (["this"] :: home.scopes) r)
    (hsup : ∀ c ∈ superclass, c.Fits T w)
    (hhere : w.machine.current = here) (hbound : (w.machine.store.vars here).has name.lexeme)
    (hthis : name.lexeme ≠ "this") :
    Runs T host (lift (do
        let methods ← Machine.closeMethods frame methods []
        let c := Class.mk (← Machine.newSerial) name.lexeme superclass methods
        let m ← get
        match m.store.assign? here name.lexeme (.klass c) with
        | some store => set { m with store }
        | none => throw (.fault (.undefinedVariable name))))
      (fun _ w' => w'.Stands Δ none) w := by
  subst hhere
  rw [lift_bind]
  refine (closeMethods_runs hw ho hr fun x m hx => by cases hx).bind fun ms w₁ h₁ hms => ?_
  have h₂ := After.newSerial h₁.fits
  apply Runs.newSerial h₁.fits
  apply Runs.lift_get
  have hassign (v : Value) : (w₁.withStore w₁.machine.store.newSerial.2).machine.store.assign?
      w.machine.current name.lexeme v =
      some ((w₁.withStore w₁.machine.store.newSerial.2).machine.store.define
        w.machine.current name.lexeme v) := by
    rw [Store.assign?, Store.holder?_of_has ((h₁.trans h₂).grows.store.bound _ _ hbound)]
    rfl
  rw [hassign]
  have hclass : (Class.mk w₁.machine.store.serial name.lexeme superclass ms).Fits T
      (w₁.withStore w₁.machine.store.newSerial.2) :=
    .mk (fun x m hx => (hms x m hx).grows h₂.grows)
      fun c hc => (hsup c hc).grows (h₁.trans h₂).grows
  have h₃ := After.bind (f := w.machine.current)
    (v := .klass (Class.mk w₁.machine.store.serial name.lexeme superclass ms)) h₂.fits hclass
    fun _ hx => absurd hx hthis
  exact ⟨h₃, hs.after (h₁.trans (h₂.trans h₃))⟩

theorem Stands.define {x : Text} (h : w.Stands Δ none) (v : Value) :
    (w.withStore (w.machine.store.define w.machine.current x v)).Stands (Δ.declare x) none where
  chain := (h.chain.declare x).grows (.define _ _ _ _)
  filled := (h.filled.declare x).define (h.chain.declare x) v
  named := ⟨by simp, by simp⟩

theorem has_define_self {x : Text} (hw : w.Fits T k) (hs : w.Stands Δ none) (v : Value) :
    ((w.machine.store.define w.machine.current x v).vars w.machine.current).has x := by
  have hsize : w.machine.current < w.machine.store.frames.size := by
    have hchain := hs.chain
    cases Δ with
    | nil => exact hchain ▸ hw.size
    | cons a Δ =>
      obtain ⟨-, p, hp, -⟩ := hchain
      exact Store.lt_size_of_parent? hp
  rw [Store.vars_define_self _ _ _ hsize]
  exact Store.has_set_self _ _ _

theorem declareClass_fits {name : Token} {Δ : Display} {superclass : Option Class}
    {methods : List (Routine (Stmt Distance))} (hw : w.Fits T host.natives.length)
    (hs : w.Stands Δ none) (hsup : ∀ c ∈ superclass, c.Fits T w)
    (hr : ∀ r ∈ methods,
      Routine.Scoped T (Scopes.ofClass superclass.isSome (Δ.scopes.declare name.lexeme)) r)
    (hthis : name.lexeme ≠ "this") :
    Runs T host (declareClass name superclass methods (Δ.declare name.lexeme))
      (fun _ w' => w'.Stands (Δ.declare name.lexeme) none) w := by
  apply Runs.get
  apply Runs.open_ hw
  generalize hhome : w.classHome superclass (Δ.declare name.lexeme) = home
  have h₁ := After.opened hw home
  have hs₁ : (w.opened home).Stands Δ none := hs.after h₁
  rw [Machine.declareClass]
  apply Runs.lift_get
  have h₂ := After.bind (f := (w.opened home).machine.current) (x := name.lexeme) (v := .nil)
    h₁.fits trivial fun _ hx => absurd hx hthis
  apply Runs.bindVariable h₂
  have hs₂ := hs₁.define (x := name.lexeme) .nil
  have hhas := has_define_self (x := name.lexeme) h₁.fits hs₁ .nil
  rw [← Display.scopes_declare] at hr
  dsimp only
  cases superclass with
  | none =>
    have ho : ((w.opened home).withStore ((w.opened home).machine.store.define
        (w.opened home).machine.current name.lexeme .nil)).Opens home
        (w.opened home).machine.current := by
      refine ⟨fun n hn => opened_homes w home hn, ?_, ?_⟩
      · rw [← hhome]
        exact hs₂.chain
      · rw [← hhome]
        exact hs₂.filled
    refine finishClass_runs h₂.fits hs₂ ho ?_ (fun c hc => by cases hc) rfl hhas hthis
    rw [← hhome]
    exact hr
  | some c =>
    have hsize : (w.machine.store.define w.machine.current name.lexeme .nil).frames.size =
        w.machine.store.frames.size := Store.size_define _ _ _ _
    have hc := (hsup c rfl).grows (h₁.trans h₂).grows
    refine Runs.scope (x := "super") h₂.fits hs₂.chain hs₂.filled (fun n hn => ?_) hc
      (fun he => absurd he (by decide)) fun w₃ h₃ ho => ?_
    · refine (opened_homes w home hn).trans (hhome.symm.trans ?_)
      rw [classHome, ← hsize]
      rfl
    · refine finishClass_runs h₃.fits (hs₂.after h₃) ho ?_
        (fun d hd => (hsup d hd).grows (h₁.trans (h₂.trans h₃)).grows) h₃.current
        (h₃.grows.store.bound _ _ hhas) hthis
      exact hr

theorem plain_fits {f : Closure} {Δ : Display} (hhome : w.homes f.serial = Δ)
    (hserial : f.serial < w.machine.store.serial) (hchain : Δ.Chain w.machine.store f.frame)
    (hfilled : Δ.Filled w.machine.store none) (hr : f.routine.Scoped T Δ.scopes)
    (hplain : f.isInitializer = false) : f.Fits T w := by
  subst hhome
  refine ⟨⟨hserial, hchain, hfilled⟩, hr, fun h => ?_⟩
  rw [hplain] at h
  cases h

theorem declareFunction_fits {r : Routine (Stmt Distance)} {Δ : Display}
    (hw : w.Fits T host.natives.length) (hs : w.Stands Δ none)
    (hr : r.Scoped T (Δ.scopes.declare r.name.lexeme)) (hthis : r.name.lexeme ≠ "this") :
    Runs T host (declareFunction r (Δ.declare r.name.lexeme))
      (fun _ w' => w'.Stands (Δ.declare r.name.lexeme) none) w := by
  have h₁ := After.opened hw (Δ.declare r.name.lexeme)
  have h₂ := After.newSerial h₁.fits
  have hs₃ := (hs.after (h₁.trans h₂)).define (x := r.name.lexeme)
    (.function ⟨w.machine.store.serial, r, w.machine.current, false⟩)
  rw [← Display.scopes_declare] at hr
  have h₃ := After.define (f := w.machine.current) (x := r.name.lexeme) h₂.fits
    (v := .function ⟨w.machine.store.serial, r, w.machine.current, false⟩)
    (plain_fits (opened_homes w _ (Nat.le_refl _)) (Nat.lt_succ_self _) hs₃.chain hs₃.filled hr rfl)
    fun _ hx => absurd hx hthis
  apply Runs.open_ hw
  apply Runs.get
  refine Runs.step (a := ⟨w.machine.store.serial, r, w.machine.current, false⟩) rfl h₂ ?_
  exact ⟨h₃, hs₃⟩

end Watched

end LoxLang
