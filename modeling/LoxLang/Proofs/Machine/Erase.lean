import LoxLang.Proofs.Machine.Watch

namespace LoxLang

namespace Watched
set_option autoImplicit true

/-- The outcome of a watched step without the notes. -/
def erase : EStateM.Result Stop Watched α → EStateM.Result Stop Machine α
  | .ok a w => .ok a w.machine
  | .error e w => .error e w.machine

def Mirrors (P : Watch α) (Q : Eval α) : Prop := ∀ w, erase (P w) = Q w.machine

theorem Mirrors.pure (a : α) : Mirrors (Pure.pure a) (Pure.pure a) := fun _ => rfl

theorem Mirrors.throw (e : Stop) :
    Mirrors (MonadExcept.throw e : Watch α) (MonadExcept.throw e) := fun _ => rfl

theorem Mirrors.bind {P : Watch α} {Q : Eval α} {F : α → Watch β} {G : α → Eval β}
    (h : Mirrors P Q) (hF : ∀ a, Mirrors (F a) (G a)) : Mirrors (P >>= F) (Q >>= G) := by
  intro w
  have hw := h w
  change erase (EStateM.bind P F w) = EStateM.bind Q G w.machine
  unfold EStateM.bind
  rw [← hw]
  cases P w with
  | ok a w' => exact hF a w'
  | error e w' => rfl

theorem Mirrors.get {F : Watched → Watch α} {G : Machine → Eval α}
    (h : ∀ w, Mirrors (F w) (G w.machine)) :
    Mirrors (MonadState.get >>= F) (MonadState.get >>= G) := fun w => h w w

theorem Mirrors.peek {F : Watched → Watch α} {Q : Eval α} (h : ∀ w, Mirrors (F w) Q) :
    Mirrors (MonadState.get >>= F) Q := fun w => h w w

theorem Mirrors.note {N : Watch Unit} {P : Watch α} {Q : Eval α}
    (hN : Mirrors N (Pure.pure ())) (h : Mirrors P Q) : Mirrors (N >>= fun _ => P) Q :=
  Mirrors.bind hN fun _ => h

theorem Mirrors.lift (step : Eval α) : Mirrors (lift step) step := by
  intro w
  unfold Watched.lift
  cases step w.machine with
  | ok a m => rfl
  | error e m => rfl

theorem Mirrors.open_ (Δ : Display) : Mirrors (open_ Δ) (Pure.pure ()) := fun _ => rfl

theorem Mirrors.visit (use : Use) (name : Text) (mark : Distance) (Δ : Display)
    (frame : FrameId) : Mirrors (visit use name mark Δ frame) (Pure.pure ()) := fun _ => rfl

theorem Mirrors.refer (use : Use) (ref : Reference Distance) (Δ : Display) :
    Mirrors (refer use ref Δ) (Pure.pure ()) := fun _ => rfl

theorem Mirrors.within {P : Watch α} {Q : Eval α} (h : Mirrors P Q) (f : FrameId) :
    Mirrors (within f P) (Machine.within f Q) := by
  intro w
  have hw := h { w with machine := { w.machine with current := f } }
  unfold Watched.within Machine.within
  dsimp only at hw ⊢
  rw [← hw]
  cases P { w with machine := { w.machine with current := f } } with
  | ok a w' => rfl
  | error e w' => rfl

theorem Mirrors.ite {c : Prop} [Decidable c] {P P' : Watch α} {Q Q' : Eval α}
    (h : Mirrors P Q) (h' : Mirrors P' Q') :
    Mirrors (if c then P else P') (if c then Q else Q') := by
  split
  · exact h
  · exact h'

theorem Mirrors.bindMethod (method : Closure) (v : Value) :
    Mirrors (bindMethod method v) (Machine.bindMethod method v) :=
  .peek fun _ => .note (.open_ _) (.lift _)

theorem Mirrors.property (id : Nat) (c : Class) (name : Token) :
    Mirrors (property id c name) (Machine.property id c name) :=
  .peek fun _ => .note (.open_ _) (.lift _)

theorem Mirrors.superMethod (d : Distance) (method : Token) :
    Mirrors (superMethod d method) (Machine.superMethod d method) :=
  .peek fun _ => .note (.open_ _) (.lift _)

theorem Mirrors.declareClass (name : Token) (superclass : Option Class)
    (methods : List (Routine (Stmt Distance))) (Δ : Display) :
    Mirrors (declareClass name superclass methods Δ)
      (Machine.declareClass name superclass methods) :=
  .peek fun _ => .note (.open_ _) (.lift _)

theorem Mirrors.attempt {P : Watch α} {Q : Eval α} (h : Mirrors P Q) :
    Mirrors (Native.attempt P) (Native.attempt Q) := by
  intro w
  unfold Native.attempt
  rw [← h w]
  cases P w with
  | ok a w' => rfl
  | error e w' => cases e <;> rfl

variable {host : Host}

theorem Mirrors.perform {P : Value → List Value → Watch Value} {Q : Value → List Value → Eval Value}
    (h : ∀ v vs, Mirrors (P v vs) (Q v vs)) (act : Native.Act) :
    Mirrors (act.perform (fun q => Watched.lift (Machine.serve host q)) Watched.property P)
      (act.perform (Machine.serve host) Machine.property Q) := by
  induction act with
  | done v => exact .pure v
  | fail e => exact .throw e
  | ask q rest ih => exact (Mirrors.lift _).bind ih
  | property id c name rest ih => exact (Mirrors.property id c name).attempt.bind ih
  | call f args rest ih => exact (h f args).attempt.bind ih

/-- Every function of the evaluator does what the machine's does, with this many steps. -/
structure Mirrored (host : Host) (n : Nat) : Prop where
  evaluate : ∀ Δ e, Mirrors (evaluate host n Δ e) (Machine.evaluate host n e)
  arguments : ∀ Δ es, Mirrors (arguments host n Δ es) (Machine.arguments host n es)
  call : ∀ v args, Mirrors (call host n v args) (Machine.call host n v args)
  invoke : ∀ f args, Mirrors (invoke host n f args) (Machine.invoke host n f args)
  run : ∀ Δ ss, Mirrors (run host n Δ ss) (Machine.run host n ss)
  execute : ∀ Δ s, Mirrors (execute host n Δ s) (Machine.execute host n s)
  loop : ∀ Δ c s, Mirrors (loop host n Δ c s) (Machine.loop host n c s)

theorem Mirrored.zero : Mirrored host 0 where
  evaluate _ _ := .throw _
  arguments _ _ := .throw _
  call _ _ := .throw _
  invoke _ _ := .throw _
  run _ _ := .throw _
  execute _ _ := .throw _
  loop _ _ _ := .throw _

theorem evaluate_mirrors (ih : Mirrored host n) (Δ : Display) (e : Expr Distance) :
    Mirrors (evaluate host (n + 1) Δ e) (Machine.evaluate host (n + 1) e) := by
  cases e with
  | literal v => exact .pure _
  | grouping e => exact ih.evaluate Δ e
  | unary op e => exact (ih.evaluate Δ e).bind fun _ => .lift _
  | binary l op r =>
    exact (ih.evaluate Δ l).bind fun _ => (ih.evaluate Δ r).bind fun _ => .lift _
  | logical l op r =>
    exact (ih.evaluate Δ l).bind fun _ => .ite (.pure _) (ih.evaluate Δ r)
  | var ref | this ref => exact .note (.refer _ _ _) (.lift _)
  | assign ref e =>
    apply (ih.evaluate Δ e).bind
    intro v
    exact .note (.refer _ _ _) ((Mirrors.lift _).bind fun _ => .pure _)
  | call f paren args =>
    apply (ih.evaluate Δ f).bind
    intro callee
    apply (ih.arguments Δ args).bind
    intro values
    cases Machine.arity? host callee with
    | none => exact .lift _
    | some k => exact .ite (ih.call callee values) (.lift _)
  | get o name =>
    apply (ih.evaluate Δ o).bind
    intro v
    cases v with
    | object id c => exact .property id c name
    | _ => exact .lift _
  | set o name e =>
    apply (ih.evaluate Δ o).bind
    intro v
    cases v with
    | object id c =>
      apply (ih.evaluate Δ e).bind
      intro v
      exact (Mirrors.lift _).bind fun _ => .pure _
    | _ => exact .lift _
  | super ref method => exact .note (.refer _ _ _) (.superMethod _ _)

theorem arguments_mirrors (ih : Mirrored host n) (Δ : Display) (es : List (Expr Distance)) :
    Mirrors (arguments host (n + 1) Δ es) (Machine.arguments host (n + 1) es) := by
  cases es with
  | nil => exact .pure _
  | cons e es =>
    exact (ih.evaluate Δ e).bind fun _ => (ih.arguments Δ es).bind fun _ => .pure _

theorem call_mirrors (ih : Mirrored host n) (v : Value) (args : List Value) :
    Mirrors (call host (n + 1) v args) (Machine.call host (n + 1) v args) := by
  cases v with
  | function f => exact ih.invoke f args
  | klass c =>
    rw [call, Machine.call]
    apply (Mirrors.lift _).bind
    intro id
    cases c.initializer? with
    | some init =>
      apply (Mirrors.bindMethod init _).bind
      intro bound
      exact (ih.invoke bound args).bind fun _ => .pure _
    | none => exact .pure _
  | native i =>
    rw [call, Machine.call]
    cases host.natives[i]? with
    | none => exact .lift _
    | some native => exact .perform ih.call _
  | _ => exact .lift (Machine.crash .missingValue)

theorem invoke_mirrors (ih : Mirrored host n) (f : Closure) (args : List Value) :
    Mirrors (invoke host (n + 1) f args) (Machine.invoke host (n + 1) f args) := by
  rw [invoke, Machine.invoke]
  apply Mirrors.peek
  intro w
  apply (Mirrors.lift _).bind
  intro frame
  apply (Mirrors.lift _).bind
  intro _
  apply ((ih.run _ f.routine.body).within frame).bind
  intro done
  apply Mirrors.ite
  · apply Mirrors.note (.visit _ _ _ _ _)
    apply Mirrors.get
    intro w'
    cases w'.machine.store.getAt? f.frame 0 "this" with
    | some v => exact .pure _
    | none => exact .lift _
  · cases done with
    | returned v => exact .pure _
    | normal => exact .pure _

theorem run_mirrors (ih : Mirrored host n) (Δ : Display) (ss : List (Stmt Distance)) :
    Mirrors (run host (n + 1) Δ ss) (Machine.run host (n + 1) ss) := by
  cases ss with
  | nil => exact .pure _
  | cons s ss =>
    apply (ih.execute Δ s).bind
    intro done
    cases done with
    | normal => exact ih.run _ ss
    | returned v => exact .pure _

theorem execute_mirrors (ih : Mirrored host n) (Δ : Display) (s : Stmt Distance) :
    Mirrors (execute host (n + 1) Δ s) (Machine.execute host (n + 1) s) := by
  cases s with
  | expression e => exact (ih.evaluate Δ e).bind fun _ => .pure _
  | print e => exact (ih.evaluate Δ e).bind fun _ => (Mirrors.lift _).bind fun _ => .pure _
  | varDecl name init =>
    have hrest (v : Value) :
        Mirrors (do lift (Machine.bindVariable (← get).machine.current name.lexeme v)
                    return Completion.normal)
          (do Machine.bindVariable (← get).current name.lexeme v
              return Completion.normal) := by
      apply Mirrors.get
      intro w
      exact (Mirrors.lift _).bind fun _ => .pure _
    cases init with
    | none => exact (Mirrors.pure _).bind hrest
    | some e => exact (ih.evaluate _ e).bind hrest
  | block body =>
    apply Mirrors.get
    intro w
    apply (Mirrors.lift _).bind
    intro frame
    exact (ih.run _ body).within frame
  | ifThen c s =>
    apply (ih.evaluate Δ c).bind
    intro v
    exact .ite (ih.execute Δ s) (.pure _)
  | ifElse c s t =>
    apply (ih.evaluate Δ c).bind
    intro v
    exact .ite (ih.execute Δ s) (ih.execute Δ t)
  | loop c s => exact ih.loop Δ c s
  | funDecl r =>
    rw [execute, Machine.execute, declareFunction]
    simp only [bind_assoc]
    apply Mirrors.note (.open_ _)
    apply Mirrors.get
    intro w
    apply (Mirrors.lift _).bind
    intro f
    exact (Mirrors.lift _).bind fun _ => .pure _
  | ret keyword value =>
    cases value with
    | none => exact .pure _
    | some e => exact (ih.evaluate Δ e).bind fun _ => .pure _
  | classDecl name sup methods =>
    cases sup with
    | none => exact (Mirrors.declareClass _ _ _ _).bind fun _ => .pure _
    | some ref =>
      apply (ih.evaluate _ _).bind
      intro v
      cases v with
      | klass c => exact (Mirrors.declareClass _ _ _ _).bind fun _ => .pure _
      | _ => exact (Mirrors.lift _).bind fun c => (Mirrors.declareClass _ c _ _).bind fun _ => .pure _

theorem loop_mirrors (ih : Mirrored host n) (Δ : Display) (c : Expr Distance)
    (s : Stmt Distance) : Mirrors (loop host (n + 1) Δ c s) (Machine.loop host (n + 1) c s) := by
  rw [loop, Machine.loop]
  apply (Mirrors.lift _).bind
  intro _
  apply (ih.evaluate Δ c).bind
  intro v
  refine .ite ((ih.execute Δ s).bind fun done => ?_) (.pure _)
  cases done with
  | normal => exact ih.loop Δ c s
  | returned v => exact .pure _

theorem mirrored (n : Nat) : Mirrored host n := by
  induction n with
  | zero => exact .zero
  | succ n ih =>
    exact {
      evaluate := evaluate_mirrors ih
      arguments := arguments_mirrors ih
      call := call_mirrors ih
      invoke := invoke_mirrors ih
      run := run_mirrors ih
      execute := execute_mirrors ih
      loop := loop_mirrors ih }

theorem statements_mirrors (steps : Nat) (ss : List (Stmt Distance)) :
    Mirrors (statements host steps ss) (Machine.statements host steps ss) := by
  induction ss with
  | nil => exact .pure _
  | cons s ss ih =>
    rw [statements, Machine.statements]
    exact (Mirrors.lift _).bind fun _ => ((mirrored steps).execute [] s).bind fun _ => ih

end Watched

end LoxLang
