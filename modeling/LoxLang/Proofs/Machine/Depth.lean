import LoxLang.Machine.Eval

namespace LoxLang

namespace Machine
set_option autoImplicit true

/-- The second step does what the first one does, unless the first is out of steps. -/
def Deepens (P Q : Eval α) : Prop := ∀ m, (∃ m', P m = .error .exhausted m') ∨ Q m = P m

theorem Deepens.refl (P : Eval α) : Deepens P P := fun _ => .inr rfl

theorem Deepens.exhausted (Q : Eval α) : Deepens (throw .exhausted) Q := fun m => .inl ⟨m, rfl⟩

theorem Deepens.bind {P P' : Eval α} {Q Q' : α → Eval β} (hP : Deepens P P')
    (hQ : ∀ a, Deepens (Q a) (Q' a)) : Deepens (P >>= Q) (P' >>= Q') := by
  intro m
  change (∃ m', EStateM.bind P Q m = _) ∨ EStateM.bind P' Q' m = EStateM.bind P Q m
  unfold EStateM.bind
  rcases hP m with ⟨m', hp⟩ | hp
  · rw [hp]
    exact .inl ⟨m', rfl⟩
  · rw [hp]
    cases P m with
    | ok a m' => exact hQ a m'
    | error e m' => exact .inr rfl

theorem Deepens.get {F F' : Machine → Eval α} (h : ∀ m, Deepens (F m) (F' m)) :
    Deepens (MonadState.get >>= F) (MonadState.get >>= F') := fun m => h m m

theorem Deepens.ite {c : Prop} [Decidable c] {P P' Q Q' : Eval α} (hP : Deepens P P')
    (hQ : Deepens Q Q') : Deepens (if c then P else Q) (if c then P' else Q') := by
  split
  · exact hP
  · exact hQ

theorem Deepens.within {P Q : Eval α} (f : FrameId) (h : Deepens P Q) :
    Deepens (Machine.within f P) (Machine.within f Q) := by
  intro m
  unfold Machine.within
  rcases h { m with current := f } with ⟨m', hp⟩ | hp
  · rw [hp]
    exact .inl ⟨_, rfl⟩
  · rw [hp]
    exact .inr rfl

theorem Deepens.caught {P Q : Eval α} (h : Deepens P Q) :
    Deepens (Native.attempt P) (Native.attempt Q) := by
  intro m
  unfold Native.attempt
  rcases h m with ⟨m', hp⟩ | hp
  · rw [hp]
    exact .inl ⟨m', rfl⟩
  · rw [hp]
    exact .inr rfl

theorem Deepens.perform {host : Host} {P Q : Value → List Value → Eval Value}
    (h : ∀ v vs, Deepens (P v vs) (Q v vs)) (act : Native.Act) :
    Deepens (act.perform (serve host) property P) (act.perform (serve host) property Q) := by
  induction act with
  | done | fail => exact .refl _
  | ask q rest ih => exact (Deepens.refl _).bind ih
  | property id c name rest ih => exact (Deepens.refl _).bind ih
  | call f args rest ih => exact (h f args).caught.bind ih

/-- One more step makes no difference to a function of the evaluator that is not out of steps. -/
structure Settled (host : Host) (n : Nat) : Prop where
  evaluate : ∀ e, Deepens (evaluate host n e) (evaluate host (n + 1) e)
  arguments : ∀ es, Deepens (arguments host n es) (arguments host (n + 1) es)
  call : ∀ v args, Deepens (call host n v args) (call host (n + 1) v args)
  invoke : ∀ f args, Deepens (invoke host n f args) (invoke host (n + 1) f args)
  run : ∀ ss, Deepens (run host n ss) (run host (n + 1) ss)
  execute : ∀ s, Deepens (execute host n s) (execute host (n + 1) s)
  loop : ∀ c s, Deepens (loop host n c s) (loop host (n + 1) c s)

variable {host : Host}

theorem Settled.zero : Settled host 0 where
  evaluate _ := .exhausted _
  arguments _ := .exhausted _
  call _ _ := .exhausted _
  invoke _ _ := .exhausted _
  run _ := .exhausted _
  execute _ := .exhausted _
  loop _ _ := .exhausted _

theorem evaluate_deepens (ih : Settled host n) (e : Expr Distance) :
    Deepens (evaluate host (n + 1) e) (evaluate host (n + 2) e) := by
  cases e with
  | literal | var | this | super => exact .refl _
  | grouping e => exact ih.evaluate e
  | unary op e => exact (ih.evaluate e).bind fun v => .refl _
  | binary l op r =>
    apply (ih.evaluate l).bind
    intro left
    exact (ih.evaluate r).bind fun right => .refl _
  | logical l op r =>
    apply (ih.evaluate l).bind
    intro left
    exact .ite (.refl _) (ih.evaluate r)
  | assign ref e => exact (ih.evaluate e).bind fun v => .refl _
  | call f paren args =>
    apply (ih.evaluate f).bind
    intro callee
    apply (ih.arguments args).bind
    intro values
    cases arity? host callee with
    | none => exact .refl _
    | some k => exact .ite (ih.call callee values) (.refl _)
  | get o x => exact (ih.evaluate o).bind fun v => .refl _
  | set o x e =>
    apply (ih.evaluate o).bind
    intro v
    cases v with
    | object id c => exact (ih.evaluate e).bind fun u => .refl _
    | _ => exact .refl _

theorem arguments_deepens (ih : Settled host n) (es : List (Expr Distance)) :
    Deepens (arguments host (n + 1) es) (arguments host (n + 2) es) := by
  cases es with
  | nil => exact .refl _
  | cons e es =>
    apply (ih.evaluate e).bind
    intro v
    exact (ih.arguments es).bind fun vs => .refl _

theorem call_deepens (ih : Settled host n) (v : Value) (args : List Value) :
    Deepens (call host (n + 1) v args) (call host (n + 2) v args) := by
  cases v with
  | function f => exact ih.invoke f args
  | klass c =>
    rw [call, call]
    apply (Deepens.refl _).bind
    intro id
    cases c.initializer? with
    | some init =>
      apply (Deepens.refl _).bind
      intro bound
      exact (ih.invoke bound args).bind fun _ => .refl _
    | none => exact .refl _
  | native i =>
    rw [call, call]
    cases host.natives[i]? with
    | some native => exact .perform ih.call _
    | none => exact .refl _
  | _ => exact .refl _

theorem invoke_deepens (ih : Settled host n) (f : Closure) (args : List Value) :
    Deepens (invoke host (n + 1) f args) (invoke host (n + 2) f args) := by
  rw [invoke, invoke]
  apply (Deepens.refl _).bind
  intro frame
  apply (Deepens.refl _).bind
  intro _
  exact ((ih.run f.routine.body).within frame).bind fun done => .refl _

theorem run_deepens (ih : Settled host n) (ss : List (Stmt Distance)) :
    Deepens (run host (n + 1) ss) (run host (n + 2) ss) := by
  cases ss with
  | nil => exact .refl _
  | cons s ss =>
    apply (ih.execute s).bind
    intro done
    cases done with
    | normal => exact ih.run ss
    | returned v => exact .refl _

theorem execute_deepens (ih : Settled host n) (s : Stmt Distance) :
    Deepens (execute host (n + 1) s) (execute host (n + 2) s) := by
  cases s with
  | expression e => exact (ih.evaluate e).bind fun _ => .refl _
  | print e => exact (ih.evaluate e).bind fun _ => .refl _
  | varDecl x init =>
    cases init with
    | some e => exact (ih.evaluate e).bind fun v => .refl _
    | none => exact .refl _
  | block body =>
    apply Deepens.get
    intro m
    apply (Deepens.refl _).bind
    intro frame
    exact (ih.run body).within frame
  | ifThen c s =>
    apply (ih.evaluate c).bind
    intro v
    exact .ite (ih.execute s) (.refl _)
  | ifElse c s t =>
    apply (ih.evaluate c).bind
    intro v
    exact .ite (ih.execute s) (ih.execute t)
  | loop c s => exact ih.loop c s
  | funDecl r => exact .refl _
  | ret word value =>
    cases value with
    | some e => exact (ih.evaluate e).bind fun v => .refl _
    | none => exact .refl _
  | classDecl x sup methods =>
    cases sup with
    | some ref => exact (ih.evaluate (.var ref)).bind fun v => .refl _
    | none => exact .refl _

theorem loop_deepens (ih : Settled host n) (c : Expr Distance) (s : Stmt Distance) :
    Deepens (loop host (n + 1) c s) (loop host (n + 2) c s) := by
  rw [loop, loop]
  apply (Deepens.refl _).bind
  intro _
  apply (ih.evaluate c).bind
  intro v
  refine .ite ((ih.execute s).bind fun done => ?_) (.refl _)
  cases done with
  | normal => exact ih.loop c s
  | returned u => exact .refl _

theorem settled (host : Host) (n : Nat) : Settled host n := by
  induction n with
  | zero => exact .zero
  | succ n ih =>
    exact {
      evaluate := evaluate_deepens ih
      arguments := arguments_deepens ih
      call := call_deepens ih
      invoke := invoke_deepens ih
      run := run_deepens ih
      execute := execute_deepens ih
      loop := loop_deepens ih }

theorem statements_deepens (host : Host) (n : Nat) (ss : List (Stmt Distance)) :
    Deepens (statements host n ss) (statements host (n + 1) ss) := by
  induction ss with
  | nil => exact .refl _
  | cons s ss ih =>
    rw [statements, statements]
    apply (Deepens.refl _).bind
    intro _
    exact ((settled host n).execute s).bind fun _ => ih

theorem Deepens.attempt {P Q : Eval α} (h : Deepens P Q) (m : Machine) :
    (∃ m', attempt P m = (.error .exhausted, m')) ∨ attempt Q m = attempt P m := by
  unfold Machine.attempt
  rcases h m with ⟨m', hp⟩ | hp
  · rw [hp]
    exact .inl ⟨_, rfl⟩
  · rw [hp]
    exact .inr rfl

theorem value_deepens (host : Host) (n : Nat) (e : Expr Distance) (m : Machine) :
    (∃ m', value host n e m = (.error .exhausted, m')) ∨
      value host (n + 1) e m = value host n e m :=
  ((settled host n).evaluate e).attempt m

theorem interpret_deepens (host : Host) (n : Nat) (program : List (Stmt Distance)) (m : Machine) :
    (∃ m', interpret host n program m = (.error .exhausted, m')) ∨
      interpret host (n + 1) program m = interpret host n program m :=
  (statements_deepens host n program).attempt m

end Machine

end LoxLang
