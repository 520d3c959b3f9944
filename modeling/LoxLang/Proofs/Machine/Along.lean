import LoxLang.Machine.Eval

namespace LoxLang

inductive Store.Update (s : Store) : Store → Prop where
  | newFrame (parent : Option FrameId) : Update s (s.newFrame parent).2
  | define (f : FrameId) (x : Text) (v : Value) : Update s (s.define f x v)
  | newSerial : Update s s.newSerial.2
  | newObject : Update s s.newObject.2
  | setField (id : Nat) (x : Text) (v : Value) : Update s (s.setField id x v)

namespace Store
set_option autoImplicit true

theorem update_of_assign? {s s' : Store} (h : s.assign? f x v = some s') : s.Update s' := by
  obtain ⟨g, -, rfl⟩ := Option.map_eq_some_iff.1 h
  exact .define g x v

theorem update_of_assignAt? {s s' : Store} (h : s.assignAt? f k x v = some s') : s.Update s' := by
  obtain ⟨g, -, rfl⟩ := Option.map_eq_some_iff.1 h
  exact .define g x v

end Store

namespace Machine
set_option autoImplicit true

/-- The machine that a step leaves behind, however it ends. -/
def behind (P : Eval α) (m : Machine) : Machine :=
  match P m with
  | .ok _ m' => m'
  | .error _ m' => m'

/-- The relation holds between the machine that a step starts with and the one it leaves behind. -/
def Along (R : Machine → Machine → Prop) (P : Eval α) : Prop := ∀ m, R m (behind P m)

/-- The relation holds along updates of the store. -/
structure Follows (R : Machine → Machine → Prop) : Prop where
  refl : ∀ m, R m m
  trans : R m m' → R m' m'' → R m m''
  update : ∀ {m : Machine} {s : Store}, m.store.Update s → R m { m with store := s }

/-- It holds along writes, too, and does not mind in which frame something is done. -/
structure Lasts (R : Machine → Machine → Prop) : Prop extends Follows R where
  write : ∀ m t, R m (m.write t)
  poll : ∀ m : Machine, R m { m with polls := m.polls + 1 }
  apart : R { m with current := f } m' → R m { m' with current := m.current }

variable {R : Machine → Machine → Prop}

theorem Along.read {F : Machine → Eval α} (h : ∀ m, R m (behind (F m) m)) :
    Along R (MonadState.get >>= F) := h

theorem Along.get {F : Machine → Eval α} (h : ∀ m, Along R (F m)) :
    Along R (MonadState.get >>= F) := .read fun m => h m m

theorem Along.ite {c : Prop} [Decidable c] {P Q : Eval α} (hP : Along R P) (hQ : Along R Q) :
    Along R (if c then P else Q) := by
  split
  · exact hP
  · exact hQ

section
variable (h : Follows R)
include h

theorem Follows.pure (a : α) : Along R (Pure.pure a) := fun m => h.refl m

theorem Follows.throw (e : Stop) : Along R (MonadExcept.throw e : Eval α) := fun m => h.refl m

theorem Follows.bind {P : Eval α} {Q : α → Eval β} (hP : Along R P) (hQ : ∀ a, Along R (Q a)) :
    Along R (P >>= Q) := by
  intro m
  have hp := hP m
  change R m (behind (EStateM.bind P Q) m)
  unfold behind EStateM.bind
  unfold behind at hp
  cases hstep : P m with
  | ok a m' =>
    rw [hstep] at hp
    exact h.trans hp (hQ a m')
  | error e m' =>
    rw [hstep] at hp
    exact hp

theorem Follows.change {F : Machine → Store} {Q : Machine → PUnit → Eval α}
    (hF : ∀ m : Machine, m.store.Update (F m)) (hQ : ∀ m, Along R (Q m ())) : Along R
      (MonadState.get >>= fun m => MonadStateOf.set { m with store := F m } >>= Q m) :=
  .read fun m => h.trans (h.update (hF m)) (hQ m { m with store := F m })

theorem Follows.modify {F : Machine → Store} (hF : ∀ m : Machine, m.store.Update (F m)) :
    Along R (MonadState.modifyGet fun m => ((), { m with store := F m })) :=
  fun m => h.update (hF m)

theorem Follows.fault (t : Token) (message : Text) : Along R (fault t message : Eval α) :=
  h.throw _

theorem Follows.crash (c : Crash) : Along R (crash c : Eval α) := h.throw _

theorem Follows.newFrame (f : FrameId) : Along R (newFrame f) :=
  h.change (fun _ => .newFrame _) fun _ => h.pure _

theorem Follows.bindVariable (f : FrameId) (x : Text) (v : Value) :
    Along R (bindVariable f x v) := h.modify fun _ => .define f x v

theorem Follows.newSerial : Along R newSerial :=
  h.change (fun _ => .newSerial) fun _ => h.pure _

theorem Follows.newObject : Along R newObject :=
  h.change (fun _ => .newObject) fun _ => h.pure _

theorem Follows.lookUp (x : Token) (d : Distance) : Along R (lookUp x d) := by
  apply Along.get
  intro m
  cases d with
  | some k =>
    dsimp only
    cases m.store.getAt? m.current k x.lexeme with
    | some v => exact h.pure v
    | none => exact h.crash _
  | none =>
    dsimp only
    cases m.store.get? globals x.lexeme with
    | some v => exact h.pure v
    | none => exact h.throw _

theorem Follows.assign (x : Token) (d : Distance) (v : Value) : Along R (assign x d v) := by
  apply Along.read
  intro m
  cases d with
  | some k =>
    dsimp only
    cases hs : m.store.assignAt? m.current k x.lexeme v with
    | some store => exact h.update (Store.update_of_assignAt? hs)
    | none => exact h.refl m
  | none =>
    dsimp only
    cases hs : m.store.assign? globals x.lexeme v with
    | some store => exact h.update (Store.update_of_assign? hs)
    | none => exact h.refl m

theorem Follows.negate (op : Token) (v : Value) : Along R (negate op v) := by
  unfold Machine.negate
  split
  · exact h.pure _
  · split
    · exact h.pure _
    · exact h.fault _ _
  · exact h.crash _

theorem Follows.add (op : Token) (left right : Value) : Along R (add op left right) := by
  unfold Machine.add
  split
  · exact h.pure _
  · exact h.pure _
  · exact h.fault _ _

theorem Follows.arithmetic (op : Token) (left right : Value) :
    Along R (arithmetic op left right) := by
  unfold Machine.arithmetic
  split
  · split
    all_goals first | exact h.pure _ | exact h.crash _
  · exact h.fault _ _

theorem Follows.combine (op : Token) (left right : Value) : Along R (combine op left right) := by
  unfold Machine.combine
  split
  · exact h.pure _
  · exact h.pure _
  · exact h.add _ _ _
  · exact h.arithmetic _ _ _

theorem Follows.close (r : Routine (Stmt Distance)) (f : FrameId) (isInitializer : Bool) :
    Along R (close r f isInitializer) := h.bind h.newSerial fun _ => h.pure _

theorem Follows.bindMethod (f : Closure) (receiver : Value) : Along R (bindMethod f receiver) := by
  apply h.bind (h.newFrame f.frame)
  intro g
  apply h.bind (h.bindVariable g "this" receiver)
  intro _
  exact h.close _ _ _

theorem Follows.property (id : Nat) (c : Class) (x : Token) : Along R (property id c x) := by
  apply Along.get
  intro m
  cases (m.store.fields id).get? x.lexeme with
  | some v => exact h.pure v
  | none =>
    cases c.findMethod x.lexeme with
    | some f => exact h.bind (h.bindMethod f _) fun _ => h.pure _
    | none => exact h.throw _

theorem Follows.superMethod (d : Distance) (x : Token) : Along R (superMethod d x) := by
  apply Along.get
  intro m
  dsimp only
  split
  · split
    · exact h.throw _
    · split
      · exact h.bind (h.bindMethod _ _) fun _ => h.pure _
      · exact h.crash _
  · exact h.crash _

theorem Follows.bindParams (f : FrameId) (ps : List Token) (vs : List Value) :
    Along R (bindParams f ps vs) := by
  induction ps generalizing vs with
  | nil => exact h.pure _
  | cons p ps ih =>
    cases vs with
    | nil => exact h.crash _
    | cons v vs => exact h.bind (h.bindVariable f p.lexeme v) fun _ => ih vs

theorem Follows.closeMethods (f : FrameId) (rs : List (Routine (Stmt Distance)))
    (methods : Dict Closure) : Along R (closeMethods f rs methods) := by
  induction rs generalizing methods with
  | nil => exact h.pure _
  | cons r rs ih => exact h.bind (h.close r f _) fun _ => ih _

theorem Follows.declareClass (x : Token) (sup : Option Class)
    (methods : List (Routine (Stmt Distance))) : Along R (declareClass x sup methods) := by
  apply Along.get
  intro m
  apply h.bind (h.bindVariable m.current x.lexeme .nil)
  intro _
  cases sup
  -- The methods are made in the current frame, or in one around them that binds the superclass.
  case' some c =>
    apply h.bind (h.newFrame m.current)
    intro f
    apply h.bind (h.bindVariable f "super" (.klass c))
    intro _
  all_goals
    apply h.bind (h.closeMethods _ methods [])
    intro closures
    apply h.bind h.newSerial
    intro serial
    apply Along.read
    intro m'
    cases hs : m'.store.assign? m.current x.lexeme (.klass (.mk serial x.lexeme _ closures)) with
    | some store => exact h.update (Store.update_of_assign? hs)
    | none => exact h.refl m'

end

/-- With this many steps every function of the evaluator keeps to the relation. -/
structure Lasting (R : Machine → Machine → Prop) (host : Host) (n : Nat) : Prop where
  evaluate : ∀ e, Along R (evaluate host n e)
  arguments : ∀ es, Along R (arguments host n es)
  call : ∀ v args, Along R (call host n v args)
  invoke : ∀ f args, Along R (invoke host n f args)
  run : ∀ ss, Along R (run host n ss)
  execute : ∀ s, Along R (execute host n s)
  loop : ∀ c s, Along R (loop host n c s)

section
variable (h : Lasts R) {host : Host}
include h

theorem Lasts.within {P : Eval α} (f : FrameId) (hP : Along R P) : Along R (within f P) := by
  intro m
  have hp := hP { m with current := f }
  unfold behind at hp
  unfold behind Machine.within
  cases hstep : P { m with current := f } with
  | ok a m' =>
    rw [hstep] at hp
    exact h.apart hp
  | error e m' =>
    rw [hstep] at hp
    exact h.apart hp

theorem Lasts.print (v : Value) : Along R (print v) := by
  unfold Machine.print
  split
  · exact fun m => h.write m _
  · exact h.crash _

theorem Lasts.heed (host : Host) : Along R (Machine.heed host) :=
  h.bind (h.poll) fun _ => .ite (h.throw _) (h.pure _)

theorem Lasts.serve (q : Native.Request) : Along R (Machine.serve host q) := by
  cases q with
  | write t => exact h.bind (fun m => h.write m t) fun _ => h.pure _
  | make c => exact h.bind h.newObject fun _ => h.pure _
  | field | global => exact .get fun _ => h.pure _
  | setField id x v => exact h.bind (h.modify fun _ => .setField id x v) fun _ => h.pure _
  | define x v => exact h.bind (h.bindVariable globals x v) fun _ => h.pure _
  | canceled => exact h.bind (h.poll) fun _ => h.pure _

omit h in
theorem Along.caught {P : Eval α} (hP : Along R P) : Along R (Native.attempt P) := by
  intro m
  have hp := hP m
  unfold behind at hp
  unfold behind Native.attempt
  cases hstep : P m with
  | ok a m' =>
    rw [hstep] at hp
    exact hp
  | error e m' =>
    rw [hstep] at hp
    cases e <;> exact hp

theorem Lasts.perform {call : Value → List Value → Eval Value} (hcall : ∀ v vs, Along R (call v vs))
    (act : Native.Act) : Along R (act.perform (Machine.serve host) Machine.property call) := by
  induction act with
  | done v => exact h.pure v
  | fail e => exact h.throw e
  | ask q rest ih => exact h.bind (h.serve q) ih
  | property id c x rest ih => exact h.bind (h.property id c x).caught ih
  | call f args rest ih => exact h.bind (hcall f args).caught ih

theorem Lasts.zero : Lasting R host 0 where
  evaluate _ := h.throw .exhausted
  arguments _ := h.throw .exhausted
  call _ _ := h.throw .exhausted
  invoke _ _ := h.throw .exhausted
  run _ := h.throw .exhausted
  execute _ := h.throw .exhausted
  loop _ _ := h.throw .exhausted

theorem evaluate_along (ih : Lasting R host n) (e : Expr Distance) :
    Along R (evaluate host (n + 1) e) := by
  cases e with
  | literal v => exact h.pure _
  | grouping e => exact ih.evaluate e
  | unary op e => exact h.bind (ih.evaluate e) fun v => h.negate op v
  | binary l op r =>
    apply h.bind (ih.evaluate l)
    intro left
    exact h.bind (ih.evaluate r) fun right => h.combine op left right
  | logical l op r =>
    apply h.bind (ih.evaluate l)
    intro left
    exact .ite (h.pure left) (ih.evaluate r)
  | var ref | this ref => exact h.lookUp _ _
  | assign ref e =>
    apply h.bind (ih.evaluate e)
    intro v
    exact h.bind (h.assign _ _ v) fun _ => h.pure v
  | call f paren args =>
    apply h.bind (ih.evaluate f)
    intro callee
    apply h.bind (ih.arguments args)
    intro values
    cases arity? host callee with
    | none => exact h.fault _ _
    | some k => exact .ite (ih.call callee values) (h.fault _ _)
  | get o x =>
    apply h.bind (ih.evaluate o)
    intro v
    cases v with
    | object id c => exact h.property id c x
    | _ => exact h.fault _ _
  | set o x e =>
    apply h.bind (ih.evaluate o)
    intro v
    cases v with
    | object id c =>
      apply h.bind (ih.evaluate e)
      intro u
      exact h.bind (h.modify fun _ => .setField id x.lexeme u) fun _ => h.pure u
    | _ => exact h.fault _ _
  | super ref x => exact h.superMethod _ _

theorem arguments_along (ih : Lasting R host n) (es : List (Expr Distance)) :
    Along R (arguments host (n + 1) es) := by
  cases es with
  | nil => exact h.pure _
  | cons e es =>
    apply h.bind (ih.evaluate e)
    intro v
    exact h.bind (ih.arguments es) fun vs => h.pure _

/-- Calling an object's class runs its initializer in a frame that is left again. -/
theorem call_along (ih : Lasting R host n) (v : Value) (args : List Value) :
    Along R (call host (n + 1) v args) := by
  cases v with
  | function f => exact ih.invoke f args
  | klass c =>
    rw [call]
    apply h.bind h.newObject
    intro id
    cases c.initializer? with
    | some init =>
      apply h.bind (h.bindMethod init _)
      intro bound
      exact h.bind (ih.invoke bound args) fun _ => h.pure _
    | none => exact h.pure _
  | native i =>
    rw [call]
    cases host.natives[i]? with
    | some native => exact h.perform ih.call _
    | none => exact h.crash _
  | _ => exact h.crash _

theorem invoke_along (ih : Lasting R host n) (f : Closure) (args : List Value) :
    Along R (invoke host (n + 1) f args) := by
  rw [invoke]
  apply h.bind (h.newFrame f.frame)
  intro frame
  apply h.bind (h.bindParams frame f.routine.params args)
  intro _
  apply h.bind (h.within frame (ih.run _))
  intro done
  apply Along.ite
  · apply Along.get
    intro m
    cases m.store.getAt? f.frame 0 "this" with
    | some v => exact h.pure v
    | none => exact h.crash _
  · cases done with
    | returned v => exact h.pure v
    | normal => exact h.pure _

theorem run_along (ih : Lasting R host n) (ss : List (Stmt Distance)) :
    Along R (run host (n + 1) ss) := by
  cases ss with
  | nil => exact h.pure _
  | cons s ss =>
    apply h.bind (ih.execute s)
    intro done
    cases done with
    | normal => exact ih.run ss
    | returned v => exact h.pure _

theorem execute_along (ih : Lasting R host n) (s : Stmt Distance) :
    Along R (execute host (n + 1) s) := by
  cases s with
  | expression e => exact h.bind (ih.evaluate e) fun _ => h.pure _
  | print e =>
    apply h.bind (ih.evaluate e)
    intro v
    exact h.bind (h.print v) fun _ => h.pure _
  | varDecl x init =>
    cases init
    case' some e => apply h.bind (ih.evaluate e)
    case' none => apply h.bind (h.pure Value.nil)
    all_goals
      intro v
      apply Along.get
      intro m
      exact h.bind (h.bindVariable m.current x.lexeme v) fun _ => h.pure _
  | block body =>
    apply Along.get
    intro m
    exact h.bind (h.newFrame m.current) fun frame => h.within frame (ih.run body)
  | ifThen c s =>
    apply h.bind (ih.evaluate c)
    intro v
    exact .ite (ih.execute s) (h.pure _)
  | ifElse c s t =>
    apply h.bind (ih.evaluate c)
    intro v
    exact .ite (ih.execute s) (ih.execute t)
  | loop c s => exact ih.loop c s
  | funDecl r =>
    apply Along.get
    intro m
    apply h.bind (h.close r m.current false)
    intro f
    exact h.bind (h.bindVariable m.current r.name.lexeme (.function f)) fun _ => h.pure _
  | ret keyword value =>
    cases value with
    | some e => exact h.bind (ih.evaluate e) fun v => h.pure _
    | none => exact h.pure _
  | classDecl x sup methods =>
    have declares (c? : Option Class) : Along R (do
        declareClass x c? methods
        return Completion.normal) := h.bind (h.declareClass x c? methods) fun _ => h.pure _
    cases sup with
    | none => exact declares none
    | some ref =>
      apply h.bind (ih.evaluate (.var ref))
      intro v
      cases v with
      | klass c => exact declares (some c)
      | _ => exact h.throw _

theorem loop_along (ih : Lasting R host n) (c : Expr Distance) (s : Stmt Distance) :
    Along R (loop host (n + 1) c s) := by
  rw [loop]
  apply h.bind (h.heed host)
  intro _
  apply h.bind (ih.evaluate c)
  intro v
  refine .ite (h.bind (ih.execute s) fun done => ?_) (h.pure _)
  cases done with
  | normal => exact ih.loop c s
  | returned u => exact h.pure _

/-- Whatever construct is run, with however many steps, the relation holds. -/
theorem Lasts.lasting (host : Host) (n : Nat) : Lasting R host n := by
  induction n with
  | zero => exact h.zero
  | succ n ih =>
    exact {
      evaluate := evaluate_along h ih
      arguments := arguments_along h ih
      call := call_along h ih
      invoke := invoke_along h ih
      run := run_along h ih
      execute := execute_along h ih
      loop := loop_along h ih }

theorem Lasts.statements (host : Host) (steps : Nat) (ss : List (Stmt Distance)) :
    Along R (statements host steps ss) := by
  induction ss with
  | nil => exact h.pure _
  | cons s ss ih =>
    rw [Machine.statements]
    apply h.bind (h.heed host)
    intro _
    exact h.bind ((h.lasting host steps).execute s) fun _ => ih

end

end Machine

end LoxLang
