import LoxLang.Proofs.Machine.Alike

namespace LoxLang
set_option autoImplicit true

section
variable (R : Token → Token → Prop)

/-- Two stops for one reason, faults being told of at related tokens. -/
inductive Stop.Alike : Stop → Stop → Prop where
  | fault : R t t' → Stop.Alike (.fault ⟨t, message⟩) (.fault ⟨t', message⟩)
  | foreign : Stop.Alike (.foreign t) (.foreign t)
  | canceled : Stop.Alike .canceled .canceled
  | crash : Stop.Alike (.crash c) (.crash c)
  | exhausted : Stop.Alike .exhausted .exhausted

inductive Completion.Alike : Completion → Completion → Prop where
  | normal : Completion.Alike .normal .normal
  | returned : v.Alike R v' → Completion.Alike (.returned v) (.returned v')

namespace Native

inductive Answers : Except Stop Value → Except Stop Value → Prop where
  | ok : v.Alike R v' → Answers (.ok v) (.ok v')
  | error : e.Alike R e' → Answers (.error e) (.error e')

inductive Request.Alike : Request → Request → Prop where
  | write : Request.Alike (.write t) (.write t)
  | make : c.Alike R c' → Request.Alike (.make c) (.make c')
  | field {id : Nat} : Request.Alike (.field id x) (.field id x)
  | setField {id : Nat} : v.Alike R v' → Request.Alike (.setField id x v) (.setField id x v')
  | global : Request.Alike (.global x) (.global x)
  | define : v.Alike R v' → Request.Alike (.define x v) (.define x v')
  | canceled : Request.Alike .canceled .canceled

/-- Two functions of the host do the same as long as what they get is alike. -/
inductive Act.Alike : Act → Act → Prop where
  | done : v.Alike R v' → Act.Alike (.done v) (.done v')
  | fail : e.Alike R e' → Act.Alike (.fail e) (.fail e')
  | ask : q.Alike R q' →
      (∀ vs vs', List.Forall₂ (Value.Alike R) vs vs' → Act.Alike (rest vs) (rest' vs')) →
      Act.Alike (.ask q rest) (.ask q' rest')
  | property {id : Nat} : c.Alike R c' → R x x' →
      (∀ r r', Answers R r r' → Act.Alike (rest r) (rest' r')) →
      Act.Alike (.property id c x rest) (.property id c' x' rest')
  | call : f.Alike R f' → List.Forall₂ (Value.Alike R) args args' →
      (∀ r r', Answers R r r' → Act.Alike (rest r) (rest' r')) →
      Act.Alike (.call f args rest) (.call f' args' rest')

end Native

end

/-- A function of the host that does not look at where its arguments were written. -/
def Native.Blind (n : Native) : Prop :=
  ∀ R, Spelled R → ∀ now args args', List.Forall₂ (Value.Alike R) args args' →
    Native.Act.Alike R (n.run now args) (n.run now args')

theorem Native.standard_blind : ∀ n ∈ Native.standard, n.Blind := by
  intro n hn
  rw [List.mem_singleton.1 hn]
  intro R hR now args args' h
  exact .done .number

namespace Machine
variable {R : Token → Token → Prop}

theorem Alike.withStore (hm : Machine.Alike R m m') (hs : s.Alike R s') :
    Machine.Alike R { m with store := s } { m' with store := s' } :=
  ⟨hs, hm.current, hm.output, hm.polls⟩

/-- Two outcomes with related results, or with stops that are alike, and machines that are alike. -/
inductive Ends (R : Token → Token → Prop) (A : α → β → Prop) :
    EStateM.Result Stop Machine α → EStateM.Result Stop Machine β → Prop where
  | ok : A a b → m.Alike R m' → Ends R A (.ok a m) (.ok b m')
  | error : e.Alike R e' → m.Alike R m' → Ends R A (.error e m) (.error e' m')

/-- From machines that are alike two steps come to outcomes that are. -/
def RunsAlike (R : Token → Token → Prop) (A : α → β → Prop) (P : Eval α) (P' : Eval β) : Prop :=
  ∀ m m', m.Alike R m' → Ends R A (P m) (P' m')

theorem RunsAlike.pure {A : α → β → Prop} (h : A a b) :
    RunsAlike R A (Pure.pure a) (Pure.pure b) := fun _ _ hm => .ok h hm

theorem RunsAlike.throw {A : α → β → Prop} (h : e.Alike R e') :
    RunsAlike R A (MonadExcept.throw e) (MonadExcept.throw e') := fun _ _ hm => .error h hm

theorem RunsAlike.bind {A : α → β → Prop} {B : γ → δ → Prop} {P : Eval α} {P' : Eval β}
    {Q : α → Eval γ} {Q' : β → Eval δ} (h : RunsAlike R A P P')
    (hQ : ∀ a b, A a b → RunsAlike R B (Q a) (Q' b)) :
    RunsAlike R B (P >>= Q) (P' >>= Q') := by
  intro m m' hm
  have hends := h m m' hm
  change Ends R B (EStateM.bind P Q m) (EStateM.bind P' Q' m')
  unfold EStateM.bind
  generalize P m = o, P' m' = o' at hends
  cases hends with
  | ok ha hm => exact hQ _ _ ha _ _ hm
  | error he hm => exact .error he hm

theorem RunsAlike.get {B : γ → δ → Prop} {Q : Machine → Eval γ} {Q' : Machine → Eval δ}
    (h : ∀ m m', m.Alike R m' → RunsAlike R B (Q m) (Q' m')) :
    RunsAlike R B (MonadState.get >>= Q) (MonadState.get >>= Q') := fun m m' hm => h m m' hm m m' hm

theorem RunsAlike.set {m m' : Machine} (h : m.Alike R m') :
    RunsAlike R Anyhow (MonadStateOf.set m : Eval PUnit) (MonadStateOf.set m' : Eval PUnit) :=
  fun _ _ _ => .ok trivial h

theorem RunsAlike.modify {f f' : Machine → Machine}
    (h : ∀ m m', m.Alike R m' → (f m).Alike R (f' m')) :
    RunsAlike R Anyhow (MonadState.modifyGet fun m => (PUnit.unit, f m) : Eval PUnit)
      (MonadState.modifyGet fun m => (PUnit.unit, f' m) : Eval PUnit) :=
  fun m m' hm => .ok trivial (h m m' hm)

theorem RunsAlike.ite {c : Prop} [Decidable c] {A : α → β → Prop} {P Q : Eval α} {P' Q' : Eval β}
    (h : RunsAlike R A P P') (h' : RunsAlike R A Q Q') :
    RunsAlike R A (if c then P else Q) (if c then P' else Q') := by
  split
  · exact h
  · exact h'

theorem RunsAlike.within {A : α → β → Prop} {P : Eval α} {P' : Eval β} (h : RunsAlike R A P P')
    (f : FrameId) : RunsAlike R A (within f P) (within f P') := by
  intro m m' hm
  have hends := h { m with current := f } { m' with current := f }
    ⟨hm.store, rfl, hm.output, hm.polls⟩
  unfold Machine.within
  generalize P { m with current := f } = o, P' { m' with current := f } = o' at hends
  cases hends with
  | ok ha hm' => exact .ok ha ⟨hm'.store, hm.current, hm'.output, hm'.polls⟩
  | error he hm' => exact .error he ⟨hm'.store, hm.current, hm'.output, hm'.polls⟩

theorem fault_alike {A : α → β → Prop} (h : R t t') (message : Text) :
    RunsAlike R A (fault t message) (fault t' message) := .throw (.fault h)

theorem crash_alike {A : α → β → Prop} (c : Crash) : RunsAlike R A (crash c) (crash c) :=
  .throw .crash

theorem undefinedVariable_alike (hR : Spelled R) {A : α → β → Prop} (h : R x x') :
    RunsAlike R A (MonadExcept.throw (Stop.fault (.undefinedVariable x)))
      (MonadExcept.throw (Stop.fault (.undefinedVariable x'))) := by
  unfold RuntimeError.undefinedVariable
  rw [(hR _ _ h).2]
  exact .throw (.fault h)

theorem undefinedProperty_alike (hR : Spelled R) {A : α → β → Prop} (h : R x x') :
    RunsAlike R A (MonadExcept.throw (Stop.fault (.undefinedProperty x)))
      (MonadExcept.throw (Stop.fault (.undefinedProperty x'))) := by
  unfold RuntimeError.undefinedProperty
  rw [(hR _ _ h).2]
  exact .throw (.fault h)

theorem newFrame_alike (p : FrameId) : RunsAlike R Eq (newFrame p) (newFrame p) := by
  apply RunsAlike.get
  intro m m' hm
  obtain ⟨hf, hs⟩ := hm.store.newFrame (some p)
  exact (RunsAlike.set (hm.withStore hs)).bind fun _ _ _ => .pure hf.symm

theorem newSerial_alike : RunsAlike R Eq newSerial newSerial := by
  apply RunsAlike.get
  intro m m' hm
  obtain ⟨hn, hs⟩ := hm.store.newSerial
  exact (RunsAlike.set (hm.withStore hs)).bind fun _ _ _ => .pure hn.symm

theorem bindVariable_alike (f : FrameId) (x : Text) (hv : Value.Alike R v v') :
    RunsAlike R Anyhow (bindVariable f x v) (bindVariable f x v') :=
  .modify fun _ _ hm => hm.withStore (hm.store.define f x hv)

theorem newObject_alike : RunsAlike R Eq newObject newObject := by
  apply RunsAlike.get
  intro m m' hm
  obtain ⟨hid, hs⟩ := hm.store.newObject
  exact (RunsAlike.set (hm.withStore hs)).bind fun _ _ _ => .pure hid.symm

theorem Alike.write (hm : Machine.Alike R m m') (t : Text) :
    Machine.Alike R (m.write t) (m'.write t) :=
  ⟨hm.store, hm.current, congrArg (Array.push · t) hm.output, hm.polls⟩

theorem poll_alike (host : Host) : RunsAlike R Eq (poll host) (poll host) := by
  intro m m' hm
  unfold poll
  rw [hm.output, hm.polls]
  exact .ok rfl ⟨hm.store, hm.current, rfl, rfl⟩

theorem heed_alike (host : Host) : RunsAlike R Anyhow (heed host) (heed host) := by
  apply (poll_alike host).bind
  rintro told _ rfl
  exact .ite (.throw .canceled) (.pure trivial)

theorem print_alike (hR : Spelled R) (hv : Value.Alike R v v') :
    RunsAlike R Anyhow (print v) (print v') := by
  unfold print
  rw [hv.text? hR]
  cases v.text? with
  | none => exact crash_alike _
  | some t =>
    exact .modify fun _ _ hm => hm.write _

theorem lookUp_alike (hR : Spelled R) (h : R x x') (d : Distance) :
    RunsAlike R (Value.Alike R) (lookUp x d) (lookUp x' d) := by
  apply RunsAlike.get
  intro m m' hm
  cases d with
  | some n =>
    have hx := hm.store.getAt? m.current n x.lexeme
    dsimp only
    rw [hm.current, (hR _ _ h).2]
    generalize m.store.getAt? m.current n x.lexeme = o,
      m'.store.getAt? m.current n x.lexeme = o' at hx
    cases hx with
    | none => exact crash_alike _
    | some hv => exact .pure hv
  | none =>
    have hx := hm.store.get? globals x.lexeme
    dsimp only
    rw [(hR _ _ h).2]
    generalize m.store.get? globals x.lexeme = o, m'.store.get? globals x.lexeme = o' at hx
    cases hx with
    | none => exact undefinedVariable_alike hR h
    | some hv => exact .pure hv

theorem assign_alike (hR : Spelled R) (h : R x x') (d : Distance) (hv : Value.Alike R v v') :
    RunsAlike R Anyhow (assign x d v) (assign x' d v') := by
  apply RunsAlike.get
  intro m m' hm
  cases d with
  | some n =>
    have hs := hm.store.assignAt? m.current n x.lexeme hv
    dsimp only
    rw [hm.current, (hR _ _ h).2]
    generalize m.store.assignAt? m.current n x.lexeme v = o,
      m'.store.assignAt? m.current n x.lexeme v' = o' at hs
    cases hs with
    | none => exact crash_alike _
    | some hs => exact .set ⟨hs, rfl, hm.output, hm.polls⟩
  | none =>
    have hs := hm.store.assign? globals x.lexeme hv
    dsimp only
    rw [(hR _ _ h).2]
    generalize m.store.assign? globals x.lexeme v = o,
      m'.store.assign? globals x.lexeme v' = o' at hs
    cases hs with
    | none => exact undefinedVariable_alike hR h
    | some hs => exact .set (hm.withStore hs)

theorem negate_alike (hR : Spelled R) (h : R op op') (hv : Value.Alike R v v') :
    RunsAlike R (Value.Alike R) (negate op v) (negate op' v') := by
  unfold negate
  rw [(hR _ _ h).1]
  split
  · rw [hv.truthy]
    exact .pure .bool
  · cases hv with
    | number => exact .pure .number
    | _ => exact fault_alike h _
  · exact crash_alike _

theorem add_alike (h : R op op') (hv : Value.Alike R v v') (hu : Value.Alike R u u') :
    RunsAlike R (Value.Alike R) (add op v u) (add op' v' u') := by
  cases hv with
  | number =>
    cases hu with
    | number => exact .pure .number
    | _ => exact fault_alike h _
  | string =>
    cases hu with
    | string => exact .pure .string
    | _ => exact fault_alike h _
  | _ => exact fault_alike h _

theorem arithmetic_alike (hR : Spelled R) (h : R op op') (hv : Value.Alike R v v')
    (hu : Value.Alike R u u') :
    RunsAlike R (Value.Alike R) (arithmetic op v u) (arithmetic op' v' u') := by
  cases hv with
  | number =>
    cases hu with
    | number =>
      unfold arithmetic
      dsimp only
      rw [(hR _ _ h).1]
      cases op.kind with
      | minus | star | slash => exact .pure .number
      | greater | greaterEqual | less | lessEqual => exact .pure .bool
      | _ => exact crash_alike _
    | _ => exact fault_alike h _
  | _ => exact fault_alike h _

theorem combine_alike (hR : Spelled R) (h : R op op') (hv : Value.Alike R v v')
    (hu : Value.Alike R u u') :
    RunsAlike R (Value.Alike R) (combine op v u) (combine op' v' u') := by
  unfold combine
  rw [(hR _ _ h).1]
  split
  · rw [hv.same hu]
    exact .pure .bool
  · rw [hv.same hu]
    exact .pure .bool
  · exact add_alike h hv hu
  · exact arithmetic_alike hR h hv hu

theorem RunsAlike.attempt {P P' : Eval Value} (h : RunsAlike R (Value.Alike R) P P') :
    RunsAlike R (Native.Answers R) (Native.attempt P) (Native.attempt P') := by
  intro m m' hm
  have hends := h m m' hm
  unfold Native.attempt
  generalize P m = o, P' m' = o' at hends
  cases hends with
  | ok hv hm => exact .ok (.ok hv) hm
  | error he hm =>
    cases he with
    | fault ht => exact .ok (.error (.fault ht)) hm
    | foreign => exact .ok (.error .foreign) hm
    | canceled => exact .ok (.error .canceled) hm
    | crash => exact .error .crash hm
    | exhausted => exact .error .exhausted hm

theorem toList_alike {o o' : Option Value} (h : Option.Rel (Value.Alike R) o o') :
    List.Forall₂ (Value.Alike R) o.toList o'.toList := by
  cases h with
  | none => exact .nil
  | some hv => exact .cons hv .nil

theorem serve_alike (host : Host) (h : Native.Request.Alike R q q') :
    RunsAlike R (List.Forall₂ (Value.Alike R)) (serve host q) (serve host q') := by
  cases h with
  | write =>
    exact (RunsAlike.modify fun _ _ hm => hm.write _).bind fun _ _ _ => .pure .nil
  | make hc =>
    apply newObject_alike.bind
    rintro id _ rfl
    exact .pure (.cons (.object hc) .nil)
  | field =>
    apply RunsAlike.get
    intro m m' hm
    exact .pure (toList_alike ((hm.store.fields _).get? _))
  | setField hv =>
    refine (RunsAlike.modify fun _ _ hm => ?_).bind fun _ _ _ => .pure .nil
    exact hm.withStore (hm.store.setField _ _ hv)
  | global =>
    apply RunsAlike.get
    intro m m' hm
    exact .pure (toList_alike (hm.store.get? _ _))
  | define hv => exact (bindVariable_alike _ _ hv).bind fun _ _ _ => .pure .nil
  | canceled =>
    apply (poll_alike host).bind
    rintro told _ rfl
    exact .pure (.cons .bool .nil)

theorem close_alike (h : Routine.Alike R (Stmt.Alike R Eq) r r') (f : FrameId) (b : Bool) :
    RunsAlike R (Closure.Alike R) (close r f b) (close r' f b) := by
  apply newSerial_alike.bind
  rintro n _ rfl
  exact .pure (.mk h)

theorem bindMethod_alike (h : Closure.Alike R f f') (hv : Value.Alike R v v') :
    RunsAlike R (Closure.Alike R) (bindMethod f v) (bindMethod f' v') := by
  cases h with
  | mk hr =>
    apply (newFrame_alike _).bind
    rintro f _ rfl
    exact (bindVariable_alike f _ hv).bind fun _ _ _ => close_alike hr f _

theorem property_alike (hR : Spelled R) (id : Nat) (hc : Class.Alike R c c') (h : R x x') :
    RunsAlike R (Value.Alike R) (property id c x) (property id c' x') := by
  apply RunsAlike.get
  intro m m' hm
  have hfield := (hm.store.fields id).get? x.lexeme
  have hmethod := hc.findMethod x.lexeme
  rw [(hR _ _ h).2]
  generalize (m.store.fields id).get? x.lexeme = o,
    (m'.store.fields id).get? x.lexeme = o' at hfield
  cases hfield with
  | some hv => exact .pure hv
  | none =>
    generalize c.findMethod x.lexeme = o, c'.findMethod x.lexeme = o' at hmethod
    cases hmethod with
    | some hf =>
      exact (bindMethod_alike hf (.object hc)).bind fun _ _ hf => .pure (.function hf)
    | none => exact undefinedProperty_alike hR h

theorem superMethod_alike (hR : Spelled R) (d : Distance) (h : R x x') :
    RunsAlike R (Value.Alike R) (superMethod d x) (superMethod d x') := by
  apply RunsAlike.get
  intro m m' hm
  have hsuper := hm.store.getAt? m.current (d.getD 0) "super"
  have hthis := hm.store.getAt? m.current (d.getD 0 - 1) "this"
  dsimp only
  rw [hm.current, (hR _ _ h).2]
  generalize m.store.getAt? m.current (d.getD 0) "super" = o,
    m'.store.getAt? m.current (d.getD 0) "super" = o' at hsuper
  generalize m.store.getAt? m.current (d.getD 0 - 1) "this" = q,
    m'.store.getAt? m.current (d.getD 0 - 1) "this" = q' at hthis
  cases hsuper with
  | none => exact crash_alike _
  | some hparent =>
    cases hthis with
    | none => exact crash_alike _
    | some hreceiver =>
      cases hparent with
      | @klass c c' hc =>
        have hmethod := hc.findMethod x.lexeme
        dsimp only
        generalize c.findMethod x.lexeme = o, c'.findMethod x.lexeme = o' at hmethod
        cases hmethod with
        | none => exact undefinedProperty_alike hR h
        | some hf =>
          cases hreceiver with
          | object hd =>
            exact (bindMethod_alike hf (.object hd)).bind fun _ _ hf => .pure (.function hf)
          | _ => exact crash_alike _
      | _ => exact undefinedProperty_alike hR h

theorem bindParams_alike (hR : Spelled R) (f : FrameId) (h : List.Forall₂ R ps ps')
    (hv : List.Forall₂ (Value.Alike R) vs vs') :
    RunsAlike R Anyhow (bindParams f ps vs) (bindParams f ps' vs') := by
  induction h generalizing vs vs' with
  | nil => exact .pure trivial
  | @cons p p' _ _ hp _ ih =>
    cases hv with
    | nil => exact crash_alike _
    | cons hv hvs =>
      rw [bindParams, bindParams, (hR _ _ hp).2]
      exact (bindVariable_alike f _ hv).bind fun _ _ _ => ih hvs

theorem arity?_alike (host : Host) (h : Value.Alike R v v') :
    arity? host v' = arity? host v := by
  cases h with
  | function hf => rw [arity?, arity?, hf.arity]
  | klass hc => rw [arity?, arity?, hc.arity]
  | _ => rfl

theorem closeMethods_alike (hR : Spelled R) (f : FrameId)
    (h : List.Forall₂ (Routine.Alike R (Stmt.Alike R Eq)) rs rs') {ms ms' : Dict Closure}
    (hms : ms.Alike (Closure.Alike R) ms') :
    RunsAlike R (Dict.Alike (Closure.Alike R)) (closeMethods f rs ms) (closeMethods f rs' ms') := by
  induction h generalizing ms ms' with
  | nil => exact .pure hms
  | cons hr _ ih =>
    rw [closeMethods, closeMethods, (hR _ _ hr.name).2]
    apply (close_alike hr f _).bind
    intro g g' hg
    exact ih (hms.set _ hg)

theorem declareClass_alike (hR : Spelled R) (h : R x x') (hsup : Option.Rel (Class.Alike R) sup sup')
    (hms : List.Forall₂ (Routine.Alike R (Stmt.Alike R Eq)) rs rs') :
    RunsAlike R Anyhow (declareClass x sup rs) (declareClass x' sup' rs') := by
  unfold declareClass
  apply RunsAlike.get
  intro m m' hm
  rw [hm.current, (hR _ _ h).2]
  apply (bindVariable_alike _ _ .nil).bind
  intro _ _ _
  have hclass := hsup
  cases hsup
  -- A class with a superclass takes a frame that binds `super` first; the rest is the same.
  case' some hc =>
    apply (newFrame_alike _).bind
    rintro f _ rfl
    apply (bindVariable_alike f _ (.klass hc)).bind
    intro _ _ _
  all_goals
    apply (closeMethods_alike hR _ hms .nil).bind
    intro ms ms' hms
    apply newSerial_alike.bind
    rintro n _ rfl
    apply RunsAlike.get
    intro w w' hw
    have hs := hw.store.assign? m.current x.lexeme (.klass (.mk hclass hms n x.lexeme))
    generalize w.store.assign? m.current x.lexeme _ = o,
      w'.store.assign? m.current x.lexeme _ = o' at hs
    cases hs with
    | none => exact undefinedVariable_alike hR h
    | some hs => exact .set (hw.withStore hs)

end Machine

end LoxLang
