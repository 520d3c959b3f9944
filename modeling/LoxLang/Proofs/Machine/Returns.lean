import LoxLang.Proofs.Machine.Contained
import LoxLang.Proofs.Machine.Lawful

namespace LoxLang

namespace Journaled
set_option autoImplicit true
open Event (Calm Trail)
open Resolver (Body faults faults_append_nil faults_cons_nil ret_lawful)

/-- A step with a journal ends as the step of the machine does. What it has noted is that of a step
in this call that returns this value, if any. -/
inductive Ends (here : Option Nat) (out : α → Option Value) (R : α → Prop) (w : Journaled) :
    EStateM.Result Stop Journaled α → EStateM.Result Stop Machine α → Prop where
  | ok (w' : Journaled) : w'.machine.store.Lawful → R a → w'.events = w.events ++ us →
      Trail here w.events.length us (out a) → Ends here out R w (.ok a w') (.ok a w'.machine)
  | error (w' : Journaled) : w'.machine.store.Lawful → w'.events = w.events ++ us →
      Calm here w.events.length us → Ends here out R w (.error e w') (.error e w'.machine)

def Tells (here : Option Nat) (out : α → Option Value) (R : α → Prop) (P : Journal α)
    (Q : Eval α) : Prop :=
  ∀ w, w.machine.store.Lawful → Ends here out R w (P w) (Q w.machine)

/-- Of a value that is evaluated nothing is returned. -/
abbrev Yields (here : Option Nat) (R : α → Prop) (P : Journal α) (Q : Eval α) : Prop :=
  Tells here (fun _ => none) R P Q

abbrev Runs (here : Option Nat) (body : Body) (P : Journal Completion) (Q : Eval Completion) :
    Prop := Tells here Completion.value? (Completion.Lawful body) P Q

variable {here : Option Nat} {out : β → Option Value} {R : α → Prop} {S : β → Prop}

/-- What was noted before, while nothing was returned, goes first. -/
theorem Ends.after {w w' : Journaled} (hus : w'.events = w.events ++ us)
    (hcalm : Calm here w.events.length us) (h : Ends here out S w' r r') :
    Ends here out S w r r' := by
  have hlength : w'.events.length = w.events.length + us.length := by
    rw [hus, List.length_append]
  cases h with
  | ok w' hstore hb hts htrail =>
    rw [hlength] at htrail
    rw [hus, List.append_assoc] at hts
    exact .ok _ hstore hb hts (hcalm.trail htrail)
  | error w' hstore hts hnoted =>
    rw [hlength] at hnoted
    rw [hus, List.append_assoc] at hts
    exact .error _ hstore hts (hcalm.append hnoted)

theorem Tells.pure {b : β} (hb : S b) (hout : out b = none) :
    Tells here out S (Pure.pure b) (Pure.pure b) := by
  intro w hw
  apply Ends.ok w hw hb (List.append_nil _).symm
  rw [hout]
  exact .calm .nil

theorem Tells.throw (e : Stop) :
    Tells here out S (MonadExcept.throw e) (MonadExcept.throw e) :=
  fun w hw => .error w hw (List.append_nil _).symm .nil

theorem Tells.lift {Q : Eval α} (h : Machine.Obeys R Q) : Yields here R (lift Q) Q := by
  intro w hw
  have hq := h w.machine hw
  rw [Journaled.lift]
  cases hQ : Q w.machine with
  | ok a m =>
    rw [hQ] at hq
    exact .ok { w with machine := m } hq.1 hq.2 (List.append_nil _).symm (.calm .nil)
  | error e m =>
    rw [hQ] at hq
    exact .error { w with machine := m } hq (List.append_nil _).symm .nil

theorem Tells.bind {P : Journal α} {Q : Eval α} {F : α → Journal β} {G : α → Eval β}
    (h : Yields here R P Q) (hF : ∀ a, R a → Tells here out S (F a) (G a)) :
    Tells here out S (P >>= F) (Q >>= G) := by
  intro w hw
  have hp := h w hw
  change Ends here out S w (EStateM.bind P F w) (EStateM.bind Q G w.machine)
  rw [EStateM.bind, EStateM.bind]
  generalize P w = r at hp ⊢
  generalize Q w.machine = r' at hp ⊢
  cases hp with
  | ok w' hstore ha hus htrail =>
    exact (hF _ ha _ hstore).after hus htrail.of_none
  | error w' hstore hus hnoted => exact .error _ hstore hus hnoted

theorem Tells.map {P : Journal α} {Q : Eval α} {f : α → β} (h : Yields here R P Q)
    (hf : ∀ a, R a → S (f a)) (hout : ∀ a, out (f a) = none) :
    Tells here out S (P >>= fun a => Pure.pure (f a)) (Q >>= fun a => Pure.pure (f a)) :=
  h.bind fun a ha => .pure (hf a ha) (hout a)

/-- A statement that ends without a value is followed by another step; a value is passed on. -/
theorem Tells.next {P : Journal Completion} {Q : Eval Completion}
    {F : Completion → Journal Completion} {G : Completion → Eval Completion}
    (h : Runs here body P Q) (hnormal : Runs here body (F .normal) (G .normal))
    (hF : ∀ v, F (.returned v) = Pure.pure (.returned v))
    (hG : ∀ v, G (.returned v) = Pure.pure (.returned v)) :
    Runs here body (P >>= F) (Q >>= G) := by
  intro w hw
  have hp := h w hw
  change Ends _ _ _ w (EStateM.bind P F w) (EStateM.bind Q G w.machine)
  rw [EStateM.bind, EStateM.bind]
  generalize P w = r at hp ⊢
  generalize Q w.machine = r' at hp ⊢
  cases hp with
  | @ok done us w' hstore hdone hus htrail =>
    cases done with
    | normal => exact (hnormal w' hstore).after hus htrail.of_none
    | returned v =>
      dsimp only
      rw [hF, hG]
      exact .ok _ hstore hdone hus htrail
  | error w' hstore hus hnoted => exact .error _ hstore hus hnoted

theorem Tells.get {F : Journaled → Journal β} {G : Machine → Eval β}
    (h : ∀ w : Journaled, w.machine.store.Lawful → Tells here out S (F w) (G w.machine)) :
    Tells here out S (MonadState.get >>= F) (MonadState.get >>= G) := fun w hw => h w hw w hw

theorem Tells.ite {c : Prop} [Decidable c] {P P' : Journal β} {Q Q' : Eval β}
    (h : Tells here out S P Q) (h' : Tells here out S P' Q') :
    Tells here out S (if c then P else P') (if c then Q else Q') := by
  split
  · exact h
  · exact h'

/-- A function of the host learns how a step ended. What was noted of it stays. -/
theorem Tells.caught {P : Journal Value} {Q : Eval Value} (h : Yields here Value.Lawful P Q) :
    Yields here (fun r => Native.Heard r ∧ ∀ v, r = .ok v → v.Lawful) (Native.attempt P)
      (Native.attempt Q) := by
  intro w hw
  have hp := h w hw
  rw [Native.attempt, Native.attempt]
  generalize P w = r at hp ⊢
  generalize Q w.machine = r' at hp ⊢
  cases hp with
  | @ok v us w' hstore hv hus htrail =>
    apply Ends.ok w' hstore _ hus htrail
    refine ⟨.ok, fun u hu => ?_⟩
    cases hu
    exact hv
  | @error us e w' hstore hus hnoted =>
    dsimp only
    cases hfatal : e.isFatal with
    | true => exact .error w' hstore hus hnoted
    | false =>
      apply Ends.ok w' hstore _ hus (.calm hnoted)
      exact ⟨.error hfatal, fun u hu => by cases hu⟩

theorem Tells.note {e : Event} {P : Journal β} {Q : Eval β} (he : ∀ start, Calm here start [e])
    (h : Tells here out S P Q) : Tells here out S (note e >>= fun _ => P) Q := by
  intro w hw
  have hp := h { w with events := w.events ++ [e] } hw
  exact hp.after rfl (he _)

theorem Tells.raise (hv : Completion.Lawful body (.returned v)) :
    Runs here body (Journaled.note (.raises here v) >>= fun _ => Pure.pure (.returned v))
      (Pure.pure (.returned v)) :=
  fun w hw => .ok { w with events := w.events ++ [.raises here v] } hw hv rfl (.raised .nil)

theorem Tells.within {P : Journal β} {Q : Eval β} (h : Tells here out S P Q) (f : FrameId) :
    Tells here out S (within f P) (Machine.within f Q) := by
  intro w hw
  have hp := h { w with machine := { w.machine with current := f } } hw
  rw [Journaled.within, Machine.within]
  dsimp only at hp
  generalize P { w with machine := { w.machine with current := f } } = r at hp ⊢
  generalize Q { w.machine with current := f } = r' at hp ⊢
  cases hp with
  | @ok b us w' hstore hb hus htrail =>
    exact .ok { w' with machine := { w'.machine with current := w.machine.current } }
      hstore hb hus htrail
  | @error us e w' hstore hus hnoted =>
    exact .error { w' with machine := { w'.machine with current := w.machine.current } }
      hstore hus hnoted

theorem Tells.calling {P : Nat → Journal Completion} {Q : Eval Completion}
    (h : ∀ k, Runs (some k) body (P k) Q) (hinit : f.isInitializer = true → body = .initializer) :
    Yields here (Completion.Lawful body) (calling f P) Q := by
  intro w hw
  have hp := h w.events.length { w with events := w.events ++ [.enters w.events.length f] } hw
  rw [Journaled.calling]
  dsimp only at hp ⊢
  generalize P w.events.length { w with events := w.events ++ [.enters w.events.length f] } = r
    at hp ⊢
  generalize Q w.machine = r' at hp ⊢
  cases hp with
  | @ok done us w' hstore hdone hus htrail =>
    rw [List.length_append] at htrail
    have hcall : Calm here w.events.length
        (.enters w.events.length f :: (us ++ [.leaves w.events.length done])) := by
      apply htrail.calling
      intro hf v hv
      cases done with
      | normal => cases hv
      | returned u =>
        cases hv
        exact hdone.2.1 (hinit hf)
    apply Ends.ok { w' with events := w'.events ++ [.leaves w.events.length done] } hstore
      hdone _ (.calm hcall)
    dsimp only
    rw [hus]
    simp only [List.append_assoc, List.cons_append, List.nil_append]
  | @error us e w' hstore hus hnoted =>
    rw [List.length_append] at hnoted
    apply Ends.error { w' with events := w'.events ++ [.breaks w.events.length] } hstore _
      (.call hnoted (.broken (f := f)))
    dsimp only
    rw [hus]
    simp only [List.append_assoc, List.cons_append, List.nil_append]

variable {host : Host}

/-- What running with this many steps tells. A body is of the kind of the places around it. -/
structure Telling (host : Host) (n : Nat) : Prop where
  evaluate : ∀ {here} e,
    Yields here Value.Lawful (evaluate host n here e) (Machine.evaluate host n e)
  arguments : ∀ {here} es, Yields here (fun vs => ∀ v ∈ vs, Value.Lawful v)
    (arguments host n here es) (Machine.arguments host n es)
  call : ∀ {here v args}, v.Lawful → (∀ a ∈ args, Value.Lawful a) →
    v.Takes host.natives args.length →
    Yields here Value.Lawful (call host n v args) (Machine.call host n v args)
  invoke : ∀ {here f args}, f.Lawful → (∀ a ∈ args, Value.Lawful a) →
    Yields here Value.Lawful (invoke host n f args) (Machine.invoke host n f args)
  run : ∀ {here K ss}, faults (Stmt.placesAll K ss) = [] →
    Runs here K.body (run host n here ss) (Machine.run host n ss)
  execute : ∀ {here K s}, faults (Stmt.places K s) = [] →
    Runs here K.body (execute host n here s) (Machine.execute host n s)
  loop : ∀ {here K s} c, faults (Stmt.places K s) = [] →
    Runs here K.body (loop host n here c s) (Machine.loop host n c s)

theorem Telling.zero : Telling host 0 where
  evaluate _ := .throw _
  arguments _ := .throw _
  call _ _ _ := .throw _
  invoke _ _ := .throw _
  run _ := .throw _
  execute _ := .throw _
  loop _ _ := .throw _

theorem evaluate_tells (ih : Telling host n) (e : Expr Distance) :
    Yields here Value.Lawful (evaluate host (n + 1) here e) (Machine.evaluate host (n + 1) e) := by
  cases e with
  | literal v =>
    apply Tells.pure _ rfl
    rcases v with _ | ⟨b⟩ | ⟨x⟩ | ⟨t⟩ <;> trivial
  | grouping e => exact ih.evaluate e
  | unary op e =>
    apply (ih.evaluate e).bind
    intro v _
    exact .lift (Value.lawful.negate op v)
  | binary l op r =>
    apply (ih.evaluate l).bind
    intro left _
    apply (ih.evaluate r).bind
    intro right _
    exact .lift (Value.lawful.combine op left right)
  | logical l op r =>
    apply (ih.evaluate l).bind
    intro left hleft
    exact .ite (.pure hleft rfl) (ih.evaluate r)
  | var ref | this ref => exact .lift (Value.lawful.lookUp _ _)
  | assign ref e =>
    apply (ih.evaluate e).bind
    intro v hv
    exact (Tells.lift (Stock.assign trivial hv _)).map (fun _ _ => hv) fun _ => rfl
  | call f paren args =>
    apply (ih.evaluate f).bind
    intro callee hcallee
    apply (ih.arguments args).bind
    intro values hvalues
    cases harity : Machine.arity? host callee with
    | none => exact .lift (.throw _)
    | some k =>
      dsimp only
      split
      · rename_i hk
        exact ih.call hcallee hvalues (hk ▸ Value.takes_of_arity? harity)
      · exact .lift (.throw _)
  | get o name =>
    apply (ih.evaluate o).bind
    intro v hv
    cases v with
    | object id c => exact .lift (Value.lawful.property hv id name)
    | _ => exact .lift (.throw _)
  | set o name e =>
    apply (ih.evaluate o).bind
    intro v _
    cases v with
    | object id c =>
      apply (ih.evaluate e).bind
      intro u hu
      have hset : Machine.Obeys (fun _ => True) (modify fun m =>
          { m with store := m.store.setField id name.lexeme u }) :=
        Machine.Retains.modify fun m hm => hm.setField trivial hu id
      exact (Tells.lift hset).map (fun _ _ => hu) fun _ => rfl
    | _ => exact .lift (.throw _)
  | super ref method => exact .lift (Value.lawful.superMethod _ _)

theorem arguments_tells (ih : Telling host n) (es : List (Expr Distance)) :
    Yields here (fun vs => ∀ v ∈ vs, Value.Lawful v) (arguments host (n + 1) here es)
      (Machine.arguments host (n + 1) es) := by
  cases es with
  | nil => exact .pure (fun v hv => absurd hv List.not_mem_nil) rfl
  | cons e es =>
    apply (ih.evaluate e).bind
    intro v hv
    exact (ih.arguments es).map (fun vs hvs => List.forall_mem_cons.2 ⟨hv, hvs⟩) fun _ => rfl

theorem got_lawful {r : Except Stop Value} {given : List Value} (hr : ∀ v, r = .ok v → v.Lawful)
    (hgiven : ∀ v ∈ given, Value.Lawful v) : ∀ v ∈ Native.got r ++ given, v.Lawful := by
  cases r with
  | ok v => exact List.forall_mem_cons.2 ⟨hr v rfl, hgiven⟩
  | error e => exact hgiven

theorem request_lawful {q : Native.Request} (h : ∀ v ∈ q.values, Value.Lawful v) :
    q.Only (fun _ => True) Value.Lawful := by
  cases q with
  | make c => exact h (.klass c) List.mem_cons_self
  | setField id x v | define x v => exact ⟨trivial, h v List.mem_cons_self⟩
  | write | field | global | canceled => trivial

theorem act_tells {call : Value → List Value → Journal Value}
    {call' : Value → List Value → Eval Value}
    (hcall : ∀ {v args}, v.Lawful → (∀ a ∈ args, Value.Lawful a) →
      v.Takes host.natives args.length → Yields here Value.Lawful (call v args) (call' v args))
    {act : Native.Act} (h : act.Tame host.natives given)
    (hgiven : ∀ v ∈ given, Value.Lawful v) :
    Yields here Value.Lawful
      (act.perform (fun q => lift (Machine.serve host q))
        (fun id c name => lift (Machine.property id c name)) call)
      (act.perform (Machine.serve host) Machine.property call') := by
  induction h with
  | done hv => exact .pure (hv.lawful hgiven) rfl
  | fail => exact .throw _
  | ask hq _ ih =>
    have hlawful := request_lawful fun v hv => (hq v hv).lawful hgiven
    apply (Tells.lift (Value.lawful.serve host hlawful)).bind
    intro vs hvs
    exact ih vs fun v hv => (List.mem_append.1 hv).elim (hvs v) (hgiven v)
  | property hobject _ ih =>
    apply (Tells.lift (Value.lawful.property (hobject.lawful hgiven) _ _)).caught.bind
    intro r hr
    exact ih r hr.1 (got_lawful hr.2 hgiven)
  | call hf hargs htakes _ ih =>
    apply (hcall (hf.lawful hgiven) (fun a ha => (hargs a ha).lawful hgiven) htakes).caught.bind
    intro r hr
    exact ih r hr.1 (got_lawful hr.2 hgiven)

theorem call_tells (hN : ∀ native ∈ host.natives, native.Tame host.natives)
    (ih : Telling host n) (hv : v.Lawful) (hargs : ∀ a ∈ args, Value.Lawful a)
    (htakes : v.Takes host.natives args.length) :
    Yields here Value.Lawful (call host (n + 1) v args) (Machine.call host (n + 1) v args) := by
  cases v with
  | function f => exact ih.invoke hv hargs
  | klass c =>
    rw [call, Machine.call]
    apply (Tells.lift Stock.newObject).bind
    intro id _
    cases hinit : c.initializer? with
    | some init =>
      have hmethod : init.Lawful := Class.Lawful.findMethod hv hinit
      apply (Tells.lift (Value.lawful.bindMethod (v := .object id c) hmethod hv)).bind
      intro bound hbound
      exact (ih.invoke hbound hargs).map (fun _ _ => hv) fun _ => rfl
    | none => exact .pure hv rfl
  | native i =>
    rw [call, Machine.call]
    cases hnative : host.natives[i]? with
    | none => exact .lift (.throw _)
    | some native =>
      have htame := hN native (List.mem_of_getElem? hnative) host.now args
        (htakes native hnative).symm
      exact act_tells ih.call htame hargs
  | _ => exact .lift (.throw _)

theorem invoke_tells (ih : Telling host n) (hf : f.Lawful) (hargs : ∀ a ∈ args, Value.Lawful a) :
    Yields here Value.Lawful (invoke host (n + 1) f args) (Machine.invoke host (n + 1) f args) := by
  obtain ⟨K, -, hinit, hbody⟩ := hf
  rw [invoke, Machine.invoke]
  apply (Tells.lift (Stock.newFrame f.frame)).bind
  intro frame _
  apply (Tells.lift (Stock.bindParams (fun _ _ => trivial) hargs frame)).bind
  intro _ _
  apply (Tells.calling (fun k => (ih.run hbody).within frame) hinit).bind
  intro done hdone
  apply Tells.ite
  · apply Tells.get
    intro w hw
    cases hthis : w.machine.store.getAt? f.frame 0 "this" with
    | some v => exact .pure (Value.lawful.getAt? hw hthis) rfl
    | none => exact .lift (.throw _)
  · cases done with
    | returned v => exact .pure hdone.2.2 rfl
    | normal => exact .pure trivial rfl

theorem run_tells (ih : Telling host n) {K : Resolver.Surroundings} {ss : List (Stmt Distance)}
    (h : faults (Stmt.placesAll K ss) = []) :
    Runs here K.body (run host (n + 1) here ss) (Machine.run host (n + 1) ss) := by
  cases ss with
  | nil => exact .pure trivial rfl
  | cons s ss =>
    obtain ⟨hs, hss⟩ := faults_append_nil.1 h
    exact (ih.execute hs).next (ih.run (K := K.declare _) hss) (fun _ => rfl) fun _ => rfl

theorem loop_tells (ih : Telling host n) {K : Resolver.Surroundings} {s : Stmt Distance}
    (c : Expr Distance) (h : faults (s.places K) = []) :
    Runs here K.body (loop host (n + 1) here c s) (Machine.loop host (n + 1) c s) := by
  rw [loop, Machine.loop]
  apply (Tells.lift (Stock.heed host)).bind
  intro _ _
  apply (ih.evaluate c).bind
  intro v _
  exact .ite ((ih.execute h).next (ih.loop c h) (fun _ => rfl) fun _ => rfl) (.pure trivial rfl)

theorem execute_tells (ih : Telling host n) {K : Resolver.Surroundings} {s : Stmt Distance}
    (h : faults (s.places K) = []) :
    Runs here K.body (execute host (n + 1) here s) (Machine.execute host (n + 1) s) := by
  rw [execute.eq_def]
  apply Tells.note fun _ => .begins
  cases s with
  | expression e => exact (ih.evaluate e).map (fun _ _ => trivial) fun _ => rfl
  | print e =>
    apply (ih.evaluate e).bind
    intro v _
    exact (Tells.lift (Stock.print v)).map (fun _ _ => trivial) fun _ => rfl
  | varDecl name init =>
    have hrest (v : Value) (hv : v.Lawful) : Runs here K.body
        (do lift (Machine.bindVariable (← get).machine.current name.lexeme v)
            return Completion.normal)
        (do Machine.bindVariable (← get).current name.lexeme v
            return Completion.normal) := by
      apply Tells.get
      intro w _
      exact (Tells.lift (Stock.bindVariable trivial hv _)).map (fun _ _ => trivial) fun _ => rfl
    cases init with
    | none => exact Tells.bind (.pure (b := Value.nil) trivial rfl) hrest
    | some e => exact (ih.evaluate e).bind hrest
  | block body =>
    apply Tells.get
    intro w _
    apply (Tells.lift (Stock.newFrame _)).bind
    intro frame _
    exact (ih.run (K := K.enter) h).within frame
  | ifThen c s =>
    apply (ih.evaluate c).bind
    intro v _
    exact .ite (ih.execute (faults_append_nil.1 h).2) (.pure trivial rfl)
  | ifElse c s t =>
    obtain ⟨hs, ht⟩ := faults_append_nil.1 h
    apply (ih.evaluate c).bind
    intro v _
    exact .ite (ih.execute (faults_append_nil.1 hs).2) (ih.execute (K := K.declare _) ht)
  | loop c s => exact ih.loop c (faults_append_nil.1 h).2
  | funDecl r =>
    apply Tells.get
    intro w _
    have hclosure (serial : Nat) : Closure.Lawful ⟨serial, r, w.machine.current, false⟩ :=
      Stmt.routinePlaces_lawful (faults_cons_nil.1 h).2 Body.noConfusion
        (fun hinit => absurd hinit Bool.false_ne_true) serial _
    apply (Tells.lift (Stock.close (V := Value.Lawful) hclosure)).bind
    intro f hf
    exact (Tells.lift (Stock.bindVariable (v := .function f) trivial hf _)).map
      (fun _ _ => trivial) fun _ => rfl
  | ret word value =>
    obtain ⟨hbody, hvalue⟩ := ret_lawful (faults_cons_nil.1 h).1
    cases value with
    | none => exact .raise ⟨hbody, fun _ => rfl, trivial⟩
    | some e =>
      apply (ih.evaluate e).bind
      intro v hv
      apply Tells.raise
      exact ⟨hbody, fun hinit => absurd (hvalue hinit) (Option.some_ne_none e), hv⟩
  | classDecl name sup methods =>
    have hmethods := Stmt.methodPlaces_lawful (faults_append_nil.1 h).2
    have hrest (superclass : Option Class) (hsup : ∀ c ∈ superclass, c.Lawful) : Runs here K.body
        (do lift (Machine.declareClass name superclass methods)
            return Completion.normal)
        (do Machine.declareClass name superclass methods
            return Completion.normal) :=
      (Tells.lift (Value.lawful.declareClass (x := name) trivial hsup (fun _ _ => trivial)
        hmethods)).map (fun _ _ => trivial) fun _ => rfl
    cases sup with
    | none => exact hrest none fun c hc => nomatch hc
    | some ref =>
      apply (ih.evaluate (.var ref)).bind
      intro v hv
      cases v with
      | klass c =>
        apply hrest (some c)
        intro d hd
        cases hd
        exact hv
      | _ => exact Tells.bind (.lift (.throw _)) hrest

/-- Whatever is run with however many steps tells, by induction on their number. -/
theorem telling (hN : ∀ native ∈ host.natives, native.Tame host.natives) (n : Nat) :
    Telling host n := by
  induction n with
  | zero => exact .zero
  | succ n ih =>
    exact {
      evaluate := evaluate_tells ih
      arguments := arguments_tells ih
      call := call_tells hN ih
      invoke := invoke_tells ih
      run := run_tells ih
      execute := execute_tells ih
      loop := loop_tells ih }

theorem Tells.ordinary {P : Journal Completion} {Q : Eval Completion} (h : Runs here .none P Q) :
    Yields here (· = .normal) P Q := by
  intro w hw
  have hp := h w hw
  generalize P w = r at hp ⊢
  generalize Q w.machine = r' at hp ⊢
  cases hp with
  | @ok done us w' hstore hdone hus htrail =>
    cases done with
    | normal => exact .ok _ hstore rfl hus htrail
    | returned v => exact absurd rfl hdone.1
  | error w' hstore hus hnoted => exact .error _ hstore hus hnoted

theorem statements_tells (hN : ∀ native ∈ host.natives, native.Tame host.natives)
    (steps : Nat) {K : Resolver.Surroundings} (hK : K.body = .none) {ss : List (Stmt Distance)}
    (h : faults (Stmt.placesAll K ss) = []) :
    Yields none (fun _ => True) (statements host steps ss) (Machine.statements host steps ss) := by
  induction ss generalizing K with
  | nil => exact .pure trivial rfl
  | cons s ss ih =>
    obtain ⟨hs, hss⟩ := faults_append_nil.1 h
    have hrun : Runs none K.body (execute host steps none s) (Machine.execute host steps s) :=
      (telling hN steps).execute hs
    rw [hK] at hrun
    rw [statements, Machine.statements]
    apply (Tells.lift (Stock.heed host)).bind
    intro _ _
    apply hrun.ordinary.bind
    intro done hdone
    rw [hdone]
    exact .note (fun _ => .ended) (ih (K := K.declare _) hK hss)

/-- A step outside of every call does what the machine does, and what it notes keeps returns inside
calls. -/
theorem Tells.contained {P : Journal α} {Q : Eval α} (h : Yields none R P Q) {m : Machine}
    (hm : m.store.Lawful) :
    outcome (P ⟨m, []⟩) = Q m ∧ Event.Contained 0 (journal P m) := by
  have hp := h ⟨m, []⟩ hm
  rw [journal]
  dsimp only at hp
  generalize P ⟨m, []⟩ = r at hp ⊢
  generalize Q m = r' at hp ⊢
  cases hp with
  | ok w' _ _ hus htrail =>
    cases hus
    exact ⟨rfl, htrail.of_none.contained nofun⟩
  | error w' _ hus hnoted =>
    cases hus
    exact ⟨rfl, hnoted.contained nofun⟩

theorem Tells.attempt {P : Journal α} {Q : Eval α} (h : Yields none R P Q) {m : Machine}
    (hm : m.store.Lawful) : (Machine.attempt Q m).2.store.Lawful := by
  have hp := h ⟨m, []⟩ hm
  rw [Machine.attempt]
  dsimp only at hp
  generalize P ⟨m, []⟩ = r at hp
  generalize Q m = r' at hp ⊢
  cases hp with
  | ok w' hstore => exact hstore
  | error w' hstore => exact hstore

end Journaled

end LoxLang
