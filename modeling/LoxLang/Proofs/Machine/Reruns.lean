import LoxLang.Proofs.Machine.Keeps
import LoxLang.Proofs.Machine.Parallel
import LoxLang.Proofs.Machine.Respelled

namespace LoxLang
set_option autoImplicit true

def SameLine (t t' : Token) : Prop := t'.line = t.line

/-- Which functions and which methods are taken for one another. They seem the same. -/
structure Semblance where
  function : Closure → Closure → Prop
  method : Closure → Closure → Prop
  functions : ∀ f f', function f f' → f.Seems f'
  methods : ∀ f f', method f f' → f.Seems f'

namespace Semblance

structure Grows (S S' : Semblance) : Prop where
  function : ∀ f f', S.function f f' → S'.function f f'
  method : ∀ f f', S.method f f' → S'.method f f'

abbrev Value (S : Semblance) : Value → Value → Prop := Value.Over S.function S.method

abbrev Class (S : Semblance) : Class → Class → Prop := Class.Over S.method

end Semblance

namespace Native

/-- How two calls end. -/
inductive Gives (S : Semblance) : Except Stop Value → Except Stop Value → Prop where
  | ok : S.Value v v' → Gives S (.ok v) (.ok v')
  | error : e.Alike SameLine e' → Gives S (.error e) (.error e')

inductive Request.Over (S : Semblance) : Request → Request → Prop where
  | write : Request.Over S (.write t) (.write t)
  | make : S.Class c c' → Request.Over S (.make c) (.make c')
  | field {id : Nat} : Request.Over S (.field id x) (.field id x)
  | setField {id : Nat} : S.Value v v' → Request.Over S (.setField id x v) (.setField id x v')
  | global : Request.Over S (.global x) (.global x)
  | define : S.Value v v' → Request.Over S (.define x v) (.define x v')
  | canceled : Request.Over S .canceled .canceled

/-- Two functions of the host do the same, whatever else comes to be taken for one another while they
wait for an answer. -/
inductive Act.Over : Semblance → Act → Act → Prop where
  | done {S : Semblance} : S.Value v v' → Act.Over S (.done v) (.done v')
  | fail : e.Alike SameLine e' → Act.Over S (.fail e) (.fail e')
  | ask : Request.Over S q q' →
      (∀ S' : Semblance, S.Grows S' → ∀ vs vs', List.Forall₂ S'.Value vs vs' →
        Act.Over S' (rest vs) (rest' vs')) →
      Act.Over S (.ask q rest) (.ask q' rest')
  | property {S : Semblance} {id : Nat} : S.Class c c' →
      (∀ S' : Semblance, S.Grows S' → ∀ r r', Gives S' r r' → Act.Over S' (rest r) (rest' r')) →
      Act.Over S (.property id c x rest) (.property id c' x rest')
  | call {S : Semblance} : S.Value f f' → List.Forall₂ S.Value args args' →
      (∀ S' : Semblance, S.Grows S' → ∀ r r', Gives S' r r' → Act.Over S' (rest r) (rest' r')) →
      Act.Over S (.call f args rest) (.call f' args' rest')

end Native

/-- A function of the host that does not look into the text of functions. -/
def Native.Incurious (n : Native) : Prop :=
  ∀ S : Semblance, ∀ now args args', List.Forall₂ S.Value args args' →
    Native.Act.Over S (n.run now args) (n.run now args')

theorem Native.standard_incurious : ∀ n ∈ Native.standard, n.Incurious := by
  intro n hn
  rw [List.mem_singleton.1 hn]
  intro S now args args' h
  exact .done .number

namespace Machine

abbrev Any (_ : Atlas) (_ : α) (_ : β) : Prop := True

/-- Two outcomes with results that `A` relates, or with stops for one reason at one line, and with
machines that run one program in two spellings. -/
inductive Concur (E : Exchange) (Λ : Legend) (W : Atlas) (A : Atlas → α → β → Prop) :
    EStateM.Result Stop Machine α → EStateM.Result Stop Machine β → Prop where
  | ok : W.Grows W' → A W' a b → Machine.Respelled E W' Λ m m' → Concur E Λ W A (.ok a m) (.ok b m')
  | error : W.Grows W' → e.Alike SameLine e' → Machine.Respelled E W' Λ m m' →
      Concur E Λ W A (.error e m) (.error e' m')

/-- From machines that run one program in two spellings two steps come to outcomes that concur. -/
def Reruns (E : Exchange) (Λ : Legend) (W : Atlas) (A : Atlas → α → β → Prop) (P : Eval α)
    (P' : Eval β) : Prop := ∀ m m', m.Respelled E W Λ m' → Concur E Λ W A (P m) (P' m')

variable {E : Exchange} {W W' : Atlas} {Λ Λ' : Legend} {m m' : Machine} {s s' : Store}

theorem Respelled.withStore (hm : m.Respelled E W Λ m') (hW : W.Grows W') (hs : s.Spelled E W' s') :
    Machine.Respelled E W' Λ { m with store := s } { m' with store := s' } :=
  ⟨hs, hm.current, hm.output, hm.polls, hW _ _ hm.here, hW _ _ hm.top⟩

section
variable {A : Atlas → α → β → Prop} {B : Atlas → γ → δ → Prop}

theorem Concur.since (hW : W.Grows W') {o : EStateM.Result Stop Machine α}
    {o' : EStateM.Result Stop Machine β} (h : Concur E Λ W' A o o') : Concur E Λ W A o o' := by
  cases h with
  | ok hW' ha hm => exact .ok (hW.trans hW') ha hm
  | error hW' he hm => exact .error (hW.trans hW') he hm

theorem Reruns.pure (h : A W a b) : Reruns E Λ W A (Pure.pure a) (Pure.pure b) :=
  fun _ _ hm => .ok (.refl W) h hm

theorem Reruns.throw (h : e.Alike SameLine e') :
    Reruns E Λ W A (MonadExcept.throw e) (MonadExcept.throw e') :=
  fun _ _ hm => .error (.refl W) h hm

theorem Reruns.bind {P : Eval α} {P' : Eval β} {Q : α → Eval γ} {Q' : β → Eval δ}
    (h : Reruns E Λ W A P P')
    (hQ : ∀ W', W.Grows W' → ∀ a b, A W' a b → Reruns E Λ W' B (Q a) (Q' b)) :
    Reruns E Λ W B (P >>= Q) (P' >>= Q') := by
  intro m m' hm
  have hconcur := h m m' hm
  change Concur E Λ W B (EStateM.bind P Q m) (EStateM.bind P' Q' m')
  unfold EStateM.bind
  generalize P m = o, P' m' = o' at hconcur
  cases hconcur with
  | ok hW ha hm => exact (hQ _ hW _ _ ha _ _ hm).since hW
  | error hW he hm => exact .error hW he hm

theorem Reruns.get {Q : Machine → Eval γ} {Q' : Machine → Eval δ}
    (h : ∀ m m', m.Respelled E W Λ m' → Reruns E Λ W B (Q m) (Q' m')) :
    Reruns E Λ W B (MonadState.get >>= Q) (MonadState.get >>= Q') :=
  fun m m' hm => h m m' hm m m' hm

theorem Reruns.set {m m' : Machine} (hm : m.Respelled E W Λ m') :
    Reruns E Λ W Any (MonadStateOf.set m : Eval PUnit) (MonadStateOf.set m' : Eval PUnit) :=
  fun _ _ _ => .ok (.refl W) trivial hm

theorem Reruns.modify {f f' : Machine → Machine}
    (h : ∀ m m', m.Respelled E W Λ m' → (f m).Respelled E W Λ (f' m')) :
    Reruns E Λ W Any (MonadState.modifyGet fun m => (PUnit.unit, f m) : Eval PUnit)
      (MonadState.modifyGet fun m => (PUnit.unit, f' m) : Eval PUnit) :=
  fun m m' hm => .ok (.refl W) trivial (h m m' hm)

theorem Reruns.ite {c : Prop} [Decidable c] {P Q : Eval α} {P' Q' : Eval β}
    (h : Reruns E Λ W A P P') (h' : Reruns E Λ W A Q Q') :
    Reruns E Λ W A (if c then P else Q) (if c then P' else Q') := by
  split
  · exact h
  · exact h'

theorem Reruns.within {P : Eval α} {P' : Eval β} (hf : W f = some Λ')
    (h : Reruns E Λ' W A P P') : Reruns E Λ W A (within f P) (within f P') := by
  intro m m' hm
  have hconcur := h { m with current := f } { m' with current := f }
    ⟨hm.store, rfl, hm.output, hm.polls, hf, hm.top⟩
  have hback {W' : Atlas} {w w' : Machine} (hW : W.Grows W') (hw : w.Respelled E W' Λ' w') :
      Machine.Respelled E W' Λ { w with current := m.current } { w' with current := m'.current } :=
    ⟨hw.store, hm.current, hw.output, hw.polls, hW _ _ hm.here, hw.top⟩
  unfold Machine.within
  generalize P { m with current := f } = o, P' { m' with current := f } = o' at hconcur
  cases hconcur with
  | ok hW ha hw => exact .ok hW ha (hback hW hw)
  | error hW he hw => exact .error hW he (hback hW hw)

theorem fault_reruns (h : SameLine t t') (message : Text) :
    Reruns E Λ W A (fault t message) (fault t' message) := .throw (.fault h)

theorem crash_reruns (c : Crash) : Reruns E Λ W A (crash c) (crash c) := .throw .crash

theorem undefinedVariable_reruns (x : Token) :
    Reruns E Λ W A (MonadExcept.throw (Stop.fault (.undefinedVariable x)))
      (MonadExcept.throw (Stop.fault (.undefinedVariable x))) := .throw (.fault rfl)

theorem undefinedProperty_reruns (x : Token) :
    Reruns E Λ W A (MonadExcept.throw (Stop.fault (.undefinedProperty x)))
      (MonadExcept.throw (Stop.fault (.undefinedProperty x))) := .throw (.fault rfl)

end

theorem newFrame_reruns (hp : W p = some Λ') (hot : Bool) :
    Reruns E Λ W (fun W' f f' => f' = f ∧ W' f = some (Λ'.enter hot)) (newFrame p) (newFrame p) := by
  intro m m' hm
  obtain ⟨hW, hs⟩ := hm.store.newFrame hp hot
  exact .ok hW ⟨hm.store.size, Atlas.chart_self _ _ _⟩ (hm.withStore hW hs)

theorem newSerial_reruns : Reruns E Λ W (fun _ n n' => n' = n) newSerial newSerial :=
  fun _ _ hm => .ok (.refl W) hm.store.serial (hm.withStore (.refl W) hm.store.newSerial)

theorem bindVariable_reruns (hf : W f = some Λ') (x : Text) (hv : Value.Spelled E W v v') :
    Reruns E Λ W Any (bindVariable f x v) (bindVariable f (E.spell (Λ' 0) x) v') :=
  .modify fun _ _ hm => hm.withStore (.refl W) (hm.store.define hf x hv)

theorem bindReserved_reruns (hf : W f = some Λ') (hx : x.Reserved) (hv : Value.Spelled E W v v') :
    Reruns E Λ W Any (bindVariable f x v) (bindVariable f x v') := by
  have hbind := bindVariable_reruns (Λ := Λ) hf x hv
  rwa [E.spell_reserved _ hx] at hbind

theorem newObject_reruns : Reruns E Λ W (fun _ id id' => id' = id) newObject newObject :=
  fun _ _ hm => .ok (.refl W) hm.store.count (hm.withStore (.refl W) hm.store.newObject)

theorem Respelled.write (hm : m.Respelled E W Λ m') (t : Text) :
    (m.write t).Respelled E W Λ (m'.write t) :=
  ⟨hm.store, hm.current, congrArg (Array.push · t) hm.output, hm.polls, hm.here, hm.top⟩

theorem poll_reruns (host : Host) :
    Reruns E Λ W (fun _ told told' => told' = told) (poll host) (poll host) := by
  intro m m' hm
  unfold poll
  rw [hm.output, hm.polls]
  exact .ok (.refl W) rfl ⟨hm.store, hm.current, rfl, rfl, hm.here, hm.top⟩

theorem heed_reruns (host : Host) : Reruns E Λ W Any (heed host) (heed host) := by
  apply (poll_reruns host).bind
  rintro W' - told _ rfl
  exact .ite (.throw .canceled) (.pure trivial)

theorem print_reruns (hv : Value.Spelled E W v v') : Reruns E Λ W Any (print v) (print v') := by
  unfold print
  rw [hv.text? Closure.Spelled.seems]
  cases v.text? with
  | none => exact crash_reruns _
  | some t =>
    exact .modify fun _ _ hm => hm.write _

theorem lookUp_reruns (ref : Reference Distance) :
    Reruns E Λ W (Value.Spelled E) (lookUp ref.name ref.mark)
      (lookUp (ref.spell E Λ).name ref.mark) := by
  apply Reruns.get
  intro m m' hm
  cases hmark : ref.mark with
  | some n =>
    have hx := hm.store.getAt? hm.here n ref.name.lexeme
    simp only [Reference.spell, hmark, Option.any_some, Token.spell_lexeme]
    rw [hm.current]
    generalize m.store.getAt? m.current n ref.name.lexeme = o,
      m'.store.getAt? m.current n (E.spell (Λ n) ref.name.lexeme) = o' at hx
    cases hx with
    | none => exact crash_reruns _
    | some hv => exact .pure hv
  | none =>
    have hx := hm.store.get?_globals hm.top ref.name.lexeme
    simp only [Reference.spell, hmark, Option.any_none, Token.spell_false]
    generalize m.store.get? globals ref.name.lexeme = o,
      m'.store.get? globals ref.name.lexeme = o' at hx
    cases hx with
    | none => exact undefinedVariable_reruns _
    | some hv => exact .pure hv

theorem assign_reruns (ref : Reference Distance) (hv : Value.Spelled E W v v') :
    Reruns E Λ W Any (assign ref.name ref.mark v) (assign (ref.spell E Λ).name ref.mark v') := by
  apply Reruns.get
  intro m m' hm
  cases hmark : ref.mark with
  | some n =>
    have hs := hm.store.assignAt? hm.here n ref.name.lexeme hv
    simp only [Reference.spell, hmark, Option.any_some, Token.spell_lexeme]
    rw [hm.current]
    generalize m.store.assignAt? m.current n ref.name.lexeme v = o,
      m'.store.assignAt? m.current n (E.spell (Λ n) ref.name.lexeme) v' = o' at hs
    cases hs with
    | none => exact crash_reruns _
    | some hs => exact .set ⟨hs, rfl, hm.output, hm.polls, hm.here, hm.top⟩
  | none =>
    have hs := hm.store.assign?_globals hm.top ref.name.lexeme hv
    simp only [Reference.spell, hmark, Option.any_none, Token.spell_false]
    generalize m.store.assign? globals ref.name.lexeme v = o,
      m'.store.assign? globals ref.name.lexeme v' = o' at hs
    cases hs with
    | none => exact undefinedVariable_reruns _
    | some hs => exact .set (hm.withStore (.refl W) hs)

theorem negate_reruns (op : Token) (hv : Value.Spelled E W v v') :
    Reruns E Λ W (Value.Spelled E) (negate op v) (negate op v') := by
  unfold negate
  split
  · rw [hv.truthy]
    exact .pure .bool
  · cases hv with
    | number => exact .pure .number
    | _ => exact fault_reruns rfl _
  · exact crash_reruns _

theorem add_reruns (op : Token) (hv : Value.Spelled E W v v') (hu : Value.Spelled E W u u') :
    Reruns E Λ W (Value.Spelled E) (add op v u) (add op v' u') := by
  cases hv with
  | number =>
    cases hu with
    | number => exact .pure .number
    | _ => exact fault_reruns rfl _
  | string =>
    cases hu with
    | string => exact .pure .string
    | _ => exact fault_reruns rfl _
  | _ => exact fault_reruns rfl _

theorem arithmetic_reruns (op : Token) (hv : Value.Spelled E W v v')
    (hu : Value.Spelled E W u u') :
    Reruns E Λ W (Value.Spelled E) (arithmetic op v u) (arithmetic op v' u') := by
  cases hv with
  | number =>
    cases hu with
    | number =>
      unfold arithmetic
      dsimp only
      cases op.kind with
      | minus | star | slash => exact .pure .number
      | greater | greaterEqual | less | lessEqual => exact .pure .bool
      | _ => exact crash_reruns _
    | _ => exact fault_reruns rfl _
  | _ => exact fault_reruns rfl _

theorem combine_reruns (op : Token) (hv : Value.Spelled E W v v') (hu : Value.Spelled E W u u') :
    Reruns E Λ W (Value.Spelled E) (combine op v u) (combine op v' u') := by
  unfold combine
  rw [hv.same Closure.Spelled.seems hu]
  split
  · exact .pure .bool
  · exact .pure .bool
  · exact add_reruns op hv hu
  · exact arithmetic_reruns op hv hu

/-- Functions and methods are taken for one another as they are spelled in one program. -/
def semblance (E : Exchange) (W : Atlas) : Semblance :=
  ⟨Closure.Spelled E id W, Closure.SpelledMethod E W, Closure.Spelled.seems, Closure.Spelled.seems⟩

theorem semblance_grows (hW : W.Grows W') : (semblance E W).Grows (semblance E W') :=
  ⟨Closure.Spelled.grows hW, Closure.Spelled.grows hW⟩

theorem Reruns.attempt {P P' : Eval Value} (h : Reruns E Λ W (Value.Spelled E) P P') :
    Reruns E Λ W (fun W => Native.Gives (semblance E W)) (Native.attempt P)
      (Native.attempt P') := by
  intro m m' hm
  have hconcur := h m m' hm
  unfold Native.attempt
  generalize P m = o, P' m' = o' at hconcur
  cases hconcur with
  | ok hW hv hm => exact .ok hW (.ok hv) hm
  | error hW he hm =>
    cases he with
    | fault ht => exact .ok hW (.error (.fault ht)) hm
    | foreign => exact .ok hW (.error .foreign) hm
    | canceled => exact .ok hW (.error .canceled) hm
    | crash => exact .error hW .crash hm
    | exhausted => exact .error hW .exhausted hm

theorem toList_spelled {o o' : Option Value} (h : Option.Rel (Value.Spelled E W) o o') :
    List.Forall₂ (Value.Spelled E W) o.toList o'.toList := by
  cases h with
  | none => exact .nil
  | some hv => exact .cons hv .nil

theorem serve_reruns (host : Host) (h : Native.Request.Over (semblance E W) q q') :
    Reruns E Λ W (fun W => List.Forall₂ (Value.Spelled E W)) (serve host q) (serve host q') := by
  cases h with
  | write => exact (Reruns.modify fun _ _ hm => hm.write _).bind fun _ _ _ _ _ => .pure .nil
  | make hc =>
    apply newObject_reruns.bind
    rintro W' hW id _ rfl
    exact .pure (.cons (.object (Class.Spelled.grows hW hc)) .nil)
  | field =>
    apply Reruns.get
    intro m m' hm
    exact .pure (toList_spelled ((hm.store.fields _).get? _))
  | setField hv =>
    refine (Reruns.modify fun _ _ hm => ?_).bind fun _ _ _ _ _ => .pure .nil
    exact hm.withStore (.refl W) (hm.store.setField _ _ hv)
  | global =>
    apply Reruns.get
    intro m m' hm
    exact .pure (toList_spelled (hm.store.get?_globals hm.top _))
  | define hv =>
    refine (Reruns.modify fun _ _ hm => ?_).bind fun _ _ _ _ _ => .pure .nil
    exact hm.withStore (.refl W) (hm.store.define hm.top _ hv)
  | canceled =>
    apply (poll_reruns host).bind
    rintro W' - told _ rfl
    exact .pure (.cons .bool .nil)

theorem close_reruns (into : Legend → Legend) (hr : Routine.Spelled E (into Λ') r r')
    (hf : W f = some Λ') (b : Bool) :
    Reruns E Λ W (Closure.Spelled E into) (close r f b) (close r' f b) := by
  apply newSerial_reruns.bind
  rintro W' hW n _ rfl
  exact .pure (.mk (hW _ _ hf) hr)

theorem bindMethod_reruns (h : Closure.SpelledMethod E W f f') (hv : Value.Spelled E W v v') :
    Reruns E Λ W (Closure.Spelled E id) (bindMethod f v) (bindMethod f' v') := by
  cases h with
  | mk hk hr =>
    apply (newFrame_reruns hk false).bind
    rintro W₁ hW₁ f _ ⟨rfl, hf⟩
    apply (bindReserved_reruns hf (.inl rfl) (hv.grows hW₁ v v')).bind
    intro W₂ hW₂ _ _ _
    exact close_reruns id hr (hW₂ _ _ hf) _

theorem property_reruns (id : Nat) (hc : Class.Spelled E W c c') (x : Token) :
    Reruns E Λ W (Value.Spelled E) (property id c x) (property id c' x) := by
  apply Reruns.get
  intro m m' hm
  have hfield := (hm.store.fields id).get? x.lexeme
  have hmethod := hc.findMethod x.lexeme
  generalize (m.store.fields id).get? x.lexeme = o,
    (m'.store.fields id).get? x.lexeme = o' at hfield
  cases hfield with
  | some hv => exact .pure hv
  | none =>
    generalize c.findMethod x.lexeme = o, c'.findMethod x.lexeme = o' at hmethod
    cases hmethod with
    | some hf => exact (bindMethod_reruns hf (.object hc)).bind fun _ _ _ _ hf => .pure (.function hf)
    | none => exact undefinedProperty_reruns x

theorem superMethod_reruns (d : Distance) (x : Token) :
    Reruns E Λ W (Value.Spelled E) (superMethod d x) (superMethod d x) := by
  apply Reruns.get
  intro m m' hm
  have hsuper := hm.store.getAt?_reserved hm.here (d.getD 0) (.inr rfl : Text.Reserved "super")
  have hthis := hm.store.getAt?_reserved hm.here (d.getD 0 - 1) (.inl rfl : Text.Reserved "this")
  dsimp only
  rw [hm.current]
  generalize m.store.getAt? m.current (d.getD 0) "super" = o,
    m'.store.getAt? m.current (d.getD 0) "super" = o' at hsuper
  generalize m.store.getAt? m.current (d.getD 0 - 1) "this" = q,
    m'.store.getAt? m.current (d.getD 0 - 1) "this" = q' at hthis
  cases hsuper with
  | none => exact crash_reruns _
  | some hparent =>
    cases hthis with
    | none => exact crash_reruns _
    | some hreceiver =>
      cases hparent with
      | @klass c c' hc =>
        have hmethod := hc.findMethod x.lexeme
        dsimp only
        generalize c.findMethod x.lexeme = o, c'.findMethod x.lexeme = o' at hmethod
        cases hmethod with
        | none => exact undefinedProperty_reruns x
        | some hf =>
          cases hreceiver with
          | object hd =>
            exact (bindMethod_reruns hf (.object hd)).bind fun _ _ _ _ hf => .pure (.function hf)
          | _ => exact crash_reruns _
      | _ => exact undefinedProperty_reruns x

theorem bindParams_reruns (hf : W f = some Λ') (ps : List Token)
    (hv : List.Forall₂ (Value.Spelled E W) vs vs') :
    Reruns E Λ W Any (bindParams f ps vs)
      (bindParams f (ps.map (Token.spell E (Λ' 0))) vs') := by
  induction ps generalizing vs vs' W with
  | nil => exact .pure trivial
  | cons p ps ih =>
    cases hv with
    | nil => exact crash_reruns _
    | cons hv hvs =>
      apply (bindVariable_reruns hf p.lexeme hv).bind
      intro W' hW _ _ _
      exact ih (hW _ _ hf) (hvs.imp (Value.Spelled.grows hW))

theorem arity?_respelled (host : Host) (h : Value.Spelled E W v v') :
    arity? host v' = arity? host v := by
  cases h with
  | function hf => rw [arity?, arity?, (Closure.Spelled.seems _ _ hf).arity]
  | klass hc => rw [arity?, arity?, hc.arity Closure.Spelled.seems]
  | _ => rfl

theorem closeMethods_reruns (hf : W f = some Λ') (rs : List (Routine (Stmt Distance)))
    (h : Routines.Spelled E (Λ'.enter false) rs rs') {ms ms' : Dict Closure}
    (hms : ms.Alike (Closure.SpelledMethod E W) ms') :
    Reruns E Λ W (fun W' => Dict.Alike (Closure.SpelledMethod E W')) (closeMethods f rs ms)
      (closeMethods f rs' ms') := by
  induction rs generalizing rs' ms ms' W with
  | nil =>
    cases h with
    | nil => exact .pure hms
  | cons r rs ih =>
    obtain ⟨r', rs', rfl, hr, hrs⟩ := h.cons_inv
    rw [closeMethods, closeMethods, hr.name]
    apply (close_reruns (Legend.enter · false) hr hf _).bind
    intro W' hW g g' hg
    exact ih (hW _ _ hf) hrs ((hms.mono (Closure.Spelled.grows hW)).set _ hg)

theorem finishClass_concurs (hm : m.Respelled E W Λ m') {x : Token}
    (hx : E.spell (Λ 0) x.lexeme = x.lexeme) (hbound : (m.store.vars m.current).has x.lexeme)
    (hf : W f = some Λ') (hsame : f' = f) (hms : Routines.Spelled E (Λ'.enter false) rs rs')
    (hsup : Option.Rel (Class.Spelled E W) sup sup') :
    Concur E Λ W Any
      ((do
        let methods ← closeMethods f rs []
        let c := Class.mk (← newSerial) x.lexeme sup methods
        let w ← get
        match w.store.assign? m.current x.lexeme (.klass c) with
        | some store => set { w with store }
        | none => throw (.fault (.undefinedVariable x)) : Eval Unit) m)
      ((do
        let methods ← closeMethods f' rs' []
        let c := Class.mk (← newSerial) x.lexeme sup' methods
        let w ← get
        match w.store.assign? m.current x.lexeme (.klass c) with
        | some store => set { w with store }
        | none => throw (.fault (.undefinedVariable x)) : Eval Unit) m') := by
  subst hsame
  obtain ⟨ms, serial, hclosed⟩ := Watched.closeMethods_ok f' rs [] m
  have hconcur := closeMethods_reruns hf rs hms .nil m m' hm
  rw [hclosed] at hconcur
  change Concur E Λ W Any (EStateM.bind _ _ m) (EStateM.bind _ _ m')
  unfold EStateM.bind
  rw [hclosed]
  generalize closeMethods f' rs' [] m' = o' at hconcur
  cases hconcur with
  | @ok W₁ _ ms' _ w' hW hms hw =>
    have hhere := hW _ _ hm.here
    let s : Store := { m.store with serial := serial + 1 }
    let s' := w'.store.newSerial.2
    have hs : s.Spelled E W₁ s' := hw.store.newSerial
    have hbound : (s.vars m.current).has x.lexeme := hbound
    have hbound' : (s'.vars m.current).has x.lexeme := by
      have hhas := (hs.vars _ _ hhere).has x.lexeme
      rw [hx] at hhas
      exact hhas.trans hbound
    have hclass : Class.Spelled E W₁ (.mk serial x.lexeme sup ms)
        (.mk w'.store.serial x.lexeme sup' ms') := by
      rw [hw.store.serial]
      refine .mk ?_ hms _ _
      cases hsup with
      | none => exact .none
      | some hc => exact .some (hc.grows hW)
    have hdefine := hs.define hhere x.lexeme (.klass hclass)
    rw [hx] at hdefine
    change Concur E Λ W Any
      ((match s.assign? m.current x.lexeme _ with
        | some store => set { m with store }
        | none => throw (.fault (.undefinedVariable x)) : Eval Unit) { m with store := s })
      ((match s'.assign? m.current x.lexeme _ with
        | some store => set { w' with store }
        | none => throw (.fault (.undefinedVariable x)) : Eval Unit) { w' with store := s' })
    rw [Store.assign?_of_has hbound, Store.assign?_of_has hbound']
    exact .ok hW trivial ⟨hdefine, hw.current, hw.output, hw.polls, hhere, hw.top⟩

theorem declareClass_reruns (x : Token) (hx : E.spell (Λ 0) x.lexeme = x.lexeme)
    (hsup : Option.Rel (Class.Spelled E W) sup sup')
    (hms : Routines.Spelled E (Λ.ofClass sup.isSome) rs rs') :
    Reruns E Λ W Any (declareClass x sup rs) (declareClass x sup' rs') := by
  intro m m' hm
  obtain ⟨store', _, _, _⟩ := m'
  obtain rfl := hm.current
  obtain rfl := hm.output
  obtain rfl := hm.polls
  let s := m.store.define m.current x.lexeme .nil
  have hs : s.Spelled E W (store'.define m.current x.lexeme .nil) := by
    have hnil := hm.store.define hm.here x.lexeme .nil
    rwa [hx] at hnil
  have hbound : (s.vars m.current).has x.lexeme := by
    rw [Store.vars_define_self _ _ _ (hm.store.charted _ _ hm.here)]
    exact Store.has_set_self _ _ _
  cases hsup with
  | none => exact finishClass_concurs (hm.withStore (.refl W) hs) hx hbound hm.here rfl hms .none
  | @some c c' hc =>
    obtain ⟨hW, hsuper⟩ := hs.scope hm.here (.inr rfl : Text.Reserved "super") (.klass hc)
    have hself := Atlas.chart_self W s.frames.size (Λ.enter false)
    have hlt : m.current < s.frames.size := hs.charted _ _ hm.here
    have hbound : (((s.newFrame (some m.current)).2.define s.frames.size "super" (.klass c)).vars
        m.current).has x.lexeme := by
      rw [Store.vars_define_of_ne _ _ _ (Nat.ne_of_lt hlt), Store.vars_newFrame]
      exact hbound
    exact (finishClass_concurs (hm.withStore hW hsuper) hx hbound hself hs.size hms
      (.some (hc.grows hW))).since hW

end Machine

end LoxLang
