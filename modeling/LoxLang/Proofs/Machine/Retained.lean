import LoxLang.Machine.Eval
import LoxLang.Proofs.Machine.Chain

namespace LoxLang
set_option autoImplicit true

theorem Dict.mem_of_get? {d : Dict α} (h : d.get? x = some v) : (x, v) ∈ d := by
  obtain ⟨before, after, rfl, -⟩ := List.lookup_eq_some_iff.1 h
  simp

theorem Dict.mem_set {d : Dict α} (h : e ∈ d.set x v) : e = (x, v) ∨ e ∈ d := by
  induction d with
  | nil => exact .inl (List.mem_singleton.1 h)
  | cons e' rest ih =>
    rw [set] at h
    split at h
    · rename_i hx
      rcases List.mem_cons.1 h with h | h
      · exact .inl (hx ▸ h)
      · exact .inr (List.mem_cons_of_mem _ h)
    · rcases List.mem_cons.1 h with h | h
      · exact .inr (h ▸ List.mem_cons_self)
      · exact (ih h).imp_right (List.mem_cons_of_mem _)

/-- Each of these routines, as a method, is such a function wherever it is made. -/
def Stmt.Methods (V : Value → Prop) (rs : List (Routine (Stmt Distance))) : Prop :=
  ∀ r ∈ rs, ∀ serial frame,
    V (.function ⟨serial, r, frame, r.name.lexeme == ("init" : Text)⟩)

/-- Names and values of a kind. A class is of the kind if its methods and its superclass are, and a
function is for its text, wherever it was made. -/
structure Stock (N : Text → Prop) (V : Value → Prop) : Prop where
  nil : V .nil
  bool (b : Bool) : V (.bool b)
  number (x : Float) : V (.number x)
  string (t : Text) : V (.string t)
  this : N "this"
  super : N "super"
  object {c : Class} (id : Nat) : V (.klass c) → V (.object id c)
  method {c : Class} {f : Closure} {x : Text} : V (.klass c) → c.findMethod x = some f →
    V (.function f)
  bound {f : Closure} (serial : Nat) (frame : FrameId) : V (.function f) →
    V (.function ⟨serial, f.routine, frame, f.isInitializer⟩)
  made {parent : Option Class} {ms : Dict Closure} (serial : Nat) (x : Text) :
    (∀ e ∈ ms, N e.1 ∧ V (.function e.2)) → (∀ c ∈ parent, V (.klass c)) →
    V (.klass (.mk serial x parent ms))

/-- Only names and values of the kind are stored. -/
structure Store.Only (N : Text → Prop) (V : Value → Prop) (s : Store) : Prop where
  vars : ∀ f, ∀ e ∈ s.vars f, N e.1 ∧ V e.2
  fields : ∀ id, ∀ e ∈ s.fields id, N e.1 ∧ V e.2

namespace Store.Only

variable {N : Text → Prop} {V : Value → Prop} {s s' : Store} {v : Value}

theorem set {d : Dict Value} (h : ∀ e ∈ d, N e.1 ∧ V e.2) (hx : N x) (hv : V v) :
    ∀ e ∈ d.set x v, N e.1 ∧ V e.2 := by
  intro e he
  rcases Dict.mem_set he with rfl | he
  · exact ⟨hx, hv⟩
  · exact h e he

theorem define (h : s.Only N V) (hx : N x) (hv : V v) (f : FrameId) :
    (s.define f x v).Only N V := by
  constructor
  · intro g
    by_cases hg : g = f
    · subst hg
      by_cases hsize : g < s.frames.size
      · rw [Store.vars_define_self s x v hsize]
        exact set (h.vars g) hx hv
      · rw [Store.vars_of_size_le _ (by rw [Store.size_define]; exact Nat.le_of_not_lt hsize)]
        intro e he
        exact absurd he List.not_mem_nil
    · rw [Store.vars_define_of_ne s x v hg]
      exact h.vars g
  · exact h.fields

theorem newFrame (h : s.Only N V) (p : Option FrameId) : (s.newFrame p).2.Only N V := by
  constructor
  · intro f
    rw [Store.vars_newFrame]
    exact h.vars f
  · exact h.fields

theorem newSerial (h : s.Only N V) : s.newSerial.2.Only N V := ⟨h.vars, h.fields⟩

theorem newObject (h : s.Only N V) : s.newObject.2.Only N V := by
  constructor
  · exact h.vars
  · intro id
    rw [Store.fields_newObject]
    exact h.fields id

theorem setField (h : s.Only N V) (hx : N x) (hv : V v) (id : Nat) :
    (s.setField id x v).Only N V := by
  constructor
  · exact h.vars
  · intro id'
    rcases Store.fields_setField s id x v id' with hf | hf
    · rw [hf]
      exact h.fields id'
    · rw [hf]
      exact set (h.fields id') hx hv

theorem value (h : s.Only N V) (hv : (s.vars f).get? x = some v) : V v :=
  (h.vars f _ (Dict.mem_of_get? hv)).2

theorem get? (h : s.Only N V) (hv : s.get? f x = some v) : V v := by
  obtain ⟨g, hg⟩ := Store.get?_mem hv
  exact h.value hg

theorem assign? (h : s.Only N V) (hx : N x) (hv : V v) (ha : s.assign? f x v = some s') :
    s'.Only N V := by
  obtain ⟨g, -, rfl⟩ := Option.map_eq_some_iff.1 ha
  exact h.define hx hv g

theorem assignAt? (h : s.Only N V) (hx : N x) (hv : V v) (ha : s.assignAt? f d x v = some s') :
    s'.Only N V := by
  obtain ⟨g, -, rfl⟩ := Option.map_eq_some_iff.1 ha
  exact h.define hx hv g

theorem new (natives : List Native) (hx : ∀ f ∈ natives, N f.name) (hv : ∀ n, V (.native n)) :
    (Machine.new natives).store.Only N V := by
  have hempty : (Store.empty.newFrame none).2.Only N V := by
    constructor
    · intro f e he
      rw [Store.vars_newFrame] at he
      exact absurd he List.not_mem_nil
    · intro id e he
      rw [show (Store.empty.newFrame none).2.fields id = [] from Store.fields_empty id] at he
      exact absurd he List.not_mem_nil
  apply List.foldlRecOn natives.zipIdx _ hempty
  intro s hs e he
  exact hs.define (hx e.1 (List.fst_mem_of_mem_zipIdx he)) (hv e.2) Machine.globals

end Store.Only

theorem Stock.getAt? {N : Text → Prop} {V : Value → Prop} (k : Stock N V) {s : Store} {v : Value}
    (h : s.Only N V) (hv : s.getAt? f d x = some v) : V v := by
  obtain ⟨g, -, rfl⟩ := Option.map_eq_some_iff.1 hv
  cases hg : (s.vars g).get? x with
  | none => exact k.nil
  | some v => exact h.value hg

namespace Native

/-- A request stores only names and values of the kind. -/
def Request.Only (N : Text → Prop) (V : Value → Prop) : Request → Prop
  | make c => V (.klass c)
  | setField _ x v | define x v => N x ∧ V v
  | write _ | field _ _ | global _ | canceled => True

/-- A function of the host keeps to names and values of a kind as long as those it gets are. -/
inductive Act.Only (N : Text → Prop) (V : Value → Prop) : Act → Prop where
  | done : V v → Only N V (.done v)
  | fail : Only N V (.fail e)
  | ask : q.Only N V → (∀ vs, (∀ v ∈ vs, V v) → Only N V (rest vs)) → Only N V (.ask q rest)
  | property {id : Nat} : V (.klass c) →
      (∀ r : Except Stop Value, (∀ v, r = .ok v → V v) → Only N V (rest r)) →
      Only N V (.property id c x rest)
  | call : V f → (∀ v ∈ args, V v) →
      (∀ r : Except Stop Value, (∀ v, r = .ok v → V v) → Only N V (rest r)) →
      Only N V (.call f args rest)

end Native

namespace Machine

/-- A step stores only what is of the kind, and its result is such. -/
def Retains (N : Text → Prop) (V : Value → Prop) (R : α → Prop) (P : Eval α) : Prop :=
  ∀ m, m.store.Only N V → match P m with
    | .ok a m' => m'.store.Only N V ∧ R a
    | .error _ m' => m'.store.Only N V

section
variable {N : Text → Prop} {V : Value → Prop} {R : α → Prop} {S : β → Prop}

theorem Retains.pure (h : R a) : Retains N V R (Pure.pure a) := fun _ hm => ⟨hm, h⟩

theorem Retains.throw (e : Stop) : Retains N V R (MonadExcept.throw e) := fun _ hm => hm

theorem Retains.bind {P : Eval α} {F : α → Eval β} (h : Retains N V R P)
    (hF : ∀ a, R a → Retains N V S (F a)) : Retains N V S (P >>= F) := by
  intro m hm
  have hp := h m hm
  change match EStateM.bind P F m with
    | .ok a m' => m'.store.Only N V ∧ S a
    | .error _ m' => m'.store.Only N V
  rw [EStateM.bind]
  cases hP : P m with
  | ok a m' =>
    rw [hP] at hp
    exact hF a hp.2 m' hp.1
  | error e m' =>
    rw [hP] at hp
    exact hp

theorem Retains.map {P : Eval α} {f : α → β} (h : Retains N V R P) (hf : ∀ a, R a → S (f a)) :
    Retains N V S (P >>= fun a => Pure.pure (f a)) :=
  h.bind fun a ha => .pure (hf a ha)

theorem Retains.get {F : Machine → Eval β}
    (h : ∀ m, m.store.Only N V → Retains N V S (F m)) : Retains N V S (MonadState.get >>= F) :=
  fun m hm => h m hm m hm

theorem Retains.set {m : Machine} (hm : m.store.Only N V) :
    Retains N V (fun _ => True) (MonadStateOf.set m : Eval PUnit) := fun _ _ => ⟨hm, trivial⟩

theorem Retains.within {P : Eval α} (h : Retains N V R P) (f : FrameId) :
    Retains N V R (within f P) := by
  intro m hm
  have hp := h { m with current := f } hm
  rw [Machine.within]
  cases hP : P { m with current := f } with
  | ok a m' =>
    rw [hP] at hp
    exact hp
  | error e m' =>
    rw [hP] at hp
    exact hp

theorem Retains.attempt {P : Eval α} (h : Retains N V R P) :
    Retains N V (fun r : Except Stop α => ∀ a, r = .ok a → R a) (Native.attempt P) := by
  intro m hm
  have hp := h m hm
  unfold Native.attempt
  cases hP : P m with
  | ok a m' =>
    rw [hP] at hp
    refine ⟨hp.1, fun b hb => ?_⟩
    cases hb
    exact hp.2
  | error e m' =>
    rw [hP] at hp
    dsimp only at hp ⊢
    cases e.isFatal with
    | true => exact hp
    | false => exact ⟨hp, nofun⟩

theorem Retains.modify {f : Machine → Machine}
    (h : ∀ m, m.store.Only N V → (f m).store.Only N V) :
    Retains N V (fun _ => True) (MonadState.modifyGet fun m => (PUnit.unit, f m) : Eval PUnit) :=
  fun m hm => ⟨h m hm, trivial⟩

theorem Retains.silent {P : Eval α} (h : Retains N V R P) :
    Retains N V (fun vs : List Value => ∀ v ∈ vs, V v) (P >>= fun _ => Pure.pure []) :=
  h.map fun _ _ _ hv => absurd hv List.not_mem_nil

end

end Machine

namespace Stock
open Machine (Retains)

variable {N : Text → Prop} {V : Value → Prop} (k : Stock N V)

theorem newFrame (parent : FrameId) : Retains N V (fun _ => True) (Machine.newFrame parent) :=
  .get fun _ hm => (Retains.set (hm.newFrame _)).bind fun _ _ => .pure trivial

theorem bindVariable (hx : N x) (hv : V v) (f : FrameId) :
    Retains N V (fun _ => True) (Machine.bindVariable f x v) :=
  .modify fun _ hm => hm.define hx hv f

theorem newSerial : Retains N V (fun _ => True) Machine.newSerial :=
  .get fun _ hm => (Retains.set hm.newSerial).bind fun _ _ => .pure trivial

theorem newObject : Retains N V (fun _ => True) Machine.newObject :=
  .get fun _ hm => (Retains.set hm.newObject).bind fun _ _ => .pure trivial

theorem poll (host : Host) : Retains N V (fun _ => True) (Machine.poll host) :=
  fun _ hm => ⟨hm, trivial⟩

theorem heed (host : Host) : Retains N V (fun _ => True) (Machine.heed host) := by
  apply (poll host).bind
  intro told _
  split
  · exact .throw _
  · exact .pure trivial

theorem print (v : Value) : Retains N V (fun _ => True) (Machine.print v) := by
  unfold Machine.print
  split
  · exact .modify fun _ hm => hm
  · exact .throw _

theorem assign {x : Token} (hx : N x.lexeme) (hv : V v) (d : Distance) :
    Retains N V (fun _ => True) (Machine.assign x d v) := by
  apply Retains.get
  intro m hm
  cases d with
  | some n =>
    dsimp only
    split
    · rename_i s hs
      exact .set (m := { m with store := s }) (hm.assignAt? hx hv hs)
    · exact .throw _
  | none =>
    dsimp only
    split
    · rename_i s hs
      exact .set (m := { m with store := s }) (hm.assign? hx hv hs)
    · exact .throw _

theorem close {r : Routine (Stmt Distance)}
    (h : ∀ serial, V (.function ⟨serial, r, f, isInitializer⟩)) :
    Retains N V (fun g => V (.function g)) (Machine.close r f isInitializer) :=
  newSerial.map fun serial _ => h serial

theorem bindParams {ps : List Token} (hps : ∀ p ∈ ps, N p.lexeme) {vs : List Value}
    (hvs : ∀ v ∈ vs, V v) (f : FrameId) :
    Retains N V (fun _ => True) (Machine.bindParams f ps vs) := by
  induction ps generalizing vs with
  | nil => exact .pure trivial
  | cons p ps ih =>
    obtain ⟨hp, hps⟩ := List.forall_mem_cons.1 hps
    cases vs with
    | nil => exact .throw _
    | cons v vs =>
      obtain ⟨hv, hvs⟩ := List.forall_mem_cons.1 hvs
      exact (bindVariable hp hv f).bind fun _ _ => ih hps hvs

theorem closeMethods {rs : List (Routine (Stmt Distance))} (hnames : ∀ r ∈ rs, N r.name.lexeme)
    (hrs : Stmt.Methods V rs) {ms : Dict Closure} (hms : ∀ e ∈ ms, N e.1 ∧ V (.function e.2))
    (f : FrameId) : Retains N V (fun ms : Dict Closure => ∀ e ∈ ms, N e.1 ∧ V (.function e.2))
      (Machine.closeMethods f rs ms) := by
  induction rs generalizing ms with
  | nil => exact .pure hms
  | cons r rs ih =>
    obtain ⟨hname, hnames⟩ := List.forall_mem_cons.1 hnames
    obtain ⟨hr, hrs⟩ := List.forall_mem_cons.1 hrs
    apply (close fun serial => hr serial f).bind
    intro g hg
    apply ih hnames hrs
    intro e he
    rcases Dict.mem_set he with rfl | he
    · exact ⟨hname, hg⟩
    · exact hms e he

include k

theorem lookUp (x : Token) (d : Distance) : Retains N V V (Machine.lookUp x d) := by
  apply Retains.get
  intro m hm
  cases d with
  | some n =>
    dsimp only
    split
    · rename_i v hv
      exact .pure (k.getAt? hm hv)
    · exact .throw _
  | none =>
    dsimp only
    split
    · rename_i v hv
      exact .pure (hm.get? hv)
    · exact .throw _

theorem negate (op : Token) (v : Value) : Retains N V V (Machine.negate op v) := by
  unfold Machine.negate
  split
  · exact .pure (k.bool _)
  · split
    · exact .pure (k.number _)
    · exact .throw _
  · exact .throw _

theorem arithmetic (op : Token) (left right : Value) :
    Retains N V V (Machine.arithmetic op left right) := by
  unfold Machine.arithmetic
  split
  · split
    all_goals first | exact .pure (k.number _) | exact .pure (k.bool _) | exact .throw _
  · exact .throw _

theorem combine (op : Token) (left right : Value) :
    Retains N V V (Machine.combine op left right) := by
  unfold Machine.combine
  split
  · exact .pure (k.bool _)
  · exact .pure (k.bool _)
  · unfold Machine.add
    split
    · exact .pure (k.number _)
    · exact .pure (k.string _)
    · exact .throw _
  · exact k.arithmetic op left right

theorem bindMethod {f : Closure} (hf : V (.function f)) (hv : V v) :
    Retains N V (fun g => V (.function g)) (Machine.bindMethod f v) :=
  (newFrame f.frame).bind fun g _ =>
    (bindVariable k.this hv g).bind fun _ _ => close fun serial => k.bound serial g hf

theorem property {c : Class} (hc : V (.klass c)) (id : Nat) (x : Token) :
    Retains N V V (Machine.property id c x) := by
  apply Retains.get
  intro m hm
  split
  · rename_i v hv
    exact .pure (hm.fields id _ (Dict.mem_of_get? hv)).2
  · split
    · rename_i f hf
      exact (k.bindMethod (k.method hc hf) (k.object id hc)).map fun _ hg => hg
    · exact .throw _

theorem serve (host : Host) {q : Native.Request} (h : q.Only N V) :
    Retains N V (fun vs => ∀ v ∈ vs, V v) (Machine.serve host q) := by
  cases q with
  | write t =>
    exact (Retains.modify (f := fun m => m.write t) fun _ hm => hm).silent
  | make c =>
    refine newObject.map fun id _ v hv => ?_
    rw [List.mem_singleton.1 hv]
    exact k.object id h
  | field id x =>
    refine .get fun m hm => .pure fun v hv => ?_
    exact (hm.fields id _ (Dict.mem_of_get? (Option.mem_toList.1 hv))).2
  | setField id x v =>
    exact (Retains.modify (f := fun m => { m with store := m.store.setField id x v }) fun _ hm =>
      hm.setField h.1 h.2 id).silent
  | global x => exact .get fun m hm => .pure fun v hv => hm.get? (Option.mem_toList.1 hv)
  | define x v =>
    exact (bindVariable h.1 h.2 Machine.globals).silent
  | canceled =>
    refine (poll host).map fun told _ v hv => ?_
    rw [List.mem_singleton.1 hv]
    exact k.bool told

theorem act {host : Host} {call : Value → List Value → Eval Value}
    (hcall : ∀ {v args}, V v → (∀ a ∈ args, V a) → Retains N V V (call v args))
    {act : Native.Act} (h : act.Only N V) :
    Retains N V V (act.perform (Machine.serve host) Machine.property call) := by
  induction h with
  | done hv => exact .pure hv
  | fail => exact .throw _
  | ask hq _ ih => exact (k.serve host hq).bind ih
  | property hc _ ih => exact (k.property hc _ _).attempt.bind ih
  | call hf hargs _ ih => exact (hcall hf hargs).attempt.bind ih

theorem superMethod (d : Distance) (x : Token) : Retains N V V (Machine.superMethod d x) := by
  apply Retains.get
  intro m hm
  dsimp only
  split
  · rename_i parent receiver hparent hreceiver
    split
    · exact .throw _
    · rename_i f hf
      have hmethod : V (.function f) := by
        have hstored := k.getAt? hm hparent
        split at hf
        · exact k.method hstored hf
        · cases hf
      split
      · exact (k.bindMethod hmethod (k.getAt? hm hreceiver)).map fun _ hg => hg
      · exact .throw _
  · exact .throw _

theorem finishClass {x : Token} (hx : N x.lexeme) {sup : Option Class}
    (hsup : ∀ c ∈ sup, V (.klass c)) {rs : List (Routine (Stmt Distance))}
    (hnames : ∀ r ∈ rs, N r.name.lexeme) (hrs : Stmt.Methods V rs) (here frame : FrameId) :
    Retains N V (fun _ => True) (do
      let methods ← Machine.closeMethods frame rs []
      let c := Class.mk (← Machine.newSerial) x.lexeme sup methods
      let m ← get
      match m.store.assign? here x.lexeme (.klass c) with
      | some store => set { m with store }
      | none => throw (.fault (.undefinedVariable x)) : Eval Unit) := by
  apply (closeMethods hnames hrs (fun e he => absurd he List.not_mem_nil) frame).bind
  intro ms hms
  apply newSerial.bind
  intro n _
  apply Retains.get
  intro m hm
  have hclass : V (.klass (.mk n x.lexeme sup ms)) := k.made n x.lexeme hms hsup
  split
  · rename_i s hs
    exact .set (m := { m with store := s }) (hm.assign? hx hclass hs)
  · exact .throw _

theorem declareClass {x : Token} (hx : N x.lexeme) {sup : Option Class}
    (hsup : ∀ c ∈ sup, V (.klass c)) {rs : List (Routine (Stmt Distance))}
    (hnames : ∀ r ∈ rs, N r.name.lexeme) (hrs : Stmt.Methods V rs) :
    Retains N V (fun _ => True) (Machine.declareClass x sup rs) := by
  apply Retains.get
  intro m _
  apply (bindVariable hx k.nil m.current).bind
  intro _ _
  cases sup with
  | none => exact k.finishClass hx hsup hnames hrs _ _
  | some c =>
    apply (newFrame m.current).bind
    intro f _
    apply (bindVariable k.super (hsup c rfl) f).bind
    intro _ _
    exact k.finishClass hx hsup hnames hrs _ _

end Stock

end LoxLang
