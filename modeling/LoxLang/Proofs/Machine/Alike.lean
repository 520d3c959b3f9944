import LoxLang.Proofs.Tree.Alike
import LoxLang.Machine.Eval

namespace LoxLang
set_option autoImplicit true

/-- Two maps with the same names in one order and related values. -/
def Dict.Alike (A : α → β → Prop) (d : Dict α) (d' : Dict β) : Prop :=
  List.Forall₂ (fun e e' => e'.1 = e.1 ∧ A e.2 e'.2) d d'

namespace Dict

theorem Alike.get? {A : α → β → Prop} {d : Dict α} {d' : Dict β} (h : d.Alike A d') (x : Text) :
    Option.Rel A (d.get? x) (d'.get? x) := by
  unfold Dict.get?
  induction h with
  | nil => exact .none
  | @cons e e' d d' he _ ih =>
    obtain ⟨y, a⟩ := e
    obtain ⟨y', b⟩ := e'
    obtain ⟨rfl, hab⟩ := he
    rw [List.lookup_cons, List.lookup_cons]
    dsimp only
    cases x == y' with
    | true => exact .some hab
    | false => exact ih

theorem Alike.has {A : α → β → Prop} {d : Dict α} {d' : Dict β} (h : d.Alike A d') (x : Text) :
    d'.has x = d.has x := by
  have hget := h.get? x
  unfold Dict.has
  generalize d.get? x = o, d'.get? x = o' at hget
  cases hget with
  | none => rfl
  | some => rfl

theorem Alike.set {A : α → β → Prop} {d : Dict α} {d' : Dict β} (h : d.Alike A d') (x : Text)
    (hab : A a b) : (d.set x a).Alike A (d'.set x b) := by
  induction h with
  | nil => exact .cons ⟨rfl, hab⟩ .nil
  | @cons e e' d d' he hd ih =>
    obtain ⟨y, a'⟩ := e
    obtain ⟨y', b'⟩ := e'
    obtain ⟨rfl, hab'⟩ := he
    rw [Dict.set, Dict.set]
    split
    · exact .cons ⟨rfl, hab⟩ hd
    · exact .cons ⟨rfl, hab'⟩ ih

theorem Alike.names {A : α → β → Prop} {d : Dict α} {d' : Dict β} (h : d.Alike A d') :
    d'.names = d.names := by
  have hfst : d'.map Prod.fst = d.map Prod.fst := by
    induction h with
    | nil => rfl
    | cons he _ ih => rw [List.map_cons, List.map_cons, he.1, ih]
  rw [Dict.names, Dict.names, hfst]

end Dict

section
variable (R : Token → Token → Prop)

/-- Two functions whose texts are alike. -/
inductive Closure.Alike : Closure → Closure → Prop where
  | mk : r.Alike R (Stmt.Alike R Eq) r' → Closure.Alike ⟨n, r, k, b⟩ ⟨n, r', k, b⟩

inductive Class.Alike : Class → Class → Prop where
  | base : Dict.Alike (Closure.Alike R) ms ms' →
      Class.Alike (.mk n x none ms) (.mk n x none ms')
  | derived : Class.Alike c c' → Dict.Alike (Closure.Alike R) ms ms' →
      Class.Alike (.mk n x (some c) ms) (.mk n x (some c') ms')

inductive Value.Alike : Value → Value → Prop where
  | nil : Value.Alike .nil .nil
  | bool : Value.Alike (.bool b) (.bool b)
  | number : Value.Alike (.number x) (.number x)
  | string : Value.Alike (.string t) (.string t)
  | native : Value.Alike (.native n) (.native n)
  | function : f.Alike R f' → Value.Alike (.function f) (.function f')
  | klass : c.Alike R c' → Value.Alike (.klass c) (.klass c')
  | object : c.Alike R c' → Value.Alike (.object n c) (.object n c')
  | absent : Value.Alike .absent .absent

inductive Frame.Alike : Frame → Frame → Prop where
  | mk : Dict.Alike (Value.Alike R) d d' → Frame.Alike ⟨d, p⟩ ⟨d', p⟩

/-- Two stores of one shape that hold values that are alike. -/
structure Store.Alike (s s' : Store) : Prop where
  size : s'.frames.size = s.frames.size
  frames : ∀ f : Nat, Option.Rel (Frame.Alike R) s.frames[f]? s'.frames[f]?
  count : s'.objects.size = s.objects.size
  objects : ∀ id : Nat, Option.Rel (Dict.Alike (Value.Alike R)) s.objects[id]? s'.objects[id]?
  serial : s'.serial = s.serial

/-- Two machines that differ in the tokens of their functions only, which are related. -/
structure Machine.Alike (m m' : Machine) : Prop where
  store : m.store.Alike R m'.store
  current : m'.current = m.current
  output : m'.output = m.output
  polls : m'.polls = m.polls

end

variable {R : Token → Token → Prop}

theorem Class.Alike.findMethod (h : Class.Alike R c c') (x : Text) :
    Option.Rel (Closure.Alike R) (c.findMethod x) (c'.findMethod x) := by
  induction h with
  | @base ms ms' _ _ hms =>
    have hx := hms.get? x
    unfold Class.findMethod
    generalize ms.get? x = o, ms'.get? x = o' at hx
    cases hx with
    | none => exact .none
    | some hm => exact .some hm
  | @derived _ _ ms ms' _ _ _ hms ih =>
    have hx := hms.get? x
    unfold Class.findMethod
    generalize ms.get? x = o, ms'.get? x = o' at hx
    cases hx with
    | none => exact ih
    | some hm => exact .some hm

theorem Class.Alike.mk {sup sup' : Option Class} (hs : Option.Rel (Class.Alike R) sup sup')
    {ms ms' : Dict Closure} (hms : ms.Alike (Closure.Alike R) ms') (n : Nat) (x : Text) :
    Class.Alike R (.mk n x sup ms) (.mk n x sup' ms') := by
  cases hs with
  | none => exact .base hms
  | some hc => exact .derived hc hms

theorem Class.Alike.name (h : Class.Alike R c c') : c'.name = c.name := by
  cases h with
  | base | derived => rfl

theorem Class.Alike.serial (h : Class.Alike R c c') : c'.serial = c.serial := by
  cases h with
  | base | derived => rfl

theorem Closure.Alike.arity (h : Closure.Alike R f f') : f'.arity = f.arity := by
  cases h with
  | mk hr =>
    cases hr with
    | mk _ hps => exact hps.length_eq.symm

theorem Class.Alike.arity (h : Class.Alike R c c') : c'.arity = c.arity := by
  have hinit := h.findMethod "init"
  unfold Class.arity Class.initializer?
  generalize c.findMethod "init" = o, c'.findMethod "init" = o' at hinit
  cases hinit with
  | none => rfl
  | some hf => exact hf.arity

namespace Value

theorem Alike.truthy (h : Alike R v v') : v'.truthy = v.truthy := by
  cases h with
  | _ => rfl

theorem Alike.same (h : Alike R v v') (hu : Alike R u u') : v'.same u' = v.same u := by
  cases h with
  | function hf =>
    cases hf with
    | mk =>
      cases hu with
      | function hg =>
        cases hg with
        | mk => rfl
      | _ => rfl
  | klass hc =>
    cases hu with
    | klass hd => rw [Value.same, Value.same, hc.serial, hd.serial]
    | _ => rfl
  | _ =>
    cases hu with
    | _ => rfl

theorem Alike.text? (hR : Spelled R) (h : Alike R v v') : v'.text? = v.text? := by
  cases h with
  | function hf =>
    cases hf with
    | mk hr => rw [Value.text?, Value.text?, Closure.name, Closure.name, (hR _ _ hr.name).2]
  | klass hc => rw [Value.text?, Value.text?, hc.name]
  | object hc => rw [Value.text?, Value.text?, hc.name]
  | _ => rfl

theorem ofLiteral_alike (l : Option Literal) : Alike R (ofLiteral l) (ofLiteral l) := by
  unfold ofLiteral
  split
  · exact .nil
  · exact .bool
  · exact .number
  · exact .string

end Value

namespace Store

theorem Alike.parent? (h : Alike R s s') (f : FrameId) : s'.parent? f = s.parent? f := by
  have hf := h.frames f
  unfold Store.parent?
  generalize s.frames[f]? = o, s'.frames[f]? = o' at hf
  cases hf with
  | none => rfl
  | some hf =>
    cases hf with
    | mk => rfl

theorem Alike.vars (h : Alike R s s') (f : FrameId) :
    Dict.Alike (Value.Alike R) (s.vars f) (s'.vars f) := by
  have hf := h.frames f
  unfold Store.vars
  generalize s.frames[f]? = o, s'.frames[f]? = o' at hf
  cases hf with
  | none => exact .nil
  | some hf =>
    cases hf with
    | mk hvars => exact hvars

theorem Alike.fields (h : Alike R s s') (id : Nat) :
    Dict.Alike (Value.Alike R) (s.fields id) (s'.fields id) := by
  have ho := h.objects id
  unfold Store.fields
  generalize s.objects[id]? = o, s'.objects[id]? = o' at ho
  cases ho with
  | none => exact .nil
  | some hfields => exact hfields

theorem Alike.define (h : Alike R s s') (f : FrameId) (x : Text) (hv : Value.Alike R v v') :
    Alike R (s.define f x v) (s'.define f x v') where
  size := by
    unfold Store.define
    rw [Array.size_modify, Array.size_modify, h.size]
  frames g := by
    have hg := h.frames g
    unfold Store.define
    dsimp only
    rw [Array.getElem?_modify, Array.getElem?_modify]
    split
    · generalize s.frames[g]? = o, s'.frames[g]? = o' at hg
      cases hg with
      | none => exact .none
      | some hf =>
        cases hf with
        | mk hvars => exact .some (.mk (hvars.set x hv))
    · exact hg
  count := h.count
  objects := h.objects
  serial := h.serial

theorem Alike.newFrame (h : Alike R s s') (p : Option FrameId) :
    (s'.newFrame p).1 = (s.newFrame p).1 ∧ Alike R (s.newFrame p).2 (s'.newFrame p).2 := by
  refine ⟨h.size, ?_, fun f => ?_, h.count, h.objects, h.serial⟩
  · unfold Store.newFrame
    rw [Array.size_push, Array.size_push, h.size]
  · have hf := h.frames f
    unfold Store.newFrame
    dsimp only
    rw [Array.getElem?_push, Array.getElem?_push, h.size]
    split
    · exact .some (.mk .nil)
    · exact hf

theorem Alike.newSerial (h : Alike R s s') :
    s'.newSerial.1 = s.newSerial.1 ∧ Alike R s.newSerial.2 s'.newSerial.2 :=
  ⟨h.serial, h.size, h.frames, h.count, h.objects, congrArg (· + 1) h.serial⟩

theorem Alike.newObject (h : Alike R s s') :
    s'.newObject.1 = s.newObject.1 ∧ Alike R s.newObject.2 s'.newObject.2 := by
  refine ⟨h.count, h.size, h.frames, ?_, fun id => ?_, h.serial⟩
  · unfold Store.newObject
    rw [Array.size_push, Array.size_push, h.count]
  · have hid := h.objects id
    unfold Store.newObject
    dsimp only
    rw [Array.getElem?_push, Array.getElem?_push, h.count]
    split
    · exact .some .nil
    · exact hid

theorem Alike.setField (h : Alike R s s') (id : Nat) (x : Text) (hv : Value.Alike R v v') :
    Alike R (s.setField id x v) (s'.setField id x v') where
  size := h.size
  frames := h.frames
  count := by
    unfold Store.setField
    rw [Array.size_modify, Array.size_modify, h.count]
  objects i := by
    have hi := h.objects i
    unfold Store.setField
    dsimp only
    rw [Array.getElem?_modify, Array.getElem?_modify]
    split
    · generalize s.objects[i]? = o, s'.objects[i]? = o' at hi
      cases hi with
      | none => exact .none
      | some hd => exact .some (hd.set x hv)
    · exact hi
  serial := h.serial

theorem Alike.holder? (h : Alike R s s') (x : Text) (f : FrameId) :
    s'.holder? x f = s.holder? x f := by
  induction f using Nat.strongRecOn with
  | ind f ih =>
    unfold Store.holder?
    rw [(h.vars f).has, h.parent?]
    split
    · rfl
    · cases s.parent? f with
      | none => rfl
      | some p =>
        dsimp only
        split
        · rename_i hlt
          exact ih p hlt
        · rfl

theorem Alike.get? (h : Alike R s s') (f : FrameId) (x : Text) :
    Option.Rel (Value.Alike R) (s.get? f x) (s'.get? f x) := by
  unfold Store.get?
  rw [h.holder?]
  cases s.holder? x f with
  | none => exact .none
  | some g => exact (h.vars g).get? x

theorem Alike.assign? (h : Alike R s s') (f : FrameId) (x : Text) (hv : Value.Alike R v v') :
    Option.Rel (Alike R) (s.assign? f x v) (s'.assign? f x v') := by
  unfold Store.assign?
  rw [h.holder?]
  cases s.holder? x f with
  | none => exact .none
  | some g => exact .some (h.define g x hv)

theorem Alike.ancestor? (h : Alike R s s') (f : FrameId) (n : Nat) :
    s'.ancestor? f n = s.ancestor? f n := by
  induction n generalizing f with
  | zero => rw [Store.ancestor?, Store.ancestor?, h.size]
  | succ n ih =>
    rw [Store.ancestor?, Store.ancestor?, h.parent?]
    exact congrArg _ (funext ih)

theorem Alike.getAt? (h : Alike R s s') (f : FrameId) (n : Nat) (x : Text) :
    Option.Rel (Value.Alike R) (s.getAt? f n x) (s'.getAt? f n x) := by
  unfold Store.getAt?
  rw [h.ancestor?]
  cases s.ancestor? f n with
  | none => exact .none
  | some g =>
    have hx := (h.vars g).get? x
    dsimp only [Option.map_some]
    generalize (s.vars g).get? x = o, (s'.vars g).get? x = o' at hx
    cases hx with
    | none => exact .some .nil
    | some hv => exact .some hv

theorem Alike.assignAt? (h : Alike R s s') (f : FrameId) (n : Nat) (x : Text)
    (hv : Value.Alike R v v') :
    Option.Rel (Alike R) (s.assignAt? f n x v) (s'.assignAt? f n x v') := by
  unfold Store.assignAt?
  rw [h.ancestor?]
  cases s.ancestor? f n with
  | none => exact .none
  | some g => exact .some (h.define g x hv)

end Store

def Closure.tokens (f : Closure) : List Token := Stmt.routineTokens f.routine

def Class.tokens : Class → List Token
  | .mk _ _ parent methods =>
    methods.flatMap (fun e => e.2.tokens) ++
      match parent with
      | some c => c.tokens
      | none => []

/-- The tokens of the functions that a value is made of. -/
def Value.tokens : Value → List Token
  | .function f => f.tokens
  | .klass c | .object _ c => c.tokens
  | _ => []

def Machine.Held (m : Machine) (t : Token) : Prop :=
  (∃ f : FrameId, ∃ e ∈ m.store.vars f, t ∈ e.2.tokens) ∨
    ∃ id : Nat, ∃ e ∈ m.store.fields id, t ∈ e.2.tokens

theorem Dict.alike_self {A : α → α → Prop} {d : Dict α} (h : ∀ e ∈ d, A e.2 e.2) : d.Alike A d :=
  List.forall₂_same.2 fun e he => ⟨rfl, h e he⟩

theorem Closure.alike_self {f : Closure} (h : ∀ t ∈ f.tokens, R t t) : f.Alike R f :=
  .mk (Stmt.routineAlike_self f.routine h)

theorem Class.alike_self (c : Class) (h : ∀ t ∈ c.tokens, R t t) : c.Alike R c := by
  obtain ⟨n, x, parent, methods⟩ := c
  unfold Class.tokens at h
  rw [List.forall_mem_append] at h
  have hms : methods.Alike (Closure.Alike R) methods :=
    Dict.alike_self fun e he =>
      Closure.alike_self fun t ht => h.1 t (List.mem_flatMap.2 ⟨e, he, ht⟩)
  cases parent with
  | none => exact .base hms
  | some c => exact .derived (Class.alike_self c h.2) hms

theorem Value.alike_self {v : Value} (h : ∀ t ∈ v.tokens, R t t) : v.Alike R v := by
  cases v with
  | nil => exact .nil
  | bool b => exact .bool
  | number x => exact .number
  | string t => exact .string
  | native n => exact .native
  | function f => exact .function (Closure.alike_self h)
  | klass c => exact .klass (Class.alike_self c h)
  | object id c => exact .object (Class.alike_self c h)
  | absent => exact .absent

theorem Machine.alike_self {m : Machine} (h : ∀ t, m.Held t → R t t) : m.Alike R m := by
  refine ⟨⟨rfl, fun f => ?_, rfl, fun id => ?_, rfl⟩, rfl, rfl, rfl⟩
  · cases hf : m.store.frames[f]? with
    | none => exact .none
    | some frame =>
      obtain ⟨vars, parent⟩ := frame
      have hvars : m.store.vars f = vars := by
        rw [Store.vars, hf]
        rfl
      refine .some (.mk (Dict.alike_self fun e he => Value.alike_self fun t ht => h t (.inl ?_)))
      exact ⟨f, e, hvars ▸ he, ht⟩
  · cases ho : m.store.objects[id]? with
    | none => exact .none
    | some fields =>
      have hfields : m.store.fields id = fields := by
        rw [Store.fields, ho]
        rfl
      refine .some (Dict.alike_self fun e he => Value.alike_self fun t ht => h t (.inr ?_))
      exact ⟨id, e, hfields ▸ he, ht⟩

end LoxLang
