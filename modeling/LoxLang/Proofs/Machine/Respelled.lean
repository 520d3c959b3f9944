import LoxLang.Proofs.Tree.Rename
import LoxLang.Proofs.Machine.Alike
import LoxLang.Proofs.Machine.Chain

namespace LoxLang
set_option autoImplicit true

/-- What is seen of a function without looking into its text. -/
structure Closure.Seems (f f' : Closure) : Prop where
  serial : f'.serial = f.serial
  name : f'.name = f.name
  arity : f'.arity = f.arity

section
variable (F M : Closure → Closure → Prop)

/-- Two classes of one shape with related methods. -/
inductive Class.Over : Class → Class → Prop where
  | base : Dict.Alike M ms ms' → Class.Over (.mk n x none ms) (.mk n x none ms')
  | derived : Class.Over c c' → Dict.Alike M ms ms' →
      Class.Over (.mk n x (some c) ms) (.mk n x (some c') ms')

/-- Two values of one shape, given when functions and when methods are related. -/
inductive Value.Over : Value → Value → Prop where
  | nil : Value.Over .nil .nil
  | bool : Value.Over (.bool b) (.bool b)
  | number : Value.Over (.number x) (.number x)
  | string : Value.Over (.string t) (.string t)
  | native : Value.Over (.native n) (.native n)
  | function : F f f' → Value.Over (.function f) (.function f')
  | klass : c.Over M c' → Value.Over (.klass c) (.klass c')
  | object : c.Over M c' → Value.Over (.object n c) (.object n c')
  | absent : Value.Over .absent .absent

end

theorem Dict.Alike.mono {A B : α → β → Prop} {d : Dict α} {d' : Dict β} (h : d.Alike A d')
    (hA : ∀ a b, A a b → B a b) : d.Alike B d' := h.imp fun _ _ he => ⟨he.1, hA _ _ he.2⟩

theorem Dict.Spelled.mono {E : Exchange} {A B : α → β → Prop} {d : Dict α} {d' : Dict β}
    (h : d.Spelled E hot A d') (hA : ∀ a b, A a b → B a b) : d.Spelled E hot B d' :=
  h.imp fun _ _ he => ⟨he.1, hA _ _ he.2⟩

section
variable {F F' M M' : Closure → Closure → Prop}

theorem Class.Over.mk {sup sup' : Option Class} (hs : Option.Rel (Class.Over M) sup sup')
    {ms ms' : Dict Closure} (hms : ms.Alike M ms') (n : Nat) (x : Text) :
    Class.Over M (.mk n x sup ms) (.mk n x sup' ms') := by
  cases hs with
  | none => exact .base hms
  | some hc => exact .derived hc hms

theorem Class.Over.mono (hM : ∀ f f', M f f' → M' f f') (h : Class.Over M c c') : c.Over M' c' := by
  induction h with
  | base hms => exact .base (hms.mono hM)
  | derived _ hms ih => exact .derived ih (hms.mono hM)

theorem Value.Over.mono (hF : ∀ f f', F f f' → F' f f') (hM : ∀ f f', M f f' → M' f f')
    (h : Value.Over F M v v') : v.Over F' M' v' := by
  cases h with
  | nil => exact .nil
  | bool => exact .bool
  | number => exact .number
  | string => exact .string
  | native => exact .native
  | function hf => exact .function (hF _ _ hf)
  | klass hc => exact .klass (hc.mono hM)
  | object hc => exact .object (hc.mono hM)
  | absent => exact .absent

theorem Class.Over.findMethod (h : Class.Over M c c') (x : Text) :
    Option.Rel M (c.findMethod x) (c'.findMethod x) := by
  induction h with
  | @base ms ms' _ _ hms =>
    have hx := hms.get? x
    unfold Class.findMethod
    generalize ms.get? x = o, ms'.get? x = o' at hx
    cases hx with
    | none => exact .none
    | some hm => exact .some hm
  | @derived _ _ ms ms' _ _ _ hms ih =>
    have hx := hms.get? x
    unfold Class.findMethod
    generalize ms.get? x = o, ms'.get? x = o' at hx
    cases hx with
    | none => exact ih
    | some hm => exact .some hm

theorem Class.Over.name (h : Class.Over M c c') : c'.name = c.name := by
  cases h with
  | base | derived => rfl

theorem Class.Over.serial (h : Class.Over M c c') : c'.serial = c.serial := by
  cases h with
  | base | derived => rfl

theorem Class.Over.arity (hM : ∀ f f', M f f' → f.Seems f') (h : Class.Over M c c') :
    c'.arity = c.arity := by
  have hinit := h.findMethod "init"
  unfold Class.arity Class.initializer?
  generalize c.findMethod "init" = o, c'.findMethod "init" = o' at hinit
  cases hinit with
  | none => rfl
  | some hf => exact (hM _ _ hf).arity

theorem Value.Over.truthy (h : Value.Over F M v v') : v'.truthy = v.truthy := by
  cases h with
  | _ => rfl

theorem Value.Over.same (hF : ∀ f f', F f f' → f.Seems f') (h : Value.Over F M v v')
    (hu : Value.Over F M u u') : v'.same u' = v.same u := by
  cases h with
  | function hf =>
    cases hu with
    | function hg => rw [Value.same, Value.same, (hF _ _ hf).serial, (hF _ _ hg).serial]
    | _ => rfl
  | klass hc =>
    cases hu with
    | klass hd => rw [Value.same, Value.same, hc.serial, hd.serial]
    | _ => rfl
  | _ =>
    cases hu with
    | _ => rfl

theorem Value.Over.text? (hF : ∀ f f', F f f' → f.Seems f') (h : Value.Over F M v v') :
    v'.text? = v.text? := by
  cases h with
  | function hf => rw [Value.text?, Value.text?, (hF _ _ hf).name]
  | klass hc => rw [Value.text?, Value.text?, hc.name]
  | object hc => rw [Value.text?, Value.text?, hc.name]
  | _ => rfl

theorem Value.ofLiteral_over (l : Option Literal) : (ofLiteral l).Over F M (ofLiteral l) := by
  unfold ofLiteral
  split
  · exact .nil
  · exact .bool
  · exact .number
  · exact .string

end

abbrev Atlas := FrameId → Option Legend

namespace Atlas

def Grows (W W' : Atlas) : Prop := ∀ f Λ, W f = some Λ → W' f = some Λ

theorem Grows.refl (W : Atlas) : W.Grows W := fun _ _ h => h

theorem Grows.trans {W W' W'' : Atlas} (h : W.Grows W') (h' : W'.Grows W'') : W.Grows W'' :=
  fun f Λ hf => h' f Λ (h f Λ hf)

def chart (W : Atlas) (f : FrameId) (Λ : Legend) : Atlas := Function.update W f (some Λ)

@[simp] theorem chart_self (W : Atlas) (f : FrameId) (Λ : Legend) : W.chart f Λ f = some Λ := by
  rw [chart, Function.update_self]

theorem chart_of_ne (W : Atlas) (Λ : Legend) (h : g ≠ f) : W.chart f Λ g = W g :=
  Function.update_of_ne h _ _

theorem grows_chart {W : Atlas} (h : W f = none) (Λ : Legend) : W.Grows (W.chart f Λ) := by
  intro g Λ' hg
  have hne : g ≠ f := by
    rintro rfl
    exact Option.some_ne_none _ (hg.symm.trans h)
  rw [chart_of_ne W Λ hne]
  exact hg

end Atlas

section
variable (E : Exchange)

/-- Two functions that are one in two spellings. Between a frame and the text of a function that was
made in it are the scopes that `into` adds. -/
inductive Closure.Spelled (into : Legend → Legend) (W : Atlas) : Closure → Closure → Prop where
  | mk : W k = some Λ → Routine.Spelled E (into Λ) r r' →
      Closure.Spelled into W ⟨n, r, k, b⟩ ⟨n, r', k, b⟩

/-- A method stands in the scope of its receiver, for which no frame is made yet. -/
abbrev Closure.SpelledMethod (W : Atlas) : Closure → Closure → Prop :=
  Closure.Spelled E (Legend.enter · false) W

abbrev Class.Spelled (W : Atlas) : Class → Class → Prop := Class.Over (Closure.SpelledMethod E W)

/-- Two values that are one in two spellings. -/
abbrev Value.Spelled (W : Atlas) : Value → Value → Prop :=
  Value.Over (Closure.Spelled E id W) (Closure.SpelledMethod E W)

/-- Two stores of one shape. The frames that have legends bind names that differ as these say. -/
structure Store.Spelled (W : Atlas) (s s' : Store) : Prop where
  size : s'.frames.size = s.frames.size
  parent : ∀ f, s'.parent? f = s.parent? f
  charted : ∀ f Λ, W f = some Λ → f < s.frames.size
  outer : ∀ f Λ p, W f = some Λ → s.parent? f = some p → W p = some Λ.outer
  vars : ∀ f Λ, W f = some Λ →
    Dict.Spelled E (Λ 0) (Value.Spelled E W) (s.vars f) (s'.vars f)
  count : s'.objects.size = s.objects.size
  objects : ∀ id : Nat,
    Option.Rel (Dict.Alike (Value.Spelled E W)) s.objects[id]? s'.objects[id]?
  serial : s'.serial = s.serial

/-- Two machines that run one program in two spellings. They are in a frame with the legend `Λ`. Global
names are spelled as they are. -/
structure Machine.Respelled (W : Atlas) (Λ : Legend) (m m' : Machine) : Prop where
  store : m.store.Spelled E W m'.store
  current : m'.current = m.current
  output : m'.output = m.output
  polls : m'.polls = m.polls
  here : W m.current = some Λ
  top : W Machine.globals = some .plain

end

variable {E : Exchange} {W W' : Atlas}

theorem Closure.Spelled.seems (f f' : Closure) (h : Closure.Spelled E into W f f') :
    f.Seems f' := by
  cases h with
  | mk _ hr =>
    cases hr with
    | mk => exact ⟨rfl, rfl, List.length_map _⟩

theorem Closure.Spelled.grows (hW : W.Grows W') (f f' : Closure)
    (h : Closure.Spelled E into W f f') : f.Spelled E into W' f' := by
  cases h with
  | mk hk hr => exact .mk (hW _ _ hk) hr

theorem Class.Spelled.grows (hW : W.Grows W') (h : Class.Spelled E W c c') :
    Class.Spelled E W' c c' := h.mono (Closure.Spelled.grows hW)

theorem Value.Spelled.grows (hW : W.Grows W') (v v' : Value) (h : Value.Spelled E W v v') :
    Value.Spelled E W' v v' := h.mono (Closure.Spelled.grows hW) (Closure.Spelled.grows hW)

namespace Store
variable {s s' : Store} {f : FrameId} {Λ : Legend} {v v' : Value}

theorem Spelled.fields (h : s.Spelled E W s') (id : Nat) :
    Dict.Alike (Value.Spelled E W) (s.fields id) (s'.fields id) := by
  have ho := h.objects id
  unfold Store.fields
  generalize s.objects[id]? = o, s'.objects[id]? = o' at ho
  cases ho with
  | none => exact .nil
  | some hfields => exact hfields

theorem Spelled.define (h : s.Spelled E W s') (hf : W f = some Λ) (x : Text)
    (hv : v.Spelled E W v') :
    (s.define f x v).Spelled E W (s'.define f (E.spell (Λ 0) x) v') where
  size := by rw [size_define, size_define, h.size]
  parent g := by rw [parent?_define, parent?_define, h.parent]
  charted g Λ' hg := by
    rw [size_define]
    exact h.charted g Λ' hg
  outer g Λ' p hg hp := by
    rw [parent?_define] at hp
    exact h.outer g Λ' p hg hp
  vars g Λ' hg := by
    by_cases he : g = f
    · subst he
      obtain rfl := Option.some.inj (hf.symm.trans hg)
      have hlt := h.charted g Λ hf
      rw [vars_define_self s x v hlt, vars_define_self s' _ v' (h.size ▸ hlt)]
      exact (h.vars g Λ hf).set x hv
    · rw [vars_define_of_ne s x v he, vars_define_of_ne s' _ v' he]
      exact h.vars g Λ' hg
  count := h.count
  objects := h.objects
  serial := h.serial

theorem Spelled.newFrame (h : s.Spelled E W s') (hp : W p = some Λ) (hot : Bool) :
    W.Grows (W.chart s.frames.size (Λ.enter hot)) ∧
      (s.newFrame (some p)).2.Spelled E (W.chart s.frames.size (Λ.enter hot))
        (s'.newFrame (some p)).2 := by
  have hnone : W s.frames.size = none := by
    cases hW : W s.frames.size with
    | none => rfl
    | some Λ' => exact absurd (h.charted _ _ hW) (Nat.lt_irrefl _)
  have hgrows := Atlas.grows_chart hnone (Λ.enter hot)
  have hold {f : FrameId} {Λ' : Legend} (hf : f ≠ s.frames.size)
      (h : W.chart s.frames.size (Λ.enter hot) f = some Λ') : W f = some Λ' := by
    rwa [Atlas.chart_of_ne W _ hf] at h
  refine ⟨hgrows, ?_, fun f => ?_, fun f Λ' hf => ?_, fun f Λ' q hf hq => ?_, fun f Λ' hf => ?_,
    h.count, fun id => ?_, h.serial⟩
  · rw [size_newFrame, size_newFrame, h.size]
  · have hf := h.parent f
    unfold Store.parent? at hf ⊢
    unfold Store.newFrame
    rw [Array.getElem?_push, Array.getElem?_push, h.size]
    split
    · rfl
    · exact hf
  · rw [size_newFrame]
    by_cases he : f = s.frames.size
    · exact he ▸ Nat.lt_succ_self _
    · exact Nat.lt_succ_of_lt (h.charted f Λ' (hold he hf))
  · by_cases he : f = s.frames.size
    · subst he
      rw [parent?_newFrame_self] at hq
      cases hq
      rw [Atlas.chart_self] at hf
      cases hf
      exact hgrows p Λ hp
    · have hf := hold he hf
      rw [parent?_newFrame_of_lt s _ (h.charted f Λ' hf)] at hq
      exact hgrows q _ (h.outer f Λ' q hf hq)
  · rw [vars_newFrame, vars_newFrame]
    by_cases he : f = s.frames.size
    · rw [he, vars_of_size_le s (Nat.le_refl _), vars_of_size_le s' (Nat.le_of_eq h.size)]
      exact .nil
    · exact (h.vars f Λ' (hold he hf)).mono (Value.Spelled.grows hgrows)
  · have hid := h.objects id
    unfold Store.newFrame
    generalize s.objects[id]? = o, s'.objects[id]? = o' at hid
    cases hid with
    | none => exact .none
    | some hd => exact .some (hd.mono (Value.Spelled.grows hgrows))

theorem Spelled.scope (h : s.Spelled E W s') (hp : W p = some Λ) {x : Text} (hx : x.Reserved)
    (hv : v.Spelled E W v') :
    W.Grows (W.chart s.frames.size (Λ.enter false)) ∧
      ((s.newFrame (some p)).2.define s.frames.size x v).Spelled E
        (W.chart s.frames.size (Λ.enter false))
        ((s'.newFrame (some p)).2.define s'.frames.size x v') := by
  obtain ⟨hW, hframe⟩ := h.newFrame hp false
  have hdefine := hframe.define (Atlas.chart_self _ _ _) x (hv.grows hW v v')
  rw [E.spell_reserved _ hx] at hdefine
  exact ⟨hW, h.size ▸ hdefine⟩

theorem Spelled.newSerial (h : s.Spelled E W s') : s.newSerial.2.Spelled E W s'.newSerial.2 :=
  ⟨h.size, h.parent, h.charted, h.outer, h.vars, h.count, h.objects, congrArg (· + 1) h.serial⟩

theorem Spelled.newObject (h : s.Spelled E W s') : s.newObject.2.Spelled E W s'.newObject.2 := by
  refine ⟨h.size, h.parent, h.charted, h.outer, h.vars, ?_, fun id => ?_, h.serial⟩
  · unfold Store.newObject
    rw [Array.size_push, Array.size_push, h.count]
  · have hid := h.objects id
    unfold Store.newObject
    dsimp only
    rw [Array.getElem?_push, Array.getElem?_push, h.count]
    split
    · exact .some .nil
    · exact hid

theorem Spelled.setField (h : s.Spelled E W s') (id : Nat) (x : Text) (hv : v.Spelled E W v') :
    (s.setField id x v).Spelled E W (s'.setField id x v') := by
  refine ⟨h.size, h.parent, h.charted, h.outer, h.vars, ?_, fun i => ?_, h.serial⟩
  · unfold Store.setField
    rw [Array.size_modify, Array.size_modify, h.count]
  · have hi := h.objects i
    unfold Store.setField
    dsimp only
    rw [Array.getElem?_modify, Array.getElem?_modify]
    split
    · generalize s.objects[i]? = o, s'.objects[i]? = o' at hi
      cases hi with
      | none => exact .none
      | some hd => exact .some (hd.set x hv)
    · exact hi

theorem Spelled.ancestor? (h : s.Spelled E W s') (f : FrameId) (n : Nat) :
    s'.ancestor? f n = s.ancestor? f n := by
  induction n generalizing f with
  | zero => rw [Store.ancestor?, Store.ancestor?, h.size]
  | succ n ih =>
    rw [Store.ancestor?, Store.ancestor?, h.parent]
    exact congrArg _ (funext ih)

theorem Spelled.reached (h : s.Spelled E W s') {n : Nat} (hf : W f = some Λ)
    (hg : s.ancestor? f n = some g) : ∃ Λ', W g = some Λ' ∧ Λ' 0 = Λ n := by
  induction n generalizing f Λ with
  | zero =>
    rw [Store.ancestor?] at hg
    split at hg
    · cases hg
      exact ⟨Λ, hf, rfl⟩
    · cases hg
  | succ n ih =>
    obtain ⟨p, hp, hg⟩ := Option.bind_eq_some_iff.1 hg
    exact ih (h.outer f Λ p hf hp) hg

theorem Spelled.getAt? (h : s.Spelled E W s') (hf : W f = some Λ) (n : Nat) (x : Text) :
    Option.Rel (Value.Spelled E W) (s.getAt? f n x) (s'.getAt? f n (E.spell (Λ n) x)) := by
  unfold Store.getAt?
  rw [h.ancestor?]
  cases hg : s.ancestor? f n with
  | none => exact .none
  | some g =>
    obtain ⟨Λ', hΛ', hname⟩ := h.reached hf hg
    have hx := (h.vars g Λ' hΛ').get? x
    rw [hname] at hx
    dsimp only [Option.map_some]
    generalize (s.vars g).get? x = o, (s'.vars g).get? (E.spell (Λ n) x) = o' at hx
    cases hx with
    | none => exact .some .nil
    | some hv => exact .some hv

theorem Spelled.getAt?_reserved (h : s.Spelled E W s') (hf : W f = some Λ) (n : Nat) {x : Text}
    (hx : x.Reserved) :
    Option.Rel (Value.Spelled E W) (s.getAt? f n x) (s'.getAt? f n x) := by
  have hget := h.getAt? hf n x
  rwa [E.spell_reserved _ hx] at hget

theorem Spelled.assignAt? (h : s.Spelled E W s') (hf : W f = some Λ) (n : Nat) (x : Text)
    (hv : v.Spelled E W v') :
    Option.Rel (Store.Spelled E W) (s.assignAt? f n x v)
      (s'.assignAt? f n (E.spell (Λ n) x) v') := by
  unfold Store.assignAt?
  rw [h.ancestor?]
  cases hg : s.ancestor? f n with
  | none => exact .none
  | some g =>
    obtain ⟨Λ', hΛ', hname⟩ := h.reached hf hg
    rw [← hname]
    exact .some (h.define hΛ' x hv)

theorem assign?_of_has (h : (s.vars f).has x) (v : Value) :
    s.assign? f x v = some (s.define f x v) := by
  rw [assign?, holder?_of_has h]
  rfl

theorem holder?_globals (s : Store) (x : Text) : s.holder? x Machine.globals =
    if (s.vars Machine.globals).has x then some Machine.globals else none := by
  unfold holder?
  split
  · rfl
  · cases s.parent? Machine.globals with
    | none => rfl
    | some p => exact if_neg (Nat.not_lt_zero p)

theorem Spelled.get?_globals (h : s.Spelled E W s') (ht : W Machine.globals = some .plain)
    (x : Text) :
    Option.Rel (Value.Spelled E W) (s.get? Machine.globals x) (s'.get? Machine.globals x) := by
  have hx := h.vars _ _ ht
  have hhas : (s'.vars Machine.globals).has x = (s.vars Machine.globals).has x := hx.has x
  unfold Store.get?
  rw [holder?_globals, holder?_globals, hhas]
  split
  · exact hx.get? x
  · exact .none

theorem Spelled.assign?_globals (h : s.Spelled E W s') (ht : W Machine.globals = some .plain)
    (x : Text) (hv : v.Spelled E W v') :
    Option.Rel (Store.Spelled E W) (s.assign? Machine.globals x v)
      (s'.assign? Machine.globals x v') := by
  have hhas : (s'.vars Machine.globals).has x = (s.vars Machine.globals).has x :=
    (h.vars _ _ ht).has x
  unfold Store.assign?
  rw [holder?_globals, holder?_globals, hhas]
  split
  · exact .some (h.define ht x hv)
  · exact .none

end Store

end LoxLang
