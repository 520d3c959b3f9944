import LoxLang.Proofs.Machine.Keeping
import LoxLang.Proofs.Machine.Receiver

namespace LoxLang
set_option autoImplicit true

namespace Store

/-- Some variable or field has this value. -/
def Holds (s : Store) (v : Value) : Prop :=
  (∃ f x, (s.vars f).get? x = some v) ∨ ∃ id x, (s.fields id).get? x = some v

end Store

namespace Machine

/-- The frame that many steps out from the current one binds a name to a value. -/
def Binds (m : Machine) (d : Nat) (x : Text) (v : Value) : Prop :=
  ∃ g, m.store.ancestor? m.current d = some g ∧ (m.store.vars g).get? x = some v

theorem Binds.getAt? {m : Machine} (h : m.Binds d x v) :
    m.store.getAt? m.current d x = some v := by
  obtain ⟨g, hg, hv⟩ := h
  rw [Store.getAt?, hg, Option.map_some, hv]
  rfl

end Machine

/-- A copy of a method for an object: its frame, which lies in that of the method, binds `this`. -/
structure Closure.BoundTo (s : Store) (v : Value) (m f : Closure) : Prop where
  routine : f.routine = m.routine
  isInitializer : f.isInitializer = m.isInitializer
  frame : s.parent? f.frame = some m.frame
  receiver : (s.vars f.frame).get? "this" = some v

/-- If the function is an initializer then its frame binds `this` to an object. -/
def Closure.Seated (s : Store) (f : Closure) : Prop :=
  f.isInitializer → ∃ id c, (s.vars f.frame).get? "this" = some (.object id c)

namespace Sight

/-- `this` yields the receiver, which the frame at its distance binds. -/
def This (v : Sight) (ref : Reference Distance) : Prop :=
  ∃ id c d, v.context.receiver = some (id, c) ∧ ref.mark = some d ∧
    v.machine.Binds d "this" (.object id c) ∧ v.value = some (.object id c)

/-- Two adjacent frames bind `this` to the receiver and `super` to the superclass, and the nearest
method of this name at or above the superclass is bound to the receiver. -/
def Super (v : Sight) (ref : Reference Distance) (name : Token) : Prop :=
  ∃ id c parent k, v.context = ⟨some (id, c), some parent⟩ ∧ ref.mark = some (k + 1) ∧
    v.machine.Binds k "this" (.object id c) ∧
    v.machine.Binds (k + 1) "super" (.klass parent) ∧
    match parent.nearest? name.lexeme with
    | some m => ∃ f, v.value = some (.function f) ∧ m.BoundTo v.machine.store (.object id c) f
    | none => v.value = none

/-- The frames bind what the text says, and every initializer at hand has an object. -/
structure Sound (v : Sight) : Prop where
  this : ∀ ref, v.expr = .this ref → v.This ref
  super : ∀ ref name, v.expr = .super ref name → v.Super ref name
  held : ∀ f, v.machine.store.Holds (.function f) ∨ v.value = some (.function f) →
    f.Seated v.machine.store

end Sight

def Display.frame? (Δ : Display) (d : Nat) : Option FrameId := Δ[d]?.map Activation.frame

theorem Display.frame?_declare (x : Text) (Δ : Display) (d : Nat) :
    (Δ.declare x).frame? d = Δ.frame? d := by
  cases Δ with
  | nil => rfl
  | cons a Δ => cases d <;> rfl

/-- The frames of the scopes around a place bind what the context says. -/
structure Context.Fits (ctx : Context) (s : Store) (Δ : Display) : Prop where
  receiver : ∀ k, Δ.scopes.distance "this" = some k → ∃ g id c, Δ.frame? k = some g ∧
    ctx.receiver = some (id, c) ∧ (s.vars g).get? "this" = some (.object id c)
  parent : ∀ k, Δ.scopes.distance "this" = some k → Δ.scopes.distance "super" = some (k + 1) →
    ∃ g c, Δ.frame? (k + 1) = some g ∧ ctx.parent = some c ∧
      (s.vars g).get? "super" = some (.klass c)

/-- The frames around a function bind what its origin says. -/
structure Origin.Fits (o : Origin) (s : Store) (Δ : Display) : Prop where
  context : o.context.Fits s Δ
  parent : Δ.scopes.distance "super" = some 0 → ∃ g c, Δ.frame? 0 = some g ∧
    o.parent = some c ∧ (s.vars g).get? "super" = some (.klass c)

/-- The innermost scope is not that of a superclass, which holds methods only. -/
def Display.Inner (Δ : Display) : Prop := Δ.scopes.distance "super" ≠ some 0

namespace Context

theorem Fits.outside (s : Store) : outside.Fits s [] := ⟨nofun, nofun⟩

theorem Fits.keeps {ctx : Context} (h : ctx.Fits s Δ) (hs : s.Keeps new s') : ctx.Fits s' Δ := by
  refine ⟨fun k hk => ?_, fun k hk hk' => ?_⟩
  · obtain ⟨g, id, c, hg, hr, hv⟩ := h.receiver k hk
    exact ⟨g, id, c, hg, hr, hs.reserved g _ _ (.inl rfl) hv⟩
  · obtain ⟨g, c, hg, hp, hv⟩ := h.parent k hk hk'
    exact ⟨g, c, hg, hp, hs.reserved g _ _ (.inr rfl) hv⟩

theorem Fits.push {ctx : Context} (h : ctx.Fits s Δ) (f : FrameId)
    (hthis : ("this" : Text) ∉ names) : ctx.Fits s (⟨f, names⟩ :: Δ) := by
  have hshift {k : Nat} (hk : (Display.scopes (⟨f, names⟩ :: Δ)).distance "this" = some k) :
      ∃ d, Δ.scopes.distance "this" = some d ∧ k = d + 1 := by
    rw [Display.scopes, List.map_cons, Scopes.distance_cons, if_neg hthis] at hk
    obtain ⟨d, hd, rfl⟩ := Option.map_eq_some_iff.1 hk
    exact ⟨d, hd, rfl⟩
  refine ⟨fun k hk => ?_, fun k hk hk' => ?_⟩
  · obtain ⟨d, hd, rfl⟩ := hshift hk
    exact h.receiver d hd
  · obtain ⟨d, hd, rfl⟩ := hshift hk
    rw [Display.scopes, List.map_cons, Scopes.distance_cons] at hk'
    split at hk'
    · cases hk'
    · obtain ⟨e, he, heq⟩ := Option.map_eq_some_iff.1 hk'
      cases heq
      exact h.parent d hd he

theorem Fits.declare {ctx : Context} {x : Text} (h : ctx.Fits s Δ) (hx : ¬ x.Reserved) :
    ctx.Fits s (Δ.declare x) := by
  have hthis : (Δ.declare x).scopes.distance "this" = Δ.scopes.distance "this" := by
    rw [Display.scopes_declare, Scopes.distance_declare fun he => hx (.inl he.symm)]
  have hsuper : (Δ.declare x).scopes.distance "super" = Δ.scopes.distance "super" := by
    rw [Display.scopes_declare, Scopes.distance_declare fun he => hx (.inr he.symm)]
  refine ⟨fun k hk => ?_, fun k hk hk' => ?_⟩
  · rw [Display.frame?_declare]
    exact h.receiver k (hthis ▸ hk)
  · rw [Display.frame?_declare]
    exact h.parent k (hthis ▸ hk) (hsuper ▸ hk')

end Context

theorem Display.Inner.nil : Display.Inner [] := nofun

theorem Display.Inner.push (f : FrameId) {names : List Text} (hsuper : ("super" : Text) ∉ names)
    (Δ : Display) : Display.Inner (⟨f, names⟩ :: Δ) := by
  rw [Inner, scopes, List.map_cons, Scopes.distance_cons, if_neg hsuper]
  intro h
  obtain ⟨d, -, hd⟩ := Option.map_eq_some_iff.1 h
  cases hd

theorem Display.Inner.declare {Δ : Display} {x : Text} (h : Δ.Inner) (hx : ¬ x.Reserved) :
    (Δ.declare x).Inner := by
  rw [Inner, scopes_declare, Scopes.distance_declare fun he => hx (.inr he.symm)]
  exact h

namespace Origin

theorem Fits.keeps {o : Origin} (h : o.Fits s Δ) (hs : s.Keeps new s') : o.Fits s' Δ := by
  refine ⟨h.context.keeps hs, fun hzero => ?_⟩
  obtain ⟨g, c, hg, hp, hv⟩ := h.parent hzero
  exact ⟨g, c, hg, hp, hs.reserved g _ _ (.inr rfl) hv⟩

theorem Fits.function {ctx : Context} (h : ctx.Fits s Δ) (hΔ : Δ.Inner) :
    Origin.Fits ⟨ctx, none⟩ s Δ :=
  ⟨h, fun hzero => absurd hzero hΔ⟩

theorem Fits.bound {o : Origin} {id : Nat} (h : o.Fits s Δ)
    (hthis : (s.vars f).get? "this" = some (.object id c)) :
    Origin.Fits ⟨⟨some (id, c), o.parent⟩, none⟩ s (⟨f, ["this"]⟩ :: Δ) := by
  have hzero : (Display.scopes (⟨f, ["this"]⟩ :: Δ)).distance "this" = some 0 := by
    simp [Display.scopes, Scopes.distance_cons]
  refine .function ⟨fun k hk => ?_, fun k hk hk' => ?_⟩ (.push f (by decide) Δ)
  · cases hzero.symm.trans hk
    exact ⟨f, id, c, rfl, rfl, hthis⟩
  · cases hzero.symm.trans hk
    have hne : ("super" : Text) ∉ [("this" : Text)] := by decide
    rw [Display.scopes, List.map_cons, Scopes.distance_cons, if_neg hne] at hk'
    obtain ⟨d, hd, he⟩ := Option.map_eq_some_iff.1 hk'
    cases he
    exact h.parent hd

theorem Fits.method {ctx : Context} (h : ctx.Fits s Δ)
    (hsuper : (s.vars f).get? "super" = some (.klass c)) :
    Origin.Fits ⟨ctx, some c⟩ s (⟨f, ["super"]⟩ :: Δ) :=
  ⟨h.push f (by decide), fun _ => ⟨f, c, rfl, rfl, hsuper⟩⟩

end Origin

end LoxLang
