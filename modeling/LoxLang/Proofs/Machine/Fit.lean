import LoxLang.Proofs.Machine.Chain

namespace LoxLang
set_option autoImplicit true

variable {w w' : Watched}

namespace Visit

/-- A reference with this distance finds its binding: the frame so many steps out is the one made for
the nearest activation that declares the name, and unless the name is assigned it is bound there. -/
structure Finds (v : Visit) (d : Nat) (a : Activation) : Prop where
  activation : v.display[d]? = some a
  declares : v.name ∈ a.names
  nearest : ∀ i < d, ∀ b, v.display[i]? = some b → v.name ∉ b.names
  frame : v.store.ancestor? v.current d = some a.frame
  bound : v.use ≠ .assign → ∃ value, (v.store.vars a.frame).get? v.name = some value

/-- A reference with a distance finds its binding. -/
def Sound (v : Visit) : Prop := ∀ d, v.mark = some d → ∃ a, v.Finds d a

end Visit

section
variable (T : Token → Prop)

/-- The frames around a function are those of the activations it was made in. -/
structure Closure.Placed (w : Watched) (f : Closure) : Prop where
  serial : f.serial < w.machine.store.serial
  chain : (w.homes f.serial).Chain w.machine.store f.frame
  filled : (w.homes f.serial).Filled w.machine.store none

/-- A function that can be called. That of an initializer has its receiver in the innermost scope. -/
structure Closure.Fits (w : Watched) (f : Closure) : Prop extends f.Placed w where
  resolved : f.routine.Scoped T (w.homes f.serial).scopes
  receiver : f.isInitializer → ∃ a Δ, w.homes f.serial = a :: Δ ∧ ("this" : Text) ∈ a.names

structure Closure.FitsMethod (w : Watched) (f : Closure) : Prop extends f.Placed w where
  resolved : f.routine.Scoped T (["this"] :: (w.homes f.serial).scopes)

/-- The methods of a class and of its ancestors fit. -/
inductive Class.Fits (w : Watched) : Class → Prop where
  | mk {ms : Dict Closure} : (∀ x m, ms.get? x = some m → Closure.FitsMethod T w m) →
      (∀ c ∈ parent, Class.Fits w c) → Class.Fits w (.mk n x parent ms)

/-- A value that running programs may come by, with this many functions of the host. -/
def Value.Fits (natives : Nat) (w : Watched) : Value → Prop
  | .function f => f.Fits T w
  | .klass c | .object _ c => c.Fits T w
  | .native i => i < natives
  | .absent => False
  | .nil | .bool _ | .number _ | .string _ => True

/-- A machine that only ran resolved programs. -/
structure Watched.Fits (natives : Nat) (w : Watched) : Prop where
  size : Machine.globals < w.machine.store.frames.size
  root : w.machine.store.parent? Machine.globals = none
  vars : ∀ f x v, (w.machine.store.vars f).get? x = some v → v.Fits T natives w
  fields : ∀ id x v, (w.machine.store.fields id).get? x = some v → v.Fits T natives w
  receivers : ∀ f v, f ≠ Machine.globals → (w.machine.store.vars f).get? "this" = some v →
    ∃ id c, v = .object id c
  visits : ∀ v ∈ w.visits, v.Sound

end

namespace Watched

/-- One state comes after another: the store has grown, and functions keep where they were made. -/
structure Grows (w w' : Watched) : Prop where
  store : w.machine.store.Grows w'.machine.store
  homes : ∀ n < w.machine.store.serial, w'.homes n = w.homes n

theorem Grows.refl (w : Watched) : Grows w w := ⟨.refl _, fun _ _ => rfl⟩

theorem Grows.trans (h : Grows w w') (h' : Grows w' w'') : Grows w w'' :=
  ⟨h.store.trans h'.store, fun n hn =>
    (h'.homes n (Nat.lt_of_lt_of_le hn h.store.serial)).trans (h.homes n hn)⟩

def withStore (w : Watched) (s : Store) : Watched :=
  { w with machine := { w.machine with store := s } }

theorem Grows.withStore {s : Store} (h : w.machine.store.Grows s) : Grows w (w.withStore s) :=
  ⟨h, fun _ _ => rfl⟩

structure Stands (w : Watched) (Δ : Display) (pending : Option Text) : Prop where
  chain : Δ.Chain w.machine.store w.machine.current
  filled : Δ.Filled w.machine.store pending
  named : pending ≠ some "this" ∧ pending ≠ some "super"

theorem Stands.grows (h : Stands w Δ pending) (hw : Grows w w')
    (hc : w'.machine.current = w.machine.current) : Stands w' Δ pending :=
  ⟨hc ▸ h.chain.grows hw.store, h.filled.grows hw.store, h.named⟩

end Watched

theorem Closure.Placed.grows {f : Closure} (h : f.Placed w) (hw : w.Grows w') : f.Placed w' := by
  have hhome := hw.homes _ h.serial
  refine ⟨Nat.lt_of_lt_of_le h.serial hw.store.serial, ?_, ?_⟩
  · rw [hhome]
    exact h.chain.grows hw.store
  · rw [hhome]
    exact h.filled.grows hw.store

theorem Closure.Fits.grows {f : Closure} (h : f.Fits T w) (hw : w.Grows w') : f.Fits T w' := by
  refine ⟨h.toPlaced.grows hw, ?_, ?_⟩
  · rw [hw.homes _ h.serial]
    exact h.resolved
  · rw [hw.homes _ h.serial]
    exact h.receiver

theorem Closure.FitsMethod.grows {f : Closure} (h : f.FitsMethod T w) (hw : w.Grows w') :
    f.FitsMethod T w' := by
  refine ⟨h.toPlaced.grows hw, ?_⟩
  rw [hw.homes _ h.serial]
  exact h.resolved

theorem Class.Fits.grows {c : Class} (h : c.Fits T w) (hw : w.Grows w') : c.Fits T w' := by
  induction h with
  | mk hm _ ih => exact .mk (fun x m hx => (hm x m hx).grows hw) ih

theorem Class.Fits.findMethod {c : Class} (h : c.Fits T w) (hm : c.findMethod x = some m) :
    m.FitsMethod T w := by
  induction h with
  | mk hmethods _ ih =>
    unfold Class.findMethod at hm
    split at hm
    · rename_i hx
      cases hm
      exact hmethods _ _ hx
    · split at hm
      · exact ih _ rfl hm
      · cases hm

theorem Value.Fits.grows {v : Value} (h : v.Fits T k w) (hw : w.Grows w') : v.Fits T k w' := by
  cases v with
  | function f => exact Closure.Fits.grows h hw
  | klass c | object _ c => exact Class.Fits.grows h hw
  | native i => exact h
  | absent => exact h
  | nil | bool | number | string => trivial

namespace Watched

theorem Fits.of_store (h : w.Fits T k) (hg : w.Grows w')
    (hs : w'.machine.store = w.machine.store) (hv : ∀ v ∈ w'.visits, v.Sound) : w'.Fits T k where
  size := hs ▸ h.size
  root := hs ▸ h.root
  vars f x v hx := (h.vars f x v (hs ▸ hx)).grows hg
  fields id x v hx := (h.fields id x v (hs ▸ hx)).grows hg
  receivers := hs ▸ h.receivers
  visits := hv

theorem Fits.withStore {s : Store} (h : w.Fits T k) (hs : w.machine.store.Grows s)
    (hvars : ∀ f x v, (s.vars f).get? x = some v →
      (w.machine.store.vars f).get? x = some v ∨ v.Fits T k (w.withStore s) ∧
        (f ≠ Machine.globals → x = "this" → ∃ id c, v = .object id c))
    (hfields : ∀ id x v, (s.fields id).get? x = some v →
      (w.machine.store.fields id).get? x = some v ∨ v.Fits T k (w.withStore s)) :
    (w.withStore s).Fits T k where
  size := Nat.lt_of_lt_of_le h.size hs.size
  root := (hs.parent? _ h.size).trans h.root
  vars f x v hx := by
    rcases hvars f x v hx with hx | ⟨hv, -⟩
    · exact (h.vars f x v hx).grows (.withStore hs)
    · exact hv
  fields id x v hx := by
    rcases hfields id x v hx with hx | hv
    · exact (h.fields id x v hx).grows (.withStore hs)
    · exact hv
  receivers f v hf hx := by
    rcases hvars f _ v hx with hx | ⟨-, hv⟩
    · exact h.receivers f v hf hx
    · exact hv hf rfl
  visits := h.visits

theorem Fits.define {x : Text} (h : w.Fits T k)
    (hv : v.Fits T k (w.withStore (w.machine.store.define f x v)))
    (hthis : f ≠ Machine.globals → x = "this" → ∃ id c, v = .object id c) :
    (w.withStore (w.machine.store.define f x v)).Fits T k := by
  refine h.withStore (.define _ f x v) (fun g y u hu => ?_) fun _ _ _ hu => .inl hu
  by_cases hg : g = f
  · subst hg
    by_cases hs : g < w.machine.store.frames.size
    · rw [Store.vars_define_self _ x v hs] at hu
      by_cases hy : y = x
      · subst hy
        rw [Dict.get?_set_self] at hu
        cases hu
        exact .inr ⟨hv, hthis⟩
      · rw [Dict.get?_set_of_ne _ v hy] at hu
        exact .inl hu
    · rw [Store.vars_of_size_le _ (by rw [Store.size_define]; exact Nat.le_of_not_lt hs)] at hu
      cases hu
  · rw [Store.vars_define_of_ne _ x v hg] at hu
    exact .inl hu

theorem Fits.newFrame (h : w.Fits T k) (p : Option FrameId) :
    (w.withStore (w.machine.store.newFrame p).2).Fits T k := by
  refine h.withStore (.newFrame _ p) (fun g y u hu => ?_) fun _ _ _ hu => .inl hu
  rw [Store.vars_newFrame] at hu
  exact .inl hu

theorem Fits.newSerial (h : w.Fits T k) : (w.withStore w.machine.store.newSerial.2).Fits T k :=
  h.withStore (.newSerial _) (fun _ _ _ hu => .inl hu) fun _ _ _ hu => .inl hu

theorem Fits.newObject (h : w.Fits T k) : (w.withStore w.machine.store.newObject.2).Fits T k := by
  refine h.withStore (.objects _ _) (fun _ _ _ hu => .inl hu) fun id x v hu => ?_
  rw [Store.fields_newObject] at hu
  exact .inl hu

theorem Fits.setField (h : w.Fits T k) (hv : v.Fits T k w) (id : Nat) (x : Text) :
    (w.withStore (w.machine.store.setField id x v)).Fits T k := by
  have hs : w.machine.store.Grows (w.machine.store.setField id x v) := .objects _ _
  refine h.withStore hs (fun _ _ _ hu => .inl hu) fun id' y u hu => ?_
  rcases Store.fields_setField w.machine.store id x v id' with he | he
  · rw [he] at hu
    exact .inl hu
  · rw [he] at hu
    by_cases hy : y = x
    · subst hy
      rw [Dict.get?_set_self] at hu
      cases hu
      exact .inr (hv.grows (.withStore hs))
    · rw [Dict.get?_set_of_ne _ v hy] at hu
      exact .inl hu

end Watched

end LoxLang
