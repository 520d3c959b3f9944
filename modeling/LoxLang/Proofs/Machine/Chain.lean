import LoxLang.Proofs.Machine.Watch

namespace LoxLang

namespace Store
set_option autoImplicit true

theorem parent?_define (s : Store) (f : FrameId) (x : Text) (v : Value) (g : FrameId) :
    (s.define f x v).parent? g = s.parent? g := by
  unfold parent? define
  rw [Array.getElem?_modify]
  split
  · cases s.frames[g]? with
    | none => rfl
    | some fr => rfl
  · rfl

theorem vars_define_self (s : Store) (x : Text) (v : Value) (h : f < s.frames.size) :
    (s.define f x v).vars f = (s.vars f).set x v := by
  unfold vars define
  rw [Array.getElem?_modify, if_pos rfl, Array.getElem?_eq_getElem h]
  rfl

theorem vars_define_of_ne (s : Store) (x : Text) (v : Value) (h : g ≠ f) :
    (s.define f x v).vars g = s.vars g := by
  unfold vars define
  rw [Array.getElem?_modify, if_neg h.symm]

theorem vars_of_size_le (s : Store) (h : s.frames.size ≤ f) : s.vars f = [] := by
  unfold vars
  rw [Array.getElem?_eq_none h]
  rfl

theorem size_define (s : Store) (f : FrameId) (x : Text) (v : Value) :
    (s.define f x v).frames.size = s.frames.size := Array.size_modify

theorem lt_size_of_parent? {s : Store} (h : s.parent? f = some p) : f < s.frames.size := by
  unfold parent? at h
  cases hf : s.frames[f]? with
  | none =>
    rw [hf] at h
    cases h
  | some fr => exact (Array.getElem?_eq_some_iff.1 hf).1

theorem parent?_newFrame_self (s : Store) (p : Option FrameId) :
    (s.newFrame p).2.parent? s.frames.size = p := by
  unfold parent? newFrame
  rw [Array.getElem?_push_size]
  rfl

theorem parent?_newFrame_of_lt (s : Store) (p : Option FrameId) (h : f < s.frames.size) :
    (s.newFrame p).2.parent? f = s.parent? f := by
  unfold parent? newFrame
  rw [Array.getElem?_push_lt h, Array.getElem?_eq_getElem h]

theorem vars_newFrame (s : Store) (p : Option FrameId) (f : FrameId) :
    (s.newFrame p).2.vars f = s.vars f := by
  unfold vars newFrame
  rw [Array.getElem?_push]
  split
  · rename_i h
    rw [h, Array.getElem?_eq_none (Nat.le_refl _)]
    rfl
  · rfl

theorem size_newFrame (s : Store) (p : Option FrameId) :
    (s.newFrame p).2.frames.size = s.frames.size + 1 := Array.size_push _

theorem lt_size_newFrame (s : Store) (p : Option FrameId) :
    s.frames.size < (s.newFrame p).2.frames.size := by
  rw [size_newFrame]
  exact Nat.lt_succ_self _

theorem fields_setField (s : Store) (id : Nat) (x : Text) (v : Value) (id' : Nat) :
    (s.setField id x v).fields id' = s.fields id' ∨
      (s.setField id x v).fields id' = (s.fields id').set x v := by
  unfold setField fields
  rw [Array.getElem?_modify]
  split
  · cases s.objects[id']? with
    | none => exact .inl rfl
    | some d => exact .inr rfl
  · exact .inl rfl

theorem fields_newObject (s : Store) (id : Nat) : s.newObject.2.fields id = s.fields id := by
  unfold newObject fields
  rw [Array.getElem?_push]
  split
  · rename_i h
    rw [h, Array.getElem?_eq_none (Nat.le_refl _)]
    rfl
  · rfl

theorem get?_mem {s : Store} (h : s.get? f x = some v) : ∃ g, (s.vars g).get? x = some v := by
  obtain ⟨g, -, hg⟩ := Option.bind_eq_some_iff.1 h
  exact ⟨g, hg⟩

theorem holder?_of_has {s : Store} (h : (s.vars f).has x) : s.holder? x f = some f := by
  unfold holder?
  rw [if_pos h]

theorem has_set_self (d : Dict α) (x : Text) (v : α) : Dict.has (d.set x v) x := by
  rw [Dict.has, Dict.get?_set_self]
  rfl

theorem get?_newFrame_define (s : Store) (p : Option FrameId) (x : Text) (v : Value) :
    (((s.newFrame p).2.define s.frames.size x v).vars s.frames.size).get? x = some v := by
  rw [vars_define_self _ _ _ (lt_size_newFrame s p), Dict.get?_set_self]

theorem has_newFrame_define (s : Store) (p : Option FrameId) (x : Text) (v : Value) :
    (((s.newFrame p).2.define s.frames.size x v).vars s.frames.size).has x := by
  rw [Dict.has, get?_newFrame_define]
  rfl

/-- One store comes after another: frames stay where they are and names stay bound. -/
structure Grows (s s' : Store) : Prop where
  size : s.frames.size ≤ s'.frames.size
  parent? : ∀ f < s.frames.size, s'.parent? f = s.parent? f
  bound : ∀ f x, (s.vars f).has x → (s'.vars f).has x
  serial : s.serial ≤ s'.serial

theorem Grows.refl (s : Store) : Grows s s :=
  ⟨Nat.le_refl _, fun _ _ => rfl, fun _ _ h => h, Nat.le_refl _⟩

theorem Grows.trans (h : Grows s s') (h' : Grows s' s'') : Grows s s'' where
  size := Nat.le_trans h.size h'.size
  parent? f hf := (h'.parent? f (Nat.lt_of_lt_of_le hf h.size)).trans (h.parent? f hf)
  bound f x hx := h'.bound f x (h.bound f x hx)
  serial := Nat.le_trans h.serial h'.serial

theorem has_set {d : Dict α} (x : Text) (v : α) (h : d.has y) : Dict.has (d.set x v) y := by
  by_cases hy : y = x
  · rw [hy]
    exact has_set_self d x v
  · rw [Dict.has, Dict.get?_set_of_ne d v hy]
    exact h

theorem Grows.define (s : Store) (f : FrameId) (x : Text) (v : Value) :
    Grows s (s.define f x v) where
  size := Nat.le_of_eq (size_define s f x v).symm
  parent? g _ := parent?_define s f x v g
  bound g y hy := by
    by_cases hg : g = f
    · subst hg
      by_cases hs : g < s.frames.size
      · rw [vars_define_self s x v hs]
        exact has_set x v hy
      · rw [vars_of_size_le s (Nat.le_of_not_lt hs)] at hy
        cases hy
    · rw [vars_define_of_ne s x v hg]
      exact hy
  serial := Nat.le_refl _

theorem Grows.newFrame (s : Store) (p : Option FrameId) : Grows s (s.newFrame p).2 where
  size := by
    rw [size_newFrame]
    exact Nat.le_succ _
  parent? f hf := parent?_newFrame_of_lt s p hf
  bound f x hx := by
    rw [vars_newFrame]
    exact hx
  serial := Nat.le_refl _

theorem Grows.newSerial (s : Store) : Grows s s.newSerial.2 where
  size := Nat.le_refl _
  parent? _ _ := rfl
  bound _ _ h := h
  serial := Nat.le_succ _

theorem Grows.objects (s : Store) (os : Array (Dict Value)) : Grows s { s with objects := os } where
  size := Nat.le_refl _
  parent? _ _ := rfl
  bound _ _ h := h
  serial := Nat.le_refl _

end Store

namespace Display
set_option autoImplicit true

theorem scopes_declare (x : Text) (Δ : Display) : (Δ.declare x).scopes = Δ.scopes.declare x := by
  cases Δ <;> rfl

theorem scopes_declare? (x : Option Text) (Δ : Display) :
    (Δ.declare? x).scopes = Δ.scopes.declare? x := by
  cases x with
  | none => rfl
  | some x => exact scopes_declare x Δ

/-- The frames from `f` outwards are those of the activations, and the next is the global one. -/
def Chain (s : Store) : Display → FrameId → Prop
  | [], f => f = Machine.globals
  | a :: Δ, f => f = a.frame ∧ ∃ p, s.parent? f = some p ∧ Chain s Δ p

/-- Every name that a scope declares is bound in its frame, but perhaps `pending` in the innermost,
which is being initialized. -/
def Filled (s : Store) (pending : Option Text) (Δ : Display) : Prop :=
  ∀ i a, Δ[i]? = some a → ∀ x ∈ a.names, (i = 0 → pending ≠ some x) → (s.vars a.frame).has x

theorem Chain.grows {Δ : Display} (h : Chain s Δ f) (hs : s.Grows s') : Chain s' Δ f := by
  induction Δ generalizing f with
  | nil => exact h
  | cons a Δ ih =>
    obtain ⟨hf, p, hp, hrest⟩ := h
    exact ⟨hf, p, (hs.parent? f (Store.lt_size_of_parent? hp)).trans hp, ih hrest⟩

theorem Chain.ancestor? {Δ : Display} (h : Chain s Δ f) (hd : Δ[d]? = some a) :
    s.ancestor? f d = some a.frame ∧ ∃ p, s.parent? a.frame = some p := by
  induction Δ generalizing f d with
  | nil => cases hd
  | cons b Δ ih =>
    obtain ⟨hf, p, hp, hrest⟩ := h
    cases d with
    | zero =>
      cases hd
      subst hf
      refine ⟨?_, p, hp⟩
      rw [Store.ancestor?, if_pos (Store.lt_size_of_parent? hp)]
    | succ d =>
      obtain ⟨ha, hparent⟩ := ih hrest hd
      refine ⟨?_, hparent⟩
      rw [Store.ancestor?, hp]
      exact ha

theorem Chain.cons {Δ : Display} (hp : s.parent? f = some p) (h : Chain s Δ p)
    (names : List Text) : Chain s (⟨f, names⟩ :: Δ) f := ⟨rfl, p, hp, h⟩

theorem Chain.declare {Δ : Display} (h : Chain s Δ f) (x : Text) : Chain s (Δ.declare x) f := by
  cases Δ with
  | nil => exact h
  | cons a Δ => exact h

theorem Filled.grows (h : Filled s pending Δ) (hs : s.Grows s') : Filled s' pending Δ :=
  fun i a ha x hx hp => hs.bound _ x (h i a ha x hx hp)

theorem Filled.nil (s : Store) (pending : Option Text) : Filled s pending [] :=
  fun _ _ ha => by cases ha

theorem Filled.cons (h : Filled s none Δ) (ha : ∀ x ∈ a.names, (s.vars a.frame).has x) :
    Filled s none (a :: Δ) := by
  intro i b hb x hx _
  cases i with
  | zero =>
    cases hb
    exact ha x hx
  | succ i => exact h i b hb x hx fun _ => by simp

theorem Filled.declare {Δ : Display} (h : Filled s none Δ) (x : Text) :
    Filled s (some x) (Δ.declare x) := by
  intro i b hb y hy hp
  cases Δ with
  | nil => cases hb
  | cons a Δ =>
    cases i with
    | zero =>
      cases hb
      have hne : y ≠ x := fun he => hp rfl (congrArg some he.symm)
      exact h 0 a rfl y ((List.mem_cons.1 hy).resolve_left hne) fun _ => by simp
    | succ i => exact h (i + 1) b hb y hy fun _ => by simp

theorem Filled.define {Δ : Display} (h : Filled s (some x) Δ) (hc : Chain s Δ f) (v : Value) :
    Filled (s.define f x v) none Δ := by
  intro i b hb y hy _
  by_cases hpending : i = 0 ∧ y = x
  · obtain ⟨rfl, rfl⟩ := hpending
    cases Δ with
    | nil => cases hb
    | cons a Δ =>
      cases hb
      obtain ⟨rfl, p, hp, -⟩ := hc
      rw [Store.vars_define_self s y v (Store.lt_size_of_parent? hp)]
      exact Store.has_set_self _ y v
  · refine (Store.Grows.define s f x v).bound _ y (h i b hb y hy fun hi he => hpending ⟨hi, ?_⟩)
    exact (Option.some.inj he).symm

end Display

end LoxLang
