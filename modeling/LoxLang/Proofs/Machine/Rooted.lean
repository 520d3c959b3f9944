import LoxLang.Proofs.Machine.Named
import LoxLang.Proofs.Machine.Steps

namespace LoxLang
set_option autoImplicit true

def Closure.Rooted (s : Store) (f : Closure) : Prop := f.frame < s.frames.size

inductive Class.Rooted (s : Store) : Class → Prop where
  | mk {ms : Dict Closure} : n < s.serial → (∀ e ∈ ms, e.2.Rooted s) →
      (∀ c ∈ parent, Class.serial c < n) → (∀ c ∈ parent, Class.Rooted s c) →
      Class.Rooted s (.mk n x parent ms)

def Value.Rooted (s : Store) : Value → Prop
  | .function f => f.Rooted s
  | .klass c | .object _ c => c.Rooted s
  | .nil | .bool _ | .number _ | .string _ | .native _ | .absent => True

def Completion.Rooted (s : Store) : Completion → Prop
  | .normal => True
  | .returned v => v.Rooted s

/-- Each frame but the global one lies in an older frame, and what is stored is there. -/
structure Store.Rooted (s : Store) : Prop where
  size : Machine.globals < s.frames.size
  root : s.parent? Machine.globals = none
  parent : ∀ f < s.frames.size, f ≠ Machine.globals → ∃ p < f, s.parent? f = some p
  vars : ∀ f, ∀ e ∈ s.vars f, e.2.Rooted s
  fields : ∀ id, ∀ e ∈ s.fields id, e.2.Rooted s

structure Machine.Rooted (m : Machine) : Prop where
  store : m.store.Rooted
  current : m.current < m.store.frames.size

section
variable {s s' : Store}

theorem Closure.Rooted.grows {f : Closure} (h : f.Rooted s) (hs : s.Grows s') : f.Rooted s' :=
  Nat.lt_of_lt_of_le h hs.size

theorem Class.Rooted.grows {c : Class} (h : c.Rooted s) (hs : s.Grows s') : c.Rooted s' := by
  induction h with
  | mk hn hms hserial _ ih =>
    exact .mk (Nat.lt_of_lt_of_le hn hs.serial) (fun e he => (hms e he).grows hs) hserial ih

theorem Value.Rooted.grows {v : Value} (h : v.Rooted s) (hs : s.Grows s') : v.Rooted s' := by
  cases v with
  | function f => exact Closure.Rooted.grows h hs
  | klass c | object _ c => exact Class.Rooted.grows h hs
  | nil | bool | number | string | native | absent => trivial

theorem Class.Rooted.serial_lt {c : Class} (h : c.Rooted s) : c.serial < s.serial := by
  cases h with
  | mk hn _ _ _ => exact hn

theorem Class.Rooted.superclass {c d : Class} (h : c.Rooted s) (hd : c.superclass = some d) :
    d.serial < c.serial ∧ d.Rooted s := by
  cases h with
  | mk _ _ hserial hparent => exact ⟨hserial d hd, hparent d hd⟩

theorem Class.Rooted.findMethod {c : Class} (h : c.Rooted s) (hf : c.findMethod x = some f) :
    f.Rooted s := by
  induction h with
  | mk _ hms _ _ ih =>
    unfold Class.findMethod at hf
    split at hf
    · rename_i hget
      cases hf
      exact hms _ (Dict.mem_of_get? hget)
    · split at hf
      · exact ih _ rfl hf
      · cases hf

theorem Value.From.rooted {v : Value} {args : List Value} (h : v.From args)
    (hargs : ∀ a ∈ args, a.Rooted s) : v.Rooted s := by
  induction h with
  | given hv => exact hargs _ hv
  | ofObject _ ih => exact ih
  | parent _ hd ih => exact (Class.Rooted.superclass ih hd).2
  | nil | bool | number | string => trivial

namespace Store.Rooted

/-- A store that grows stays so if its new frames lie in older ones and what it holds now was held
before or is there. -/
theorem grows (h : s.Rooted) (hs : s.Grows s')
    (hparent : ∀ f < s'.frames.size, s.frames.size ≤ f → ∃ p < f, s'.parent? f = some p)
    (hvars : ∀ f, ∀ e ∈ s'.vars f, e ∈ s.vars f ∨ e.2.Rooted s')
    (hfields : ∀ id, ∀ e ∈ s'.fields id, e ∈ s.fields id ∨ e.2.Rooted s') : s'.Rooted where
  size := Nat.lt_of_lt_of_le h.size hs.size
  root := (hs.parent? _ h.size).trans h.root
  parent f hf hne := by
    rcases Nat.lt_or_ge f s.frames.size with hold | hnew
    · rw [hs.parent? f hold]
      exact h.parent f hold hne
    · exact hparent f hf hnew
  vars f e he := (hvars f e he).elim (fun he => (h.vars f e he).grows hs) id
  fields id e he := (hfields id e he).elim (fun he => (h.fields id e he).grows hs) fun he => he

theorem define (h : s.Rooted) (hv : v.Rooted s) (f : FrameId) (x : Text) :
    (s.define f x v).Rooted := by
  have hs := Grows.define s f x v
  refine h.grows hs (fun g hg hle => ?_) (fun g e he => ?_) fun _ _ he => .inl he
  · rw [size_define] at hg
    exact absurd hg (Nat.not_lt.2 hle)
  · by_cases hg : g = f
    · subst hg
      by_cases hsize : g < s.frames.size
      · rw [vars_define_self s x v hsize] at he
        rcases Dict.mem_set he with rfl | he
        · exact .inr (hv.grows hs)
        · exact .inl he
      · rw [vars_of_size_le _ (by rw [size_define]; exact Nat.le_of_not_lt hsize)] at he
        exact absurd he List.not_mem_nil
    · rw [vars_define_of_ne s x v hg] at he
      exact .inl he

theorem newFrame (h : s.Rooted) (hp : p < s.frames.size) : (s.newFrame (some p)).2.Rooted := by
  refine h.grows (.newFrame s _) (fun f hf hle => ⟨p, ?_⟩) (fun f e he => ?_)
    fun _ _ he => .inl he
  · rw [size_newFrame] at hf
    obtain rfl := Nat.le_antisymm hle (Nat.le_of_lt_succ hf)
    exact ⟨hp, parent?_newFrame_self s _⟩
  · rw [vars_newFrame] at he
    exact .inl he

theorem newSerial (h : s.Rooted) : s.newSerial.2.Rooted :=
  h.grows (.newSerial s) (fun _ hf hle => absurd hf (Nat.not_lt.2 hle)) (fun _ _ => .inl)
    fun _ _ => .inl

theorem newObject (h : s.Rooted) : s.newObject.2.Rooted := by
  refine h.grows (.objects s _) (fun _ hf hle => absurd hf (Nat.not_lt.2 hle)) (fun _ _ => .inl)
    fun id e he => ?_
  rw [fields_newObject] at he
  exact .inl he

theorem setField (h : s.Rooted) (hv : v.Rooted s) (id : Nat) (x : Text) :
    (s.setField id x v).Rooted := by
  have hs : s.Grows (s.setField id x v) := .objects s _
  refine h.grows hs (fun _ hf hle => absurd hf (Nat.not_lt.2 hle)) (fun _ _ => .inl)
    fun id' e he => ?_
  rcases fields_setField s id x v id' with hf | hf
  · rw [hf] at he
    exact .inl he
  · rw [hf] at he
    rcases Dict.mem_set he with rfl | he
    · exact .inr (hv.grows hs)
    · exact .inl he

theorem value (h : s.Rooted) (hv : (s.vars f).get? x = some v) : v.Rooted s :=
  h.vars f _ (Dict.mem_of_get? hv)

theorem getAt? (h : s.Rooted) (hv : s.getAt? f d x = some v) : v.Rooted s := by
  obtain ⟨g, -, rfl⟩ := Option.map_eq_some_iff.1 hv
  cases hg : (s.vars g).get? x with
  | none => trivial
  | some v => exact h.value hg

theorem get? (h : s.Rooted) (hv : s.get? f x = some v) : v.Rooted s := by
  obtain ⟨g, hg⟩ := get?_mem hv
  exact h.value hg

end Store.Rooted

end

namespace Machine

structure Later (m m' : Machine) : Prop where
  rooted : m'.Rooted
  grows : m.store.Grows m'.store

theorem Later.refl {m : Machine} (h : m.Rooted) : Later m m := ⟨h, .refl _⟩

theorem Later.trans {m m' m'' : Machine} (h : Later m m') (h' : Later m' m'') : Later m m'' :=
  ⟨h'.rooted, h.grows.trans h'.grows⟩

theorem Rooted.later {m : Machine} {s : Store} (h : m.Rooted) (hs : s.Rooted)
    (hg : m.store.Grows s) : Later m { m with store := s } :=
  ⟨⟨hs, Nat.lt_of_lt_of_le h.current hg.size⟩, hg⟩

/-- Whatever a step from this machine ends with, the machine stays sound; and a result is of this
kind. -/
def Rooting (R : Store → α → Prop) (P : Eval α) (m : Machine) : Prop := match P m with
  | .ok a m' => Later m m' ∧ R m'.store a
  | .error _ m' => Later m m'

variable {m : Machine}

theorem Rooting.pure {R : Store → α → Prop} (hm : m.Rooted) (h : R m.store a) :
    Rooting R (Pure.pure a) m := ⟨.refl hm, h⟩

theorem Rooting.throw {R : Store → α → Prop} (hm : m.Rooted) (e : Stop) :
    Rooting R (MonadExcept.throw e) m := .refl hm

theorem Rooting.bind {P : Eval α} {F : α → Eval β} {R : Store → α → Prop} {S : Store → β → Prop}
    (h : Rooting R P m) (hF : ∀ a m', Later m m' → R m'.store a → Rooting S (F a) m') :
    Rooting S (P >>= F) m := by
  unfold Rooting at h
  change Rooting S (EStateM.bind P F) m
  unfold Rooting EStateM.bind
  cases hP : P m with
  | error e m' =>
    rw [hP] at h
    exact h
  | ok a m' =>
    rw [hP] at h
    have hrest := hF a m' h.1 h.2
    unfold Rooting at hrest
    dsimp only
    cases hQ : F a m' with
    | ok b m'' =>
      rw [hQ] at hrest
      exact ⟨h.1.trans hrest.1, hrest.2⟩
    | error e m'' =>
      rw [hQ] at hrest
      exact h.1.trans hrest

theorem Rooting.map {P : Eval α} {f : α → β} {R : Store → α → Prop} {S : Store → β → Prop}
    (h : Rooting R P m) (hf : ∀ a m', Later m m' → R m'.store a → S m'.store (f a)) :
    Rooting S (P >>= fun a => Pure.pure (f a)) m :=
  h.bind fun a m' hm' ha => .pure hm'.rooted (hf a m' hm' ha)

theorem Rooting.get {F : Machine → Eval α} (h : Rooting R (F m) m) :
    Rooting R (MonadState.get >>= F) m := h

theorem Rooting.set {m' : Machine} {F : PUnit → Eval α} (hm : Later m m')
    (h : Rooting R (F ()) m') : Rooting R (MonadStateOf.set m' >>= F) m := by
  unfold Rooting at h
  change match F () m' with
    | .ok a m'' => Later m m'' ∧ R m''.store a
    | .error _ m'' => Later m m''
  cases hF : F () m' with
  | ok a m'' =>
    rw [hF] at h
    exact ⟨hm.trans h.1, h.2⟩
  | error e m'' =>
    rw [hF] at h
    exact hm.trans h

theorem Rooting.caught {P : Eval Value} (h : Rooting Value.Rooted P m) :
    Rooting (fun s r => Native.Heard r ∧ ∀ v, r = .ok v → v.Rooted s) (Native.attempt P) m := by
  unfold Rooting at h
  unfold Rooting Native.attempt
  cases hP : P m with
  | ok v m' =>
    rw [hP] at h
    refine ⟨h.1, .ok, fun w hw => ?_⟩
    cases hw
    exact h.2
  | error e m' =>
    rw [hP] at h
    dsimp only at h ⊢
    cases hfatal : e.isFatal with
    | true => exact h
    | false => exact ⟨h, .error hfatal, fun w hw => by cases hw⟩

theorem Rooting.modify {F : Machine → Store} (hm : m.Rooted) (hs : (F m).Rooted)
    (hg : m.store.Grows (F m)) : Rooting (fun _ _ => True)
      (MonadState.modifyGet fun m => ((), { m with store := F m })) m := ⟨hm.later hs hg, trivial⟩

theorem Rooted.at_ (h : m.Rooted) (hf : f < m.store.frames.size) :
    Rooted { m with current := f } := ⟨h.store, hf⟩

theorem Rooting.within {R : Store → α → Prop} {P : Eval α} (hm : m.Rooted)
    (h : Rooting R P { m with current := f }) : Rooting R (within f P) m := by
  have hback {m' : Machine} (h : Later { m with current := f } m') :
      Later m { m' with current := m.current } :=
    ⟨⟨h.rooted.store, Nat.lt_of_lt_of_le hm.current h.grows.size⟩, h.grows⟩
  unfold Rooting at h
  unfold Rooting Machine.within
  cases hP : P { m with current := f } with
  | ok a m' =>
    rw [hP] at h
    exact ⟨hback h.1, h.2⟩
  | error e m' =>
    rw [hP] at h
    exact hback h

theorem newFrame_rooting (hm : m.Rooted) (hp : p < m.store.frames.size) :
    Rooting (fun s f => f < s.frames.size) (newFrame p) m :=
  ⟨hm.later (hm.store.newFrame hp) (.newFrame _ _), Store.lt_size_newFrame _ _⟩

theorem bindVariable_rooting (hm : m.Rooted) (hv : v.Rooted m.store) (f : FrameId) (x : Text) :
    Rooting (fun _ _ => True) (bindVariable f x v) m :=
  .modify hm (hm.store.define hv f x) (.define _ f x v)

theorem newSerial_rooting (hm : m.Rooted) :
    Rooting (fun s n => m.store.serial ≤ n ∧ n < s.serial) newSerial m :=
  ⟨hm.later hm.store.newSerial (.newSerial _), Nat.le_refl _, Nat.lt_succ_self _⟩

theorem newObject_rooting (hm : m.Rooted) : Rooting (fun _ _ => True) newObject m :=
  ⟨hm.later hm.store.newObject (.objects _ _), trivial⟩

theorem poll_rooting (host : Host) (hm : m.Rooted) : Rooting (fun _ _ => True) (poll host) m :=
  ⟨⟨⟨hm.store, hm.current⟩, .refl _⟩, trivial⟩

theorem heed_rooting (host : Host) (hm : m.Rooted) : Rooting (fun _ _ => True) (heed host) m := by
  apply (poll_rooting host hm).bind
  intro told m₁ h₁ _
  split
  · exact .throw h₁.rooted _
  · exact .pure h₁.rooted trivial

theorem print_rooting (hm : m.Rooted) (v : Value) : Rooting (fun _ _ => True) (print v) m := by
  unfold print
  split
  · exact ⟨⟨⟨hm.store, hm.current⟩, .refl _⟩, trivial⟩
  · exact .throw hm _

theorem lookUp_rooting (hm : m.Rooted) (x : Token) (d : Distance) :
    Rooting Value.Rooted (lookUp x d) m := by
  apply Rooting.get
  cases d with
  | some k =>
    dsimp only
    split
    · rename_i v hv
      exact .pure hm (hm.store.getAt? hv)
    · exact .throw hm _
  | none =>
    dsimp only
    split
    · rename_i v hv
      exact .pure hm (hm.store.get? hv)
    · exact .throw hm _

theorem assign_rooting (hm : m.Rooted) (hv : v.Rooted m.store) (x : Token) (d : Distance) :
    Rooting (fun _ _ => True) (assign x d v) m := by
  have hdefine (g : FrameId) :
      Later m { m with store := m.store.define g x.lexeme v } :=
    hm.later (hm.store.define hv g x.lexeme) (.define _ _ _ _)
  apply Rooting.get
  cases d with
  | some k =>
    dsimp only
    split
    · rename_i s hs
      obtain ⟨g, -, rfl⟩ := Option.map_eq_some_iff.1 hs
      exact ⟨hdefine g, trivial⟩
    · exact .throw hm _
  | none =>
    dsimp only
    split
    · rename_i s hs
      obtain ⟨g, -, rfl⟩ := Option.map_eq_some_iff.1 hs
      exact ⟨hdefine g, trivial⟩
    · exact .throw hm _

theorem negate_rooting (hm : m.Rooted) (op : Token) (v : Value) :
    Rooting Value.Rooted (negate op v) m := by
  unfold negate
  split
  · exact .pure hm trivial
  · split
    · exact .pure hm trivial
    · exact .throw hm _
  · exact .throw hm _

theorem arithmetic_rooting (hm : m.Rooted) (op : Token) (left right : Value) :
    Rooting Value.Rooted (arithmetic op left right) m := by
  unfold arithmetic
  split
  · split
    all_goals first | exact .pure hm trivial | exact .throw hm _
  · exact .throw hm _

theorem combine_rooting (hm : m.Rooted) (op : Token) (left right : Value) :
    Rooting Value.Rooted (combine op left right) m := by
  unfold combine
  split
  · exact .pure hm trivial
  · exact .pure hm trivial
  · unfold add
    split
    · exact .pure hm trivial
    · exact .pure hm trivial
    · exact .throw hm _
  · exact arithmetic_rooting hm op left right

theorem close_rooting (hm : m.Rooted) (hf : f < m.store.frames.size)
    (r : Routine (Stmt Distance)) (isInitializer : Bool) :
    Rooting (fun s g => Closure.Rooted s g) (close r f isInitializer) m := by
  apply (newSerial_rooting hm).map
  intro n m₁ h₁ _
  exact Nat.lt_of_lt_of_le hf h₁.grows.size

theorem bindMethod_rooting {f : Closure} (hm : m.Rooted) (hf : f.Rooted m.store)
    (hv : v.Rooted m.store) : Rooting (fun s g => Closure.Rooted s g) (bindMethod f v) m := by
  apply (newFrame_rooting hm hf).bind
  intro g m₁ h₁ hg
  apply (bindVariable_rooting h₁.rooted (hv.grows h₁.grows) g "this").bind
  intro _ m₂ h₂ _
  exact close_rooting h₂.rooted (Nat.lt_of_lt_of_le hg h₂.grows.size) _ _

theorem property_rooting {c : Class} (hm : m.Rooted) (hc : c.Rooted m.store) (id : Nat)
    (x : Token) : Rooting Value.Rooted (property id c x) m := by
  apply Rooting.get
  split
  · rename_i v hv
    exact .pure hm (hm.store.fields id _ (Dict.mem_of_get? hv))
  · split
    · rename_i f hf
      apply (bindMethod_rooting (v := .object id c) hm (hc.findMethod hf) hc).map
      exact fun g m₁ _ hg => hg
    · exact .throw hm _

theorem superMethod_rooting (hm : m.Rooted) (d : Distance) (x : Token) :
    Rooting Value.Rooted (superMethod d x) m := by
  apply Rooting.get
  dsimp only
  split
  · rename_i parent receiver hparent hreceiver
    split
    · exact .throw hm _
    · rename_i f hf
      have hmethod : f.Rooted m.store := by
        have hrooted := hm.store.getAt? hparent
        split at hf
        · exact Class.Rooted.findMethod hrooted hf
        · cases hf
      split
      · apply (bindMethod_rooting hm hmethod (hm.store.getAt? hreceiver)).map
        exact fun g m₁ _ hg => hg
      · exact .throw hm _
  · exact .throw hm _

theorem bindParams_rooting (hm : m.Rooted) (f : FrameId) (ps : List Token) {vs : List Value}
    (hvs : ∀ v ∈ vs, v.Rooted m.store) : Rooting (fun _ _ => True) (bindParams f ps vs) m := by
  induction ps generalizing m vs with
  | nil => exact .pure hm trivial
  | cons p ps ih =>
    cases vs with
    | nil => exact .throw hm _
    | cons v vs =>
      obtain ⟨hv, hvs⟩ := List.forall_mem_cons.1 hvs
      apply (bindVariable_rooting hm hv f p.lexeme).bind
      intro _ m₁ h₁ _
      exact ih h₁.rooted fun v hv => (hvs v hv).grows h₁.grows

theorem closeMethods_rooting (hm : m.Rooted) (hf : f < m.store.frames.size)
    (rs : List (Routine (Stmt Distance))) {ms : Dict Closure}
    (hms : ∀ e ∈ ms, e.2.Rooted m.store) :
    Rooting (fun s (ms : Dict Closure) => ∀ e ∈ ms, e.2.Rooted s) (closeMethods f rs ms) m := by
  induction rs generalizing m ms with
  | nil => exact .pure hm hms
  | cons r rs ih =>
    apply (close_rooting hm hf r _).bind
    intro g m₁ h₁ hg
    apply ih h₁.rooted (Nat.lt_of_lt_of_le hf h₁.grows.size)
    intro e he
    rcases Dict.mem_set he with rfl | he
    · exact hg
    · exact (hms e he).grows h₁.grows

theorem finishClass_rooting (hm : m.Rooted) (hf : frame < m.store.frames.size) (x : Token)
    {sup : Option Class} (hsup : ∀ c ∈ sup, c.Rooted m.store)
    (rs : List (Routine (Stmt Distance))) (here : FrameId) : Rooting (fun _ _ => True) (do
      let methods ← closeMethods frame rs []
      let c := Class.mk (← newSerial) x.lexeme sup methods
      let m ← get
      match m.store.assign? here x.lexeme (.klass c) with
      | some store => set { m with store }
      | none => throw (.fault (.undefinedVariable x)) : Eval Unit) m := by
  apply (closeMethods_rooting hm hf rs fun e he => absurd he List.not_mem_nil).bind
  intro ms m₁ h₁ hms
  apply (newSerial_rooting h₁.rooted).bind
  intro n m₂ h₂ hn
  have hclass : (Class.mk n x.lexeme sup ms).Rooted m₂.store := by
    apply Class.Rooted.mk hn.2 fun e he => (hms e he).grows h₂.grows
    · intro c hc
      exact Nat.lt_of_lt_of_le ((hsup c hc).grows h₁.grows).serial_lt hn.1
    · intro c hc
      exact ((hsup c hc).grows h₁.grows).grows h₂.grows
  apply Rooting.get
  split
  · rename_i s hs
    obtain ⟨g, -, rfl⟩ := Option.map_eq_some_iff.1 hs
    exact ⟨h₂.rooted.later (h₂.rooted.store.define (v := .klass _) hclass g _) (.define _ _ _ _),
      trivial⟩
  · exact .throw h₂.rooted _

theorem declareClass_rooting (hm : m.Rooted) (x : Token) {sup : Option Class}
    (hsup : ∀ c ∈ sup, c.Rooted m.store) (rs : List (Routine (Stmt Distance))) :
    Rooting (fun _ _ => True) (declareClass x sup rs) m := by
  apply Rooting.get
  apply (bindVariable_rooting (v := .nil) hm trivial m.current x.lexeme).bind
  intro _ m₁ h₁ _
  have hhere : m.current < m₁.store.frames.size := Nat.lt_of_lt_of_le hm.current h₁.grows.size
  cases sup with
  | none => exact finishClass_rooting h₁.rooted hhere x (fun c hc => by cases hc) rs _
  | some c =>
    have hc := (hsup c rfl).grows h₁.grows
    apply (newFrame_rooting h₁.rooted hhere).bind
    intro f m₂ h₂ hf
    apply (bindVariable_rooting (v := .klass c) h₂.rooted (hc.grows h₂.grows) f "super").bind
    intro _ m₃ h₃ _
    refine finishClass_rooting h₃.rooted (Nat.lt_of_lt_of_le hf h₃.grows.size) x ?_ rs _
    intro d hd
    cases hd
    exact (hc.grows h₂.grows).grows h₃.grows

variable {host : Host}

theorem serve_rooting (hm : m.Rooted) {q : Native.Request}
    (h : ∀ v ∈ q.values, v.Rooted m.store) :
    Rooting (fun s vs => ∀ v ∈ vs, Value.Rooted s v) (serve host q) m := by
  cases q with
  | write t => exact ⟨⟨⟨hm.store, hm.current⟩, .refl _⟩, List.forall_mem_nil _⟩
  | make c =>
    have hc : c.Rooted m.store := h (.klass c) List.mem_cons_self
    apply (newObject_rooting hm).map
    intro id m₁ h₁ _ v hv
    rw [List.mem_singleton.1 hv]
    exact hc.grows h₁.grows
  | field id x =>
    apply Rooting.get
    apply Rooting.pure hm
    intro v hv
    exact hm.store.fields id _ (Dict.mem_of_get? (Option.mem_toList.1 hv))
  | setField id x v =>
    have hset := hm.store.setField (h v List.mem_cons_self) id x
    exact (Rooting.modify hm hset (.objects _ _)).map fun _ _ _ _ => List.forall_mem_nil _
  | global x =>
    apply Rooting.get
    apply Rooting.pure hm
    intro v hv
    exact hm.store.get? (Option.mem_toList.1 hv)
  | define x v =>
    exact (bindVariable_rooting hm (h v List.mem_cons_self) globals x).map
      fun _ _ _ _ => List.forall_mem_nil _
  | canceled =>
    apply (poll_rooting host hm).map
    intro told m₁ _ _ v hv
    rw [List.mem_singleton.1 hv]
    trivial

theorem got_rooted {s s' : Store} {r : Except Stop Value} {given : List Value} (hs : s.Grows s')
    (hr : ∀ v, r = .ok v → v.Rooted s') (hgiven : ∀ v ∈ given, v.Rooted s) :
    ∀ v ∈ Native.got r ++ given, v.Rooted s' := by
  intro v hv
  rcases List.mem_append.1 hv with hv | hv
  · cases r with
    | ok w =>
      rw [List.mem_singleton.1 hv]
      exact hr w rfl
    | error e => exact absurd hv List.not_mem_nil
  · exact (hgiven v hv).grows hs

/-- What a function of the host does makes nothing but what refers to what was there before. -/
theorem act_rooting {call : Value → List Value → Eval Value}
    (hcall : ∀ {m : Machine}, m.Rooted → ∀ {v args}, Value.Rooted m.store v →
      (∀ a ∈ args, Value.Rooted m.store a) → v.Takes host.natives args.length →
      Rooting Value.Rooted (call v args) m)
    {act : Native.Act} {given : List Value} (h : act.Tame host.natives given) (hm : m.Rooted)
    (hgiven : ∀ v ∈ given, v.Rooted m.store) :
    Rooting Value.Rooted (act.perform (serve host) property call) m := by
  induction h generalizing m with
  | done hv => exact .pure hm (hv.rooted hgiven)
  | fail => exact .throw hm _
  | ask hq _ ih =>
    apply (serve_rooting hm fun v hv => (hq v hv).rooted hgiven).bind
    intro vs m₁ h₁ hvs
    apply ih vs h₁.rooted
    intro v hv
    exact (List.mem_append.1 hv).elim (hvs v) fun hv => (hgiven v hv).grows h₁.grows
  | property hobject _ ih =>
    have hc := hobject.rooted hgiven
    apply ((property_rooting hm hc _ _).caught).bind
    intro r m₁ h₁ hr
    exact ih r hr.1 h₁.rooted (got_rooted h₁.grows hr.2 hgiven)
  | call hf hargs htakes _ ih =>
    apply (hcall hm (hf.rooted hgiven) (fun a ha => (hargs a ha).rooted hgiven) htakes).caught.bind
    intro r m₁ h₁ hr
    exact ih r hr.1 h₁.rooted (got_rooted h₁.grows hr.2 hgiven)

structure Roots (host : Host) (n : Nat) : Prop where
  evaluate : ∀ {m : Machine}, m.Rooted → ∀ e, Rooting Value.Rooted (evaluate host n e) m
  arguments : ∀ {m : Machine}, m.Rooted → ∀ es,
    Rooting (fun s vs => ∀ v ∈ vs, Value.Rooted s v) (arguments host n es) m
  call : ∀ {m : Machine}, m.Rooted → ∀ {v args}, Value.Rooted m.store v →
    (∀ a ∈ args, Value.Rooted m.store a) → v.Takes host.natives args.length →
    Rooting Value.Rooted (call host n v args) m
  invoke : ∀ {m : Machine}, m.Rooted → ∀ {f : Closure} {args}, f.Rooted m.store →
    (∀ a ∈ args, Value.Rooted m.store a) → Rooting Value.Rooted (invoke host n f args) m
  run : ∀ {m : Machine}, m.Rooted → ∀ ss, Rooting Completion.Rooted (run host n ss) m
  execute : ∀ {m : Machine}, m.Rooted → ∀ s, Rooting Completion.Rooted (execute host n s) m
  loop : ∀ {m : Machine}, m.Rooted → ∀ c s, Rooting Completion.Rooted (loop host n c s) m

theorem Roots.zero : Roots host 0 where
  evaluate hm _ := .throw hm _
  arguments hm _ := .throw hm _
  call hm _ _ _ _ _ := .throw hm _
  invoke hm _ _ _ _ := .throw hm _
  run hm _ := .throw hm _
  execute hm _ := .throw hm _
  loop hm _ _ := .throw hm _

theorem Roots.evaluate_succ (ih : Roots host n) (hm : m.Rooted) (e : Expr Distance) :
    Rooting Value.Rooted (Machine.evaluate host (n + 1) e) m := by
  cases e with
  | literal v =>
    apply Rooting.pure hm
    rcases v with _ | ⟨b⟩ | ⟨x⟩ | ⟨t⟩ <;> trivial
  | grouping e => exact ih.evaluate hm e
  | unary op e =>
    apply (ih.evaluate hm e).bind
    intro v m₁ h₁ _
    exact negate_rooting h₁.rooted op v
  | binary l op r =>
    apply (ih.evaluate hm l).bind
    intro v m₁ h₁ _
    apply (ih.evaluate h₁.rooted r).bind
    intro w m₂ h₂ _
    exact combine_rooting h₂.rooted op v w
  | logical l op r =>
    apply (ih.evaluate hm l).bind
    intro v m₁ h₁ hv
    split
    · exact .pure h₁.rooted hv
    · exact ih.evaluate h₁.rooted r
  | var ref => exact lookUp_rooting hm _ _
  | assign ref e =>
    apply (ih.evaluate hm e).bind
    intro v m₁ h₁ hv
    apply (assign_rooting h₁.rooted hv _ _).map
    intro _ m₂ h₂ _
    exact hv.grows h₂.grows
  | call f paren args =>
    apply (ih.evaluate hm f).bind
    intro v m₁ h₁ hv
    apply (ih.arguments h₁.rooted args).bind
    intro vs m₂ h₂ hvs
    split
    · exact .throw h₂.rooted _
    · rename_i k harity
      split
      · rename_i hk
        exact ih.call h₂.rooted (hv.grows h₂.grows) hvs (hk ▸ Value.takes_of_arity? harity)
      · exact .throw h₂.rooted _
  | get o x =>
    apply (ih.evaluate hm o).bind
    intro v m₁ h₁ hv
    split
    · exact property_rooting h₁.rooted hv _ x
    · exact .throw h₁.rooted _
  | set o x e =>
    apply (ih.evaluate hm o).bind
    intro v m₁ h₁ _
    cases v with
    | object id c =>
      apply (ih.evaluate h₁.rooted e).bind
      intro w m₂ h₂ hw
      have hset := h₂.rooted.store.setField hw id x.lexeme
      apply (Rooting.modify h₂.rooted hset (.objects _ _)).map
      intro _ m₃ h₃ _
      exact hw.grows h₃.grows
    | _ => exact .throw h₁.rooted _
  | this ref => exact lookUp_rooting hm _ _
  | super ref x => exact superMethod_rooting hm _ x

theorem Roots.arguments_succ (ih : Roots host n) (hm : m.Rooted) (es : List (Expr Distance)) :
    Rooting (fun s vs => ∀ v ∈ vs, Value.Rooted s v) (Machine.arguments host (n + 1) es) m := by
  cases es with
  | nil => exact .pure hm fun v hv => absurd hv List.not_mem_nil
  | cons e es =>
    apply (ih.evaluate hm e).bind
    intro v m₁ h₁ hv
    apply (ih.arguments h₁.rooted es).map
    intro vs m₂ h₂ hvs
    exact List.forall_mem_cons.2 ⟨hv.grows h₂.grows, hvs⟩

theorem Roots.call_succ (hhost : ∀ f ∈ host.natives, f.Tame host.natives) (ih : Roots host n)
    (hm : m.Rooted) {v : Value} {args : List Value} (hv : v.Rooted m.store)
    (hargs : ∀ a ∈ args, Value.Rooted m.store a) (htakes : v.Takes host.natives args.length) :
    Rooting Value.Rooted (Machine.call host (n + 1) v args) m := by
  cases v with
  | function f => exact ih.invoke hm hv hargs
  | klass c =>
    apply (newObject_rooting hm).bind
    intro id m₁ h₁ _
    have hc : c.Rooted m₁.store := Class.Rooted.grows hv h₁.grows
    split
    · rename_i init hinit
      apply (bindMethod_rooting (v := .object id c) h₁.rooted (hc.findMethod hinit) hc).bind
      intro g m₂ h₂ hg
      have hargs' : ∀ a ∈ args, a.Rooted m₂.store :=
        fun a ha => ((hargs a ha).grows h₁.grows).grows h₂.grows
      apply (ih.invoke h₂.rooted hg hargs').map
      intro _ m₃ h₃ _
      exact (hc.grows h₂.grows).grows h₃.grows
    · exact .pure h₁.rooted hc
  | native i =>
    rw [Machine.call]
    split
    · rename_i f hf
      have htame := hhost f (List.mem_of_getElem? hf) host.now args (htakes f hf).symm
      exact act_rooting ih.call htame hm hargs
    · exact .throw hm _
  | nil | bool | number | string | object | absent => exact .throw hm _

theorem Roots.invoke_succ (ih : Roots host n) (hm : m.Rooted) {f : Closure} {args : List Value}
    (hf : f.Rooted m.store) (hargs : ∀ a ∈ args, Value.Rooted m.store a) :
    Rooting Value.Rooted (Machine.invoke host (n + 1) f args) m := by
  rw [Machine.invoke]
  apply (newFrame_rooting hm hf).bind
  intro g m₁ h₁ hg
  apply (bindParams_rooting h₁.rooted g _ fun a ha => (hargs a ha).grows h₁.grows).bind
  intro _ m₂ h₂ _
  have hframe := h₂.rooted.at_ (Nat.lt_of_lt_of_le hg h₂.grows.size)
  apply (Rooting.within h₂.rooted (ih.run hframe _)).bind
  intro done m₃ h₃ hdone
  split
  · apply Rooting.get
    split
    · rename_i v hv
      exact .pure h₃.rooted (h₃.rooted.store.getAt? hv)
    · exact .throw h₃.rooted _
  · split
    · exact .pure h₃.rooted hdone
    · exact .pure h₃.rooted trivial

theorem Roots.run_succ (ih : Roots host n) (hm : m.Rooted) (ss : List (Stmt Distance)) :
    Rooting Completion.Rooted (Machine.run host (n + 1) ss) m := by
  cases ss with
  | nil => exact .pure hm trivial
  | cons s ss =>
    apply (ih.execute hm s).bind
    intro done m₁ h₁ hdone
    split
    · exact ih.run h₁.rooted ss
    · exact .pure h₁.rooted hdone

theorem Roots.execute_succ (ih : Roots host n) (hm : m.Rooted) (s : Stmt Distance) :
    Rooting Completion.Rooted (Machine.execute host (n + 1) s) m := by
  cases s with
  | expression e => exact (ih.evaluate hm e).map fun _ _ _ _ => trivial
  | print e =>
    apply (ih.evaluate hm e).bind
    intro v m₁ h₁ _
    exact (print_rooting h₁.rooted v).map fun _ _ _ _ => trivial
  | varDecl x init =>
    have hfinish {m : Machine} {v : Value} (hm : m.Rooted) (hv : v.Rooted m.store) :
        Rooting Completion.Rooted (do
          bindVariable (← get).current x.lexeme v
          return .normal) m :=
      .get ((bindVariable_rooting hm hv m.current x.lexeme).map fun _ _ _ _ => trivial)
    cases init with
    | none => exact hfinish (v := .nil) hm trivial
    | some e =>
      apply (ih.evaluate hm e).bind
      intro v m₁ h₁ hv
      exact hfinish h₁.rooted hv
  | block body =>
    apply Rooting.get
    apply (newFrame_rooting hm hm.current).bind
    intro f m₁ h₁ hf
    exact .within h₁.rooted (ih.run (h₁.rooted.at_ hf) body)
  | ifThen c s =>
    apply (ih.evaluate hm c).bind
    intro v m₁ h₁ _
    split
    · exact ih.execute h₁.rooted s
    · exact .pure h₁.rooted trivial
  | ifElse c s t =>
    apply (ih.evaluate hm c).bind
    intro v m₁ h₁ _
    split
    · exact ih.execute h₁.rooted s
    · exact ih.execute h₁.rooted t
  | loop c s => exact ih.loop hm c s
  | funDecl r =>
    apply Rooting.get
    apply (close_rooting hm hm.current r false).bind
    intro g m₁ h₁ hg
    exact (bindVariable_rooting (v := .function g) h₁.rooted hg _ _).map fun _ _ _ _ => trivial
  | ret word value =>
    cases value with
    | none => exact .pure hm trivial
    | some e => exact (ih.evaluate hm e).map fun _ _ _ hv => hv
  | classDecl x sup methods =>
    cases sup with
    | none =>
      exact (declareClass_rooting hm x (fun c hc => by cases hc) methods).map
        fun _ _ _ _ => trivial
    | some ref =>
      apply (ih.evaluate hm (.var ref)).bind
      intro v m₁ h₁ hv
      cases v with
      | klass c =>
        have hsup : ∀ d ∈ some c, d.Rooted m₁.store := by
          intro d hd
          cases hd
          exact hv
        exact (declareClass_rooting h₁.rooted x hsup methods).map fun _ _ _ _ => trivial
      | _ => exact .throw h₁.rooted _

theorem Roots.loop_succ (ih : Roots host n) (hm : m.Rooted) (c : Expr Distance)
    (s : Stmt Distance) : Rooting Completion.Rooted (Machine.loop host (n + 1) c s) m := by
  apply (heed_rooting host hm).bind
  intro _ m₁ h₁ _
  apply (ih.evaluate h₁.rooted c).bind
  intro v m₂ h₂ _
  split
  · apply (ih.execute h₂.rooted s).bind
    intro done m₃ h₃ hdone
    split
    · exact ih.loop h₃.rooted c s
    · exact .pure h₃.rooted hdone
  · exact .pure h₂.rooted trivial

/-- Running makes nothing but what refers to what was there before, by induction on the number of
steps. -/
theorem roots (hhost : ∀ f ∈ host.natives, f.Tame host.natives) (n : Nat) : Roots host n := by
  induction n with
  | zero => exact .zero
  | succ n ih =>
    exact {
      evaluate := ih.evaluate_succ
      arguments := ih.arguments_succ
      call := ih.call_succ hhost
      invoke := ih.invoke_succ
      run := ih.run_succ
      execute := ih.execute_succ
      loop := ih.loop_succ }

end Machine

end LoxLang
