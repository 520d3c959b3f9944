import LoxLang.Proofs.Machine.Fit

namespace LoxLang
set_option autoImplicit true

/-- A value made of others: one of them, the class of an object, a superclass, or a value without
parts. -/
inductive Value.From (given : List Value) : Value → Prop where
  | given : v ∈ given → From given v
  | ofObject {id : Nat} : From given (.object id c) → From given (.klass c)
  | parent : From given (.klass c) → c.superclass = some d → From given (.klass d)
  | nil : From given .nil
  | bool : From given (.bool b)
  | number : From given (.number x)
  | string : From given (.string t)

/-- A value can be called with so many arguments, none of which is missing. -/
def Value.Takes (natives : List Native) (k : Nat) : Value → Prop
  | .function f => f.arity ≤ k
  | .klass c => c.arity ≤ k
  | .native i => ∀ n, natives[i]? = some n → n.arity = k
  | _ => False

theorem Value.takes_of_arity? {host : Host} {v : Value} (h : Machine.arity? host v = some k) :
    v.Takes host.natives k := by
  cases v with
  | function f => exact Nat.le_of_eq (Option.some.inj h)
  | klass c => exact Nat.le_of_eq (Option.some.inj h)
  | native i =>
    intro n hn
    rw [Machine.arity?, hn] at h
    exact Option.some.inj h
  | nil | bool | number | string | object | absent => cases h

namespace Native

def Request.values : Request → List Value
  | make c => [.klass c]
  | setField _ _ v | define _ v => [v]
  | write _ | field _ _ | global _ | canceled => []

def got : Except Stop Value → List Value
  | .ok v => [v]
  | .error _ => []

/-- A function of the host can learn how a call ended. -/
def Heard (r : Except Stop Value) : Prop := ∀ e, r = .error e → e.isFatal = false

theorem Heard.ok {v : Value} : Heard (.ok v) := fun e he => by cases he

theorem Heard.error {e : Stop} (h : e.isFatal = false) : Heard (.error e) := fun e' he => by
  cases he
  exact h

/-- What a function of the host does hands on only what is made of these values and of what it gets
for its requests and calls. It calls what can be called, and does not break down. -/
inductive Act.Tame (natives : List Native) : List Value → Act → Prop where
  | done : v.From given → Tame natives given (.done v)
  | fail : (∀ c, e ≠ .crash c) → Tame natives given (.fail e)
  | ask : (∀ v ∈ q.values, v.From given) → (∀ vs, Tame natives (vs ++ given) (rest vs)) →
      Tame natives given (.ask q rest)
  | property {id : Nat} : (Value.object id c).From given →
      (∀ r, Heard r → Tame natives (got r ++ given) (rest r)) →
      Tame natives given (.property id c x rest)
  | call : f.From given → (∀ v ∈ args, v.From given) → f.Takes natives args.length →
      (∀ r, Heard r → Tame natives (got r ++ given) (rest r)) →
      Tame natives given (.call f args rest)

/-- What is done may fail with this stop, where the calls that fail do so with stops such as `P`. -/
inductive Act.Raises (P : Stop → Prop) : Stop → Act → Prop where
  | fail : Raises P e (.fail e)
  | ask : Raises P e (rest vs) → Raises P e (.ask q rest)
  | property {id : Nat} : Heard r → (∀ e', r = .error e' → e' = .fault (.undefinedProperty x)) →
      Raises P e (rest r) → Raises P e (.property id c x rest)
  | call : Heard r → (∀ e', r = .error e' → P e') → Raises P e (rest r) →
      Raises P e (.call f args rest)

inductive Act.Asks (P : Request → Prop) : Act → Prop where
  | done : Asks P (.done v)
  | fail : Asks P (.fail e)
  | ask : P q → (∀ vs, Asks P (rest vs)) → Asks P (.ask q rest)
  | property {id : Nat} : (∀ r, Asks P (rest r)) → Asks P (.property id c x rest)
  | call : (∀ r, Asks P (rest r)) → Asks P (.call f args rest)

theorem Act.Tame.not_crash (h : Tame natives given act) (he : Raises P e act) (c : Crash) :
    e ≠ .crash c := by
  induction he generalizing given with
  | fail =>
    cases h with
    | fail hno => exact hno c
  | ask _ ih =>
    cases h with
    | ask _ hrest => exact ih (hrest _)
  | property hr _ _ ih =>
    cases h with
    | property _ hrest => exact ih (hrest _ hr)
  | call hr _ _ ih =>
    cases h with
    | call _ _ _ hrest => exact ih (hrest _ hr)

end Native

/-- A function of the host that yields a value made of what it is given, and does not break down when
it gets as many arguments as it takes. -/
def Native.Tame (natives : List Native) (n : Native) : Prop :=
  ∀ now args, args.length = n.arity → (n.run now args).Tame natives args

/-- A function of the host that defines no global variables. -/
def Native.Discreet (n : Native) : Prop :=
  ∀ now args, (n.run now args).Asks fun q => ∀ x v, q ≠ .define x v

theorem Native.standard_discreet : ∀ n ∈ Native.standard, n.Discreet := by
  intro n hn now args
  rw [List.mem_singleton.1 hn]
  exact .done

theorem Native.standard_tame : ∀ n ∈ Native.standard, n.Tame Native.standard := by
  intro n hn now args _
  rw [List.mem_singleton.1 hn]
  exact .done .number

/-- Calls a function without parameters, and ends as the function does. -/
def Native.apply : Native := ⟨"apply", 1, fun _ args =>
  match args with
  | [.function f] =>
    if f.arity = 0 then
      .call (.function f) [] fun r =>
        match r with
        | .ok v => .done v
        | .error e => .fail e
    else .fail (.foreign "function has parameters")
  | _ => .fail (.foreign "not a function")⟩

theorem Native.apply_tame (natives : List Native) : Native.apply.Tame natives := by
  intro now args _
  unfold Native.apply
  dsimp only
  split
  · rename_i f
    split
    · rename_i hf
      refine .call (.given List.mem_cons_self) (fun v hv => absurd hv List.not_mem_nil)
        (Nat.le_of_eq hf) fun r hr => ?_
      cases r with
      | ok v => exact .done (.given List.mem_cons_self)
      | error e =>
        apply Native.Act.Tame.fail
        rintro c rfl
        cases hr _ rfl
    · exact .fail fun c => nofun
  · exact .fail fun c => nofun

/-- Why a run may stop: at a token of the program, by its host, or for lack of steps. -/
inductive Stop.Expected (T : Token → Prop) (host : Host) : Stop → Prop where
  | fault : T e.token → Expected T host (.fault e)
  | canceled : host.signal polls output = true → Expected T host .canceled
  | native {n : Native} : n ∈ host.natives → args.length = n.arity →
      (n.run host.now args).Raises (Expected T host) e → Expected T host e
  | exhausted : Expected T host .exhausted

namespace Watched

variable {T : Token → Prop} {host : Host} {w w' : Watched}

/-- A fit state that comes after another, in the same frame. -/
structure After (T : Token → Prop) (k : Nat) (w w' : Watched) : Prop where
  fits : w'.Fits T k
  grows : w.Grows w'
  current : w'.machine.current = w.machine.current

theorem After.refl (h : w.Fits T k) : After T k w w := ⟨h, .refl w, rfl⟩

theorem After.trans (h : After T k w w') (h' : After T k w' w'') : After T k w w'' :=
  ⟨h'.fits, h.grows.trans h'.grows, h'.current.trans h.current⟩

/-- A step leaves the machine fit. If it has a result then `R` holds of it, and else it stops for an
expected reason. -/
def Runs (T : Token → Prop) (host : Host) (P : Watch α) (R : α → Watched → Prop)
    (w : Watched) : Prop :=
  match P w with
  | .ok a w' => After T host.natives.length w w' ∧ R a w'
  | .error e w' => After T host.natives.length w w' ∧ e.Expected T host

theorem Runs.pure (hw : w.Fits T host.natives.length) (h : R a w) :
    Runs T host (Pure.pure a) R w := ⟨.refl hw, h⟩

theorem Runs.throw {R : α → Watched → Prop} (hw : w.Fits T host.natives.length)
    (he : e.Expected T host) : Runs T host (MonadExcept.throw e) R w := ⟨.refl hw, he⟩

theorem Runs.bind {P : Watch α} {F : α → Watch β} (h : Runs T host P R₁ w)
    (hF : ∀ a w', After T host.natives.length w w' → R₁ a w' → Runs T host (F a) R w') :
    Runs T host (P >>= F) R w := by
  unfold Runs at h
  change Runs T host (EStateM.bind P F) R w
  unfold Runs EStateM.bind
  cases hp : P w with
  | error e w' =>
    rw [hp] at h
    exact h
  | ok a w' =>
    rw [hp] at h
    have hrest := hF a w' h.1 h.2
    unfold Runs at hrest
    dsimp only
    cases hf : F a w' with
    | ok b w'' =>
      rw [hf] at hrest
      exact ⟨h.1.trans hrest.1, hrest.2⟩
    | error e w'' =>
      rw [hf] at hrest
      exact ⟨h.1.trans hrest.1, hrest.2⟩

theorem Runs.mono (h : Runs T host P R w)
    (hR : ∀ a w', After T host.natives.length w w' → R a w' → R' a w') :
    Runs T host P R' w := by
  unfold Runs at h ⊢
  cases hp : P w with
  | error e w' =>
    rw [hp] at h
    exact h
  | ok a w' =>
    rw [hp] at h
    exact ⟨h.1, hR a w' h.1 h.2⟩

theorem Runs.step {P : Watch α} {F : α → Watch β} (hp : P w = .ok a w')
    (hw : After T host.natives.length w w') (h : Runs T host (F a) R w') :
    Runs T host (P >>= F) R w := by
  have hfirst : Runs T host P (fun b w'' => b = a ∧ w'' = w') w := by
    unfold Runs
    rw [hp]
    exact ⟨hw, rfl, rfl⟩
  apply hfirst.bind
  rintro b w'' - ⟨rfl, rfl⟩
  exact h

theorem Runs.lift_ok {step : Eval α} {m : Machine} (hs : step w.machine = .ok a m)
    (hw : After T host.natives.length w { w with machine := m })
    (h : R a { w with machine := m }) : Runs T host (lift step) R w := by
  unfold Runs lift
  rw [hs]
  exact ⟨hw, h⟩

theorem Runs.get {F : Watched → Watch α} (h : Runs T host (F w) R w) :
    Runs T host (MonadState.get >>= F) R w := h

theorem Runs.ite {c : Prop} [Decidable c] {P P' : Watch α} (h : Runs T host P R w)
    (h' : Runs T host P' R w) : Runs T host (if c then P else P') R w := by
  split
  · exact h
  · exact h'

theorem lift_bind (P : Eval α) (F : α → Eval β) :
    lift (P >>= F) = lift P >>= fun a => lift (F a) := by
  funext w
  change lift (EStateM.bind P F) w = EStateM.bind (lift P) (fun a => lift (F a)) w
  unfold EStateM.bind lift
  dsimp only
  cases P w.machine with
  | ok a m => rfl
  | error e m => rfl

theorem Runs.lift_get {F : Machine → Eval α} (h : Runs T host (lift (F w.machine)) R w) :
    Runs T host (lift (MonadState.get >>= F)) R w := h

theorem Runs.fault {R : α → Watched → Prop} (hw : w.Fits T host.natives.length) (ht : T token)
    (message : Text) : Runs T host (lift (Machine.fault token message)) R w :=
  ⟨.refl hw, .fault ht⟩

def at_ (w : Watched) (f : FrameId) : Watched := { w with machine := { w.machine with current := f } }

theorem Grows.at_ (w : Watched) (f : FrameId) : Grows w (w.at_ f) := ⟨.refl _, fun _ _ => rfl⟩

theorem Fits.at_ (h : w.Fits T k) (f : FrameId) : (w.at_ f).Fits T k :=
  h.of_store (.at_ w f) rfl h.visits

theorem Runs.within {P : Watch α} (h : Runs T host P R (w.at_ f))
    (hR : ∀ a w', R a w' → R a (w'.at_ w.machine.current)) : Runs T host (within f P) R w := by
  have hback (w' : Watched) (h : After T host.natives.length (w.at_ f) w') :
      After T host.natives.length w (w'.at_ w.machine.current) :=
    ⟨h.fits.at_ _, ((Grows.at_ w f).trans h.grows).trans (.at_ w' _), rfl⟩
  unfold Runs Watched.within
  unfold Runs Watched.at_ at h
  cases hp : P { w with machine := { w.machine with current := f } } with
  | ok a w' =>
    rw [hp] at h
    exact ⟨hback w' h.1, hR a w' h.2⟩
  | error e w' =>
    rw [hp] at h
    exact ⟨hback w' h.1, h.2⟩

theorem Stands.find {Δ : Display} (h : w.Stands Δ pending) (hd : Δ.scopes.distance x = some d) :
    ∃ a, Δ[d]? = some a ∧ x ∈ a.names ∧ (∀ i < d, ∀ b, Δ[i]? = some b → x ∉ b.names) ∧
      w.machine.store.ancestor? w.machine.current d = some a.frame ∧
      ((d = 0 → pending ≠ some x) → ∃ v, (w.machine.store.vars a.frame).get? x = some v) := by
  obtain ⟨⟨g, hg, hx⟩, hnearest⟩ := Scopes.distance_eq_some hd
  rw [Display.scopes, List.getElem?_map] at hg
  obtain ⟨a, ha, rfl⟩ := Option.map_eq_some_iff.1 hg
  refine ⟨a, ha, hx, fun i hi b hb => ?_, (h.chain.ancestor? ha).1, fun hp => ?_⟩
  · refine hnearest i hi _ ?_
    rw [Display.scopes, List.getElem?_map, hb]
    rfl
  · exact Option.isSome_iff_exists.1 (h.filled d a ha x hx hp)

theorem Runs.visit {F : Unit → Watch α} (hw : w.Fits T host.natives.length)
    (hv : Visit.Sound ⟨use, name, mark, Δ, frame, w.machine.store⟩)
    (h : ∀ w', After T host.natives.length w w' → w'.machine = w.machine →
      Runs T host (F ()) R w') :
    Runs T host (visit use name mark Δ frame >>= F) R w := by
  have hg : Grows w { w with visits := w.visits ++
      [⟨use, name, mark, Δ, frame, w.machine.store⟩] } := ⟨.refl _, fun _ _ => rfl⟩
  have hafter : After T host.natives.length w { w with visits := w.visits ++
      [⟨use, name, mark, Δ, frame, w.machine.store⟩] } := by
    refine ⟨hw.of_store hg rfl fun u hu => ?_, hg, rfl⟩
    rcases List.mem_append.1 hu with hu | hu
    · exact hw.visits u hu
    · exact List.mem_singleton.1 hu ▸ hv
  exact .step rfl hafter (h _ hafter rfl)

theorem Runs.refer {Δ : Display} {ref : Reference Distance} {F : Unit → Watch α}
    (hw : w.Fits T host.natives.length) (hs : w.Stands Δ pending)
    (hmark : ref.mark = Δ.scopes.distance ref.name.lexeme)
    (hp : use ≠ .assign → ref.mark = some 0 → pending ≠ some ref.name.lexeme)
    (h : ∀ w', After T host.natives.length w w' → w'.machine = w.machine →
      Runs T host (F ()) R w') :
    Runs T host (refer use ref Δ >>= F) R w := by
  refine Runs.visit hw (fun d hd => ?_) h
  obtain ⟨a, ha, hx, hnearest, hframe, hbound⟩ := hs.find (hmark.symm.trans hd)
  refine ⟨a, ha, hx, hnearest, hframe, fun huse => hbound fun hzero => hp huse ?_⟩
  exact hzero ▸ hd

theorem lookUp_runs (hw : w.Fits T host.natives.length) {name : Token} (hT : T name)
    (hbound : ∀ d, mark = some d → ∃ g v, w.machine.store.ancestor? w.machine.current d = some g ∧
      (w.machine.store.vars g).get? name.lexeme = some v) :
    Runs T host (lift (Machine.lookUp name mark))
      (fun v w' => v.Fits T host.natives.length w') w := by
  rw [Machine.lookUp]
  apply Runs.lift_get
  cases mark with
  | some d =>
    obtain ⟨g, v, hg, hv⟩ := hbound d rfl
    have hget : w.machine.store.getAt? w.machine.current d name.lexeme = some v := by
      rw [Store.getAt?, hg, Option.map_some, hv]
      rfl
    dsimp only
    rw [hget]
    exact ⟨.refl hw, hw.vars g _ v hv⟩
  | none =>
    dsimp only
    cases hv : w.machine.store.get? Machine.globals name.lexeme with
    | some v =>
      obtain ⟨g, hg⟩ := Store.get?_mem hv
      exact ⟨.refl hw, hw.vars g _ v hg⟩
    | none => exact ⟨.refl hw, .fault hT⟩

theorem After.define {x : Text} (hw : w.Fits T k)
    (hv : v.Fits T k (w.withStore (w.machine.store.define f x v)))
    (hthis : f ≠ Machine.globals → x = "this" → ∃ id c, v = .object id c) :
    After T k w (w.withStore (w.machine.store.define f x v)) :=
  ⟨hw.define hv hthis, .withStore (.define _ _ _ _), rfl⟩

theorem assign_runs (hw : w.Fits T host.natives.length) {name : Token} (hT : T name)
    (hthis : name.lexeme ≠ "this") (hv : v.Fits T host.natives.length w)
    (hframe : ∀ d, mark = some d → ∃ g,
      w.machine.store.ancestor? w.machine.current d = some g) :
    Runs T host (lift (Machine.assign name mark v)) (fun _ _ => True) w := by
  have hdefine (g : FrameId) : After T host.natives.length w
      (w.withStore (w.machine.store.define g name.lexeme v)) :=
    .define hw (hv.grows (.withStore (.define _ _ _ _))) fun _ hx => absurd hx hthis
  rw [Machine.assign]
  apply Runs.lift_get
  cases mark with
  | some d =>
    obtain ⟨g, hg⟩ := hframe d rfl
    have hassign : w.machine.store.assignAt? w.machine.current d name.lexeme v =
        some (w.machine.store.define g name.lexeme v) := by
      rw [Store.assignAt?, hg, Option.map_some]
    dsimp only
    rw [hassign]
    exact ⟨hdefine g, trivial⟩
  | none =>
    dsimp only
    cases ha : w.machine.store.assign? Machine.globals name.lexeme v with
    | some store =>
      obtain ⟨g, -, rfl⟩ := Option.map_eq_some_iff.1 ha
      exact ⟨hdefine g, trivial⟩
    | none => exact ⟨.refl hw, .fault hT⟩

theorem negate_runs (hw : w.Fits T host.natives.length) {op : Token} (hT : T op)
    (hop : op.kind.Prefixes) (v : Value) :
    Runs T host (lift (Machine.negate op v)) (fun v w' => v.Fits T host.natives.length w') w := by
  rcases hop with hk | hk
  · unfold Machine.negate
    rw [hk]
    exact ⟨.refl hw, trivial⟩
  · unfold Machine.negate
    rw [hk]
    cases v with
    | number x => exact ⟨.refl hw, trivial⟩
    | _ => exact .fault hw hT _

theorem arithmetic_runs (hw : w.Fits T host.natives.length) {op : Token} (hT : T op)
    (hop : op.kind ∈ [Token.Kind.greater, .greaterEqual, .less, .lessEqual, .minus, .slash, .star])
    (left right : Value) :
    Runs T host (lift (Machine.arithmetic op left right))
      (fun v w' => v.Fits T host.natives.length w') w := by
  unfold Machine.arithmetic
  split
  · simp only [List.mem_cons, List.not_mem_nil, or_false] at hop
    rcases hop with hk | hk | hk | hk | hk | hk | hk
    all_goals
      rw [hk]
      exact ⟨.refl hw, trivial⟩
  · exact .fault hw hT _

theorem combine_runs (hw : w.Fits T host.natives.length) {op : Token} (hT : T op)
    (hop : op.kind.Combines) (left right : Value) :
    Runs T host (lift (Machine.combine op left right))
      (fun v w' => v.Fits T host.natives.length w') w := by
  unfold Machine.combine
  split
  · exact ⟨.refl hw, trivial⟩
  · exact ⟨.refl hw, trivial⟩
  · unfold Machine.add
    split
    · exact ⟨.refl hw, trivial⟩
    · exact ⟨.refl hw, trivial⟩
    · exact .fault hw hT _
  · refine arithmetic_runs hw hT ?_ left right
    simp only [Token.Kind.Combines, List.mem_cons, List.not_mem_nil, or_false] at hop ⊢
    grind

theorem print_runs (hw : w.Fits T host.natives.length) (hv : v.Fits T host.natives.length w) :
    Runs T host (lift (Machine.print v)) (fun _ _ => True) w := by
  have htext : ∃ t, v.text? = some t := by
    cases v with
    | absent => exact hv.elim
    | bool b => cases b <;> exact ⟨_, rfl⟩
    | _ => exact ⟨_, rfl⟩
  obtain ⟨t, ht⟩ := htext
  have hg : Grows w { w with machine := w.machine.write (t ++ [Text.newline]) } :=
    ⟨.refl _, fun _ _ => rfl⟩
  unfold Machine.print
  rw [ht]
  exact ⟨⟨hw.of_store hg rfl hw.visits, hg, rfl⟩, trivial⟩

theorem After.machine (hw : w.Fits T k) {m : Machine} (hs : m.store = w.machine.store)
    (hc : m.current = w.machine.current) : After T k w { w with machine := m } :=
  have hg : Grows w { w with machine := m } := ⟨hs ▸ .refl _, fun _ _ => rfl⟩
  ⟨hw.of_store hg hs hw.visits, hg, hc⟩

theorem heed_runs (hw : w.Fits T host.natives.length) :
    Runs T host (lift (Machine.heed host)) (fun _ _ => True) w := by
  have hafter : After T host.natives.length w
      { w with machine := { w.machine with polls := w.machine.polls + 1 } } := .machine hw rfl rfl
  rw [Machine.heed, lift_bind]
  refine .step rfl hafter ?_
  cases hs : host.signal w.machine.polls w.machine.output with
  | true => exact ⟨.refl hafter.fits, .canceled hs⟩
  | false => exact ⟨.refl hafter.fits, trivial⟩

theorem After.setField {x : Text} (hw : w.Fits T k) (hv : v.Fits T k w) (id : Nat) :
    After T k w (w.withStore (w.machine.store.setField id x v)) :=
  ⟨hw.setField hv id x, .withStore (.objects _ _), rfl⟩

theorem After.newObject (hw : w.Fits T k) :
    After T k w (w.withStore w.machine.store.newObject.2) :=
  ⟨hw.newObject, .withStore (.objects _ _), rfl⟩

theorem serve_runs {q : Native.Request} (hw : w.Fits T host.natives.length)
    (hq : ∀ v ∈ q.values, Value.Fits T host.natives.length w v) :
    Runs T host (lift (Machine.serve host q))
      (fun vs w' => ∀ v ∈ vs, Value.Fits T host.natives.length w' v) w := by
  have hnone (w' : Watched) : ∀ v ∈ ([] : List Value), v.Fits T host.natives.length w' :=
    fun _ hv => absurd hv List.not_mem_nil
  cases q with
  | write t => exact .lift_ok (m := w.machine.write t) rfl (.machine hw rfl rfl) (hnone _)
  | make c =>
    have hafter := After.newObject hw
    refine .lift_ok rfl hafter fun v hv => ?_
    rw [List.mem_singleton.1 hv]
    exact (hq _ (List.mem_singleton_self _)).grows hafter.grows
  | field id x =>
    exact .lift_ok rfl (.refl hw) fun v hv => hw.fields id x v (Option.mem_toList.1 hv)
  | setField id x v =>
    exact .lift_ok rfl (.setField hw (hq _ (List.mem_singleton_self _)) id) (hnone _)
  | global x =>
    refine .lift_ok rfl (.refl hw) fun v hv => ?_
    obtain ⟨g, hg⟩ := Store.get?_mem (Option.mem_toList.1 hv)
    exact hw.vars g _ v hg
  | define x v =>
    have hv := (hq _ (List.mem_singleton_self _)).grows
      (.withStore (.define _ Machine.globals x v))
    exact .lift_ok rfl (.define hw hv fun h => absurd rfl h) (hnone _)
  | canceled =>
    refine .lift_ok (m := { w.machine with polls := w.machine.polls + 1 }) rfl
      (.machine hw rfl rfl) fun v hv => ?_
    rw [List.mem_singleton.1 hv]
    trivial

/-- What a function of the host learns of a call: a value that fits, or that it failed with a stop such
as `E`. -/
structure Caught (T : Token → Prop) (k : Nat) (E : Stop → Prop) (r : Except Stop Value)
    (w : Watched) : Prop where
  heard : Native.Heard r
  failed : ∀ e, r = .error e → E e
  fits : ∀ v ∈ Native.got r, v.Fits T k w

theorem Caught.ok (h : v.Fits T k w) : Caught T k E (.ok v) w := by
  refine ⟨.ok, fun e he => ?_, fun u hu => ?_⟩
  · cases he
  · rw [List.mem_singleton.1 hu]
    exact h

theorem Caught.error (hfatal : e.isFatal = false) (h : E e) : Caught T k E (.error e) w := by
  refine ⟨.error hfatal, fun e' he => ?_, List.forall_mem_nil _⟩
  cases he
  exact h

/-- A function of the host goes on after a call, unless that fails for good. -/
theorem Runs.attempt {P : Watch Value}
    (h : Runs T host P (fun v w' => v.Fits T host.natives.length w') w) :
    Runs T host (Native.attempt P) (Caught T host.natives.length (Stop.Expected T host)) w := by
  unfold Runs Native.attempt at *
  cases hp : P w with
  | ok v w' =>
    rw [hp] at h
    exact ⟨h.1, .ok h.2⟩
  | error e w' =>
    rw [hp] at h
    dsimp only at h ⊢
    cases he : e.isFatal with
    | true => exact h
    | false => exact ⟨h.1, .error he h.2⟩

end Watched

end LoxLang
