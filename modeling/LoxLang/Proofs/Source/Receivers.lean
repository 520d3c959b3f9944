import LoxLang.Proofs.Machine.Binding
import LoxLang.Proofs.Source.Globals

namespace LoxLang

/-- A value that a program can come by: one without parts, or one that a variable or a field has. -/
def Store.Offers (s : Store) : Value → Prop
  | .nil | .bool _ | .number _ | .string _ => True
  | v => s.Holds v

namespace Anchored
set_option autoImplicit true

/-- A machine on which nothing has been evaluated. -/
def start (natives : List Native) : Anchored := ⟨.new natives, fun _ => ⟨.outside, none⟩, []⟩

/-- Performs a step and leaves the machine in its global frame if the step fails. -/
def attempt (step : Anchor α) (a : Anchored) : Except Stop α × Anchored :=
  match step a with
  | .ok x a' => (.ok x, a')
  | .error e a' => (.error e, a'.at_ Machine.globals)

def write (a : Anchored) (t : Text) : Anchored := { a with machine := a.machine.write t }

/-- Runs a resolved program, or evaluates it and writes its value. -/
def perform (o : Options) (program : List (Stmt Distance)) (a : Anchored) : Ending × Anchored :=
  match if o.echo then Source.soleExpression? program else none with
  | some e =>
    match attempt (evaluate o.host o.steps .outside e) a with
    | (.ok v, a) =>
      match v.text? with
      | some t => (.done, a.write (t ++ [Text.newline]))
      | none => (.crashed .missingValue, a)
    | (.error stop, a) => (.ofStop stop, a)
  | none =>
    match attempt (statements o.host o.steps program) a with
    | (.ok _, a) => (.done, a)
    | (.error stop, a) => (.ofStop stop, a)

/-- Runs a text, with `this` and `super` taken from the context of a place. -/
def enact (o : Options) (text : Text) (a : Anchored) : Ending × Anchored :=
  let s := Source.ofText text
  match s.error? with
  | some e => (.failed e, a)
  | none =>
    match a.machine.defineAll o.environment o.defines.sorted with
    | (some e, m) => (.failed e, { a with machine := m })
    | (none, m) =>
      let resolved := Resolved.ofProgram s.program
      match Source.compileError? resolved.diagnostics with
      | some e => (.failed e, { a with machine := m })
      | none => perform o resolved.tree { a with machine := m }

/-- Runs texts in turn, each in a way of its own. -/
def enacted (runs : List (Options × Text)) (a : Anchored) : Anchored :=
  runs.foldl (fun a r => (enact r.1 r.2 a).2) a

theorem attempt_agrees {P : Watch α} {Q : Anchor α} (h : Agree P Q w a) :
    (attempt Q a).1 = (Watched.attempt P w).1 ∧ Tied (Watched.attempt P w).2 (attempt Q a).2 := by
  unfold Agree at h
  unfold attempt Watched.attempt
  cases hp : P w with
  | ok x w' =>
    rw [hp] at h
    obtain ⟨a', hq, ht⟩ := h
    rw [hq]
    exact ⟨rfl, ht⟩
  | error e w' =>
    rw [hp] at h
    obtain ⟨a', hq, ht⟩ := h
    rw [hq]
    exact ⟨rfl, ht.at_ _⟩

theorem Place.outside (hw : w.Fits T host.natives.length) (hg : w.machine.current = Machine.globals)
    (ht : Tied w a) : Place T host .outside [] none w a :=
  ⟨hw, Watched.global_stands hg, .outside _, ht⟩

theorem statements_agrees (hT : ∀ t, T t → t.Lexical)
    (hN : ∀ n ∈ host.natives, n.Tame host.natives) (hD : ∀ n ∈ host.natives, n.Discreet)
    (steps : Nat) (hw : w.Fits T host.natives.length) (hg : w.machine.current = Machine.globals)
    (ht : Tied w a) (h : Program.Scoped T [] ss) :
    Agree (Watched.statements host steps ss) (statements host steps ss) w a := by
  induction ss generalizing w a with
  | nil => exact .pure ht _
  | cons s ss ih =>
    cases h with
    | cons hs hss =>
      rw [Scopes.declare?_nil] at hss
      rw [Watched.statements, statements]
      refine (heed_follows hw ht).bind fun _ w₁ a₁ h₁ _ => ?_
      have hg₁ := h₁.after.current.trans hg
      refine ((binding hT hN hD steps).execute (.outside h₁.after.fits hg₁ h₁.tied) .nil hs).bind
        fun _ w₂ a₂ h₂ _ => ?_
      exact ih h₂.after.fits (h₂.after.current.trans hg₁) h₂.tied hss

theorem Tied.write (ht : Tied w a) (t : Text) : Tied (w.write t) (a.write t) :=
  ⟨congrArg (fun m : Machine => m.write t) ht.machine, ht.origins, ht.sights⟩

theorem perform_agrees (hT : ∀ t, T t → t.Lexical)
    (hN : ∀ n ∈ o.host.natives, n.Tame o.host.natives) (hD : ∀ n ∈ o.host.natives, n.Discreet)
    {w : Watched} (hw : w.Ready T o.host.natives.length) (ht : Tied w a)
    (h : Program.Scoped T [] program) (log : List Log.Record) :
    (perform o program a).1 = (Source.perform o program log w.machine).ending ∧
      Tied (Watched.perform o program w) (perform o program a).2 := by
  unfold perform Watched.perform Source.perform
  cases hs : if o.echo then Source.soleExpression? program else none with
  | some e =>
    have he : e.Scoped T [] none := by
      split at hs
      · exact Watched.soleExpression?_scoped h hs
      · cases hs
    have hmirrored : Watched.Mirrored o.host o.steps := Watched.mirrored o.steps
    have hmirror := Watched.attempt_mirrors (hmirrored.evaluate [] e) w
    obtain ⟨hvalue, htied⟩ := attempt_agrees
      ((binding hT hN hD o.steps).evaluate (.outside hw.fits hw.current ht) he).agree
    dsimp only [Machine.value]
    rw [hmirror]
    generalize Watched.attempt (Watched.evaluate o.host o.steps [] e) w = result at hvalue htied
    generalize attempt (evaluate o.host o.steps .outside e) a = result' at hvalue htied
    obtain ⟨x, w'⟩ := result
    obtain ⟨x', a'⟩ := result'
    obtain rfl : x' = x := hvalue
    cases x' with
    | error stop => exact ⟨rfl, htied⟩
    | ok v =>
      dsimp only
      cases v.text? with
      | some t => exact ⟨rfl, htied.write _⟩
      | none => exact ⟨rfl, htied⟩
  | none =>
    have hmirrors : Watched.Mirrors (Watched.statements o.host o.steps program) _ :=
      Watched.statements_mirrors _ _
    have hmirror := Watched.attempt_mirrors hmirrors w
    obtain ⟨hvalue, htied⟩ := attempt_agrees
      (statements_agrees hT hN hD o.steps hw.fits hw.current ht h)
    dsimp only [Machine.interpret]
    rw [hmirror]
    generalize Watched.attempt (Watched.statements o.host o.steps program) w = result at hvalue htied
    generalize attempt (statements o.host o.steps program) a = result' at hvalue htied
    obtain ⟨x, w'⟩ := result
    obtain ⟨x', a'⟩ := result'
    obtain rfl : x' = x := hvalue
    cases x' with
    | error stop => exact ⟨rfl, htied⟩
    | ok v => exact ⟨rfl, htied⟩

theorem identifier_not_reserved {name : Text} (h : isIdentifier name) : ¬ name.Reserved := by
  unfold isIdentifier at h
  have hlexical := Source.tokens_lexical name
  split at h
  · rename_i t t' htokens
    obtain ⟨hkind, hlexeme⟩ := Bool.and_eq_true_iff.1 h
    have ht := (hlexical t (by simp [htokens])).1 (of_decide_eq_true hkind)
    have hname : t.lexeme = name := of_decide_eq_true hlexeme
    rintro (hx | hx)
    · exact ht.1 (hname.trans hx)
    · exact ht.2 (hname.trans hx)
  · cases h

theorem Tied.defineAll {w : Watched} (hw : w.Ready T k) (ht : Tied w a)
    (h : w.machine.defineAll environment defines = (e, m)) :
    Tied { w with machine := m } { a with machine := m } := by
  induction defines generalizing w a with
  | nil =>
    cases h
    exact ht.step (.refl _) rfl
  | cons d rest ih =>
    obtain ⟨name, source⟩ := d
    rw [Machine.defineAll] at h
    cases hd : w.machine.defineFormula environment name source with
    | error e =>
      rw [hd] at h
      cases h
      exact ht.step (.refl _) rfl
    | ok m₁ =>
      rw [hd] at h
      have hready := Watched.defineFormula_ready hw hd
      have hname : isIdentifier name := by
        unfold Machine.defineFormula at hd
        split at hd
        · assumption
        · cases hd
      obtain ⟨v, rfl⟩ := Machine.defineFormula_ok hd
      have hkeeps := Store.Keeps.global hw.fits.size (identifier_not_reserved hname) v
      exact ih (w := { w with machine := w.machine.define name v })
        (a := { a with machine := w.machine.define name v }) hready (ht.step hkeeps rfl) h

open Source in
/-- A text ends alike on the two machines, whatever becomes of it. -/
theorem enact_agrees (hN : ∀ n ∈ o.host.natives, n.Tame o.host.natives)
    (hD : ∀ n ∈ o.host.natives, n.Discreet) {w : Watched}
    (hw : w.Ready (Ran ts) o.host.natives.length) (ht : Tied w a) (hm : t ∈ ts) :
    (enact o t a).1 = (Source.run o t w.machine).ending ∧
      Tied (Watched.observe o t w) (enact o t a).2 := by
  unfold enact Watched.observe Source.run Source.execute
  rw [ht.machine]
  dsimp only
  cases hstatic : (Source.ofText t).error? with
  | some e => exact ⟨rfl, ht⟩
  | none =>
    dsimp only
    cases hd : w.machine.defineAll o.environment o.defines.sorted with
    | mk e m =>
      have htied := Tied.defineAll hw ht hd
      cases e with
      | some e => exact ⟨rfl, htied⟩
      | none =>
        dsimp only
        cases hresolving :
            compileError? (Resolved.ofProgram (Source.ofText t).program).diagnostics with
        | some e => exact ⟨rfl, htied⟩
        | none =>
          have hs : staticFaults t = [] := compileError?_eq_none hstatic
          have hr : resolvingFaults t = [] := compileError?_eq_none hresolving
          have hscoped := program_scoped ran_lexical (fun u hu => ⟨t, hm, hs, hr, hu⟩) hs hr
          exact perform_agrees ran_lexical hN hD (Watched.defineAll_ready hw hd) htied hscoped _

theorem start_tied (natives : List Native) : Tied (Watched.start natives) (start natives) := by
  refine ⟨rfl, fun n hn => ?_, fun v hv => absurd hv List.not_mem_nil⟩
  exact .function (.outside _) .nil

theorem enacted_tied {natives : List Native} (ts : List Text) (hN : ∀ n ∈ natives, n.Tame natives)
    (hD : ∀ n ∈ natives, n.Discreet) {w : Watched}
    (hw : w.Ready (Source.Ran ts) natives.length) (ht : Tied w a)
    {runs : List (Options × Text)} (hruns : ∀ r ∈ runs, r.1.host.natives = natives)
    (hts : ∀ r ∈ runs, r.2 ∈ ts) : Tied (Source.observed runs w) (enacted runs a) := by
  induction runs generalizing w a with
  | nil => exact ht
  | cons r runs ih =>
    obtain ⟨hr, hruns⟩ := List.forall_mem_cons.1 hruns
    obtain ⟨hmem, hts⟩ := List.forall_mem_cons.1 hts
    subst hr
    exact ih (Source.observe_ready hN hw hmem) (enact_agrees hN hD hw ht hmem).2 hruns hts

theorem bind_ok {P : Anchor α} {F : α → Anchor β} (h : (P >>= F) a = .ok y a') :
    ∃ x a₁, P a = .ok x a₁ ∧ F x a₁ = .ok y a' := by
  change EStateM.bind P F a = _ at h
  unfold EStateM.bind at h
  cases hp : P a with
  | ok x a₁ =>
    rw [hp] at h
    exact ⟨x, a₁, rfl, h⟩
  | error e a₁ =>
    rw [hp] at h
    cases h

theorem invoke_initializer {f : Closure} {id : Nat} (hi : f.isInitializer)
    (hr : (a.origins f.serial).context.receiver = some (id, c))
    (h : invoke host n f args a = .ok v a') : v = .object id c := by
  cases n with
  | zero => cases h
  | succ n =>
    rw [invoke] at h
    obtain ⟨a₀, _, hget, h⟩ := bind_ok h
    cases hget
    obtain ⟨frame, a₁, -, h⟩ := bind_ok h
    obtain ⟨_, a₂, -, h⟩ := bind_ok h
    obtain ⟨done, a₃, -, h⟩ := bind_ok h
    rw [if_pos hi, this, hr] at h
    cases h
    rfl

theorem offered_fits {w : Watched} (hw : w.Fits T k) (h : w.machine.store.Offers v) :
    v.Fits T k w := by
  have hheld (h : w.machine.store.Holds v) : v.Fits T k w := by
    rcases h with ⟨f, x, hx⟩ | ⟨id, x, hx⟩
    · exact hw.vars f x v hx
    · exact hw.fields id x v hx
  cases v with
  | nil | bool | number | string => trivial
  | native | function | klass | object | absent => exact hheld h

/-- An initializer that a variable or a field has yields the object that its frame binds `this` to. -/
theorem held_initializer {natives : List Native} (hT : ∀ t, T t → t.Lexical)
    (hN : ∀ n ∈ natives, n.Tame natives) (hD : ∀ n ∈ natives, n.Discreet) {w : Watched}
    (hw : w.Fits T natives.length) (ht : Tied w a)
    {f : Closure}
    (hf : w.machine.store.Holds (.function f)) (hi : f.isInitializer) :
    ∃ id c, (w.machine.store.vars f.frame).get? "this" = some (.object id c) ∧
      ∀ host : Host, host.natives = natives → ∀ steps args v m,
        args.length = f.arity → (∀ u ∈ args, w.machine.store.Offers u) →
        Machine.invoke host steps f args w.machine = .ok v m → v = .object id c := by
  have hfits : f.Fits T w := offered_fits hw (v := .function f) hf
  obtain ⟨id, c, hreceiver, hthis, -⟩ := initializer_receiver hfits hi
    (ht.origins f.serial hfits.serial).context
  refine ⟨id, c, hthis, fun host hsame steps args v m hlen hoffers hrun => ?_⟩
  subst hsame
  have hagree := ((binding hT hN hD steps).invoke hw ht hfits
    (fun u hu => offered_fits hw (hoffers u hu)) (Nat.le_of_eq hlen.symm)).agree
  have hmirrored : Watched.Mirrored host steps := Watched.mirrored steps
  rw [← hmirrored.invoke f args w] at hrun
  unfold Agree at hagree
  cases hp : Watched.invoke host steps f args w with
  | error e w' =>
    rw [hp] at hrun
    cases hrun
  | ok x w' =>
    rw [hp] at hrun hagree
    cases hrun
    obtain ⟨a', hq, -⟩ := hagree
    exact invoke_initializer hi hreceiver hq

end Anchored

namespace Source
open Anchored

/-- Receivers and superclasses are bound by the text. Whatever texts are run in turn, taking `this` and
`super` from the context of a place comes to the same end, output and store as looking for them in the
frames, and the frames bind just that. An initializer that a variable or a field has yields the object
it is bound to. -/
theorem run_enact (natives : List Native) (hN : ∀ n ∈ natives, n.Tame natives)
    (hD : ∀ n ∈ natives, n.Discreet)
    (runs : List (Options × Text)) (hruns : ∀ r ∈ runs, r.1.host.natives = natives)
    (o : Options) (ho : o.host.natives = natives) (t : Text) :
    (enact o t (enacted runs (start natives))).1 = (run o t (after runs (.new natives))).ending ∧
    (enact o t (enacted runs (start natives))).2.machine =
      (run o t (after runs (.new natives))).machine ∧
    (∀ v ∈ (enact o t (enacted runs (start natives))).2.sights, v.Sound) ∧
    ∀ f, (run o t (after runs (.new natives))).machine.store.Holds (.function f) →
      f.isInitializer →
      ∃ id c, ((run o t (after runs (.new natives))).machine.store.vars f.frame).get? "this" =
          some (.object id c) ∧
        ∀ host : Host, host.natives = natives → ∀ steps args v m, args.length = f.arity →
          (∀ u ∈ args, (run o t (after runs (.new natives))).machine.store.Offers u) →
          Machine.invoke host steps f args (run o t (after runs (.new natives))).machine = .ok v m →
          v = .object id c := by
  have hts : ∀ r ∈ runs, r.2 ∈ runs.map Prod.snd ++ [t] :=
    fun r hr => List.mem_append_left _ (List.mem_map_of_mem hr)
  have hmem := List.mem_append_right (runs.map Prod.snd) (List.mem_singleton_self t)
  have hready := observed_ready _ hN (Watched.start_ready natives) hruns hts
  have htied := enacted_tied _ hN hD (Watched.start_ready natives) (start_tied natives) hruns hts
  have hmachine : (observed runs (Watched.start natives)).machine = after runs (.new natives) :=
    observed_machine runs _
  subst ho
  obtain ⟨hending, htied'⟩ := enact_agrees hN hD hready htied hmem
  have hready' := observe_ready hN hready hmem
  have hmachine' := Watched.observe_machine o t (observed runs (Watched.start o.host.natives))
  rw [hmachine] at hending hmachine'
  refine ⟨hending, htied'.machine.trans hmachine', htied'.sights, fun f hf hi => ?_⟩
  rw [← hmachine'] at hf ⊢
  exact held_initializer ran_lexical hN hD hready'.fits htied' hf hi

theorem run_enact_inherited :
    (∀ r ∈ [((⟨⟨Native.standard, 0, .never⟩, false, [], fun _ => [], 20⟩ : Options),
        ("class A \x7b m() \x7b return this; \x7d \x7d" : Text))],
      r.1.host.natives = Native.standard) ∧
    ∀ v ∈ (enact ⟨⟨Native.standard, 0, .never⟩, false, [], fun _ => [], 20⟩
        "class B < A \x7b m() \x7b return super.m(); \x7d \x7d B().m();"
        (enacted [(⟨⟨Native.standard, 0, .never⟩, false, [], fun _ => [], 20⟩,
          "class A \x7b m() \x7b return this; \x7d \x7d")] (start Native.standard))).2.sights,
      v.Sound :=
  ⟨by simp, (run_enact Native.standard Native.standard_tame Native.standard_discreet _
    (by simp) _ rfl _).2.2.1⟩

/-- The method of the superclass is asked for two frames out, and it is the object of the subclass
that it sees. -/
example : (enact ⟨⟨Native.standard, 0, .never⟩, false, [], fun _ => [], 20⟩
    "class B < A \x7b m() \x7b return super.m(); \x7d \x7d B().m();"
    (enacted [(⟨⟨Native.standard, 0, .never⟩, false, [], fun _ => [], 20⟩,
      "class A \x7b m() \x7b return this; \x7d \x7d")] (start Native.standard))).2.sights.filterMap
      (fun v => match v.expr with
        | .this ref | .super ref _ =>
          some (ref.mark, v.context.receiver.map (·.2.name), v.context.parent.map Class.name)
        | _ => none) =
    ([(some 2, some "B", some "A"), (some 1, some "B", none)] :
      List (Distance × Option Text × Option Text)) := by
  decide +kernel

end Source

end LoxLang
