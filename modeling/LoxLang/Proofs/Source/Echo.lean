import LoxLang.Proofs.Machine.Depth
import LoxLang.Proofs.Source.Sound

namespace LoxLang

/-- The same way to run, with echo or without it, and with another bound on the depth. -/
def Options.echoing (o : Options) (echo : Bool) (steps : Nat) : Options := { o with echo, steps }

/-- Whether a program is a single expression. -/
def Stmt.isSole {μ : Type} : List (Stmt μ) → Bool
  | [.expression _] => true
  | _ => false

instance Ending.decidableExhausted : (e : Ending) → Decidable (e = .exhausted)
  | .exhausted => .isTrue rfl
  | .done => .isFalse nofun
  | .failed _ => .isFalse nofun
  | .crashed _ => .isFalse nofun

namespace Machine
set_option autoImplicit true

/-- The machine after a look for a signal to stop. -/
def polled (m : Machine) : Machine := { m with polls := m.polls + 1 }

theorem statements_expression {host : Host} (h : host.signal m.polls m.output = false) (n : Nat)
    (e : Expr Distance) :
    statements host (n + 1) [.expression e] m =
      match evaluate host n e m.polled with
      | .ok _ m' => .ok () m'
      | .error stop m' => .error stop m' := by
  rw [statements]
  change EStateM.bind (heed host) _ m = _
  unfold EStateM.bind
  rw [heed_apply, h, if_neg Bool.false_ne_true]
  change EStateM.bind (execute host (n + 1) (.expression e))
    (fun _ => statements host (n + 1) []) m.polled = _
  rw [execute]
  change EStateM.bind (EStateM.bind (evaluate host n e) fun _ => pure Completion.normal)
    (fun _ => statements host (n + 1) []) m.polled = _
  unfold EStateM.bind
  cases evaluate host n e m.polled <;> rfl

/-- An expression that is executed as a statement takes a look for a signal and one step more than
its evaluation, and its value is lost. -/
theorem interpret_expression {host : Host} (h : host.signal m.polls m.output = false) (n : Nat)
    (e : Expr Distance) :
    interpret host (n + 1) [.expression e] m =
      ((value host n e m.polled).1.map fun _ => (), (value host n e m.polled).2) := by
  unfold interpret value attempt
  rw [statements_expression h]
  cases evaluate host n e m.polled <;> rfl

theorem defineAll_polled (environment : Text → Text) (defines : Dict Text) (m : Machine) :
    m.polled.defineAll environment defines =
      ((m.defineAll environment defines).1, (m.defineAll environment defines).2.polled) := by
  induction defines generalizing m with
  | nil => rfl
  | cons d rest ih =>
    obtain ⟨name, source⟩ := d
    rw [defineAll, defineAll]
    unfold defineFormula
    cases isIdentifier name with
    | false => rfl
    | true =>
      cases Formula.eval environment source with
      | error e => rfl
      | ok v => exact ih (m.define name v)

end Machine

namespace Source
set_option autoImplicit true
open Machine (value)

theorem perform_deepens (o : Options) (echo : Bool) (n : Nat) (program : List (Stmt Distance))
    (log : List Log.Record) (m : Machine) :
    (perform (o.echoing echo n) program log m).ending = .exhausted ∨
      perform (o.echoing echo (n + 1)) program log m =
        perform (o.echoing echo n) program log m := by
  unfold perform Options.echoing
  dsimp only
  cases (if echo then soleExpression? program else none) with
  | some e =>
    dsimp only
    rcases Machine.value_deepens o.host n e m with ⟨m', h⟩ | h
    · left
      rw [h]
      rfl
    · right
      rw [h]
  | none =>
    dsimp only
    rcases Machine.interpret_deepens o.host n program m with ⟨m', h⟩ | h
    · left
      rw [h]
      rfl
    · right
      rw [h]

theorem perform_log (o : Options) (program : List (Stmt Distance)) (earlier log : List Log.Record)
    (m : Machine) :
    { perform o program log m with log := earlier ++ (perform o program log m).log } =
      perform o program (earlier ++ log) m := by
  unfold perform
  split
  · split
    · split <;> rfl
    · simp only [stopped, List.append_assoc]
  · split
    · rfl
    · simp only [stopped, List.append_assoc]

/-- A run ends before its program is performed, or else performs it on the machine after the
definitions; neither depends on echo, on the depth or on a look for a signal before. -/
inductive Begins (o : Options) (t : Text) (m : Machine) : Prop where
  | never : (∀ echo n, run (o.echoing echo n) t m = r) →
      (∀ echo n, run (o.echoing echo n) t m.polled = { r with machine := r.machine.polled }) →
      r.ending = .failed e → Begins o t m
  | performs : staticFaults t = [] → resolvingFaults t = [] →
      m.defineAll o.environment o.defines.sorted = (none, m') →
      (∀ echo n, run (o.echoing echo n) t m =
        perform (o.echoing echo n) (Resolved.ofProgram (ofText t).program).tree records m') →
      (∀ echo n, run (o.echoing echo n) t m.polled =
        perform (o.echoing echo n) (Resolved.ofProgram (ofText t).program).tree records
          m'.polled) →
      Begins o t m

theorem begins (o : Options) (t : Text) (m : Machine) : Begins o t m := by
  cases hs : staticFaults t with
  | cons d ds => exact .never (fun echo n => run_static hs m) (fun echo n => run_static hs _) rfl
  | nil =>
    cases hd : m.defineAll o.environment o.defines.sorted with
    | mk e m' =>
      have hd' := Machine.defineAll_polled o.environment o.defines.sorted m
      rw [hd] at hd'
      cases e with
      | some e =>
        have hrun {m m' : Machine}
            (hd : m.defineAll o.environment o.defines.sorted = (some e, m')) (echo : Bool)
            (n : Nat) : run (o.echoing echo n) t m = ⟨m', .failed e, [], (ofText t).log ++ []⟩ := by
          rw [run_execute hs, execute_undefined hs (o := o.echoing echo n) hd]
        exact .never (hrun hd) (hrun hd') rfl
      | none =>
        cases hr : resolvingFaults t with
        | cons d ds =>
          have hrun {m m' : Machine}
              (hd : m.defineAll o.environment o.defines.sorted = (none, m')) (echo : Bool)
              (n : Nat) : run (o.echoing echo n) t m =
                ⟨m', .failed ((Failure.of .compile).attach
                  [Log.nat "diagnostics" (ds.length + 1), Log.int "line" d.line]), d :: ds,
                  (ofText t).log ++ resolveLog t⟩ := by
            rw [run_execute hs, execute_resolving hs (o := o.echoing echo n) hd hr]
          exact .never (hrun hd) (hrun hd') rfl
        | nil =>
          have hrun {m m' : Machine}
              (hd : m.defineAll o.environment o.defines.sorted = (none, m')) (echo : Bool)
              (n : Nat) : run (o.echoing echo n) t m =
                perform (o.echoing echo n) (Resolved.ofProgram (ofText t).program).tree
                  ((ofText t).log ++ resolveLog t) m' := by
            rw [run_execute hs, execute_perform hs (o := o.echoing echo n) hd hr, perform_log]
          exact .performs hs hr hd (hrun hd) (hrun hd')

theorem run_deepens (o : Options) (echo : Bool) (t : Text) (m : Machine) (n : Nat) :
    (run (o.echoing echo n) t m).ending = .exhausted ∨
      run (o.echoing echo (n + 1)) t m = run (o.echoing echo n) t m := by
  cases begins o t m with
  | never hrun _ => exact .inr ((hrun echo (n + 1)).trans (hrun echo n).symm)
  | performs _ _ _ hrun _ =>
    rw [hrun, hrun]
    exact perform_deepens o echo n _ _ _

/-- The run comes to an end with this report, unless the bound on its depth is too low. -/
def Gives (o : Options) (echo : Bool) (t : Text) (m : Machine) (r : Report) : Prop :=
  ∃ n, run (o.echoing echo n) t m = r ∧ r.ending ≠ .exhausted

theorem Gives.beyond (h : Gives o echo t m r) :
    ∃ n, ∀ k, n ≤ k → run (o.echoing echo k) t m = r := by
  obtain ⟨n, hn, hr⟩ := h
  refine ⟨n, fun k hk => ?_⟩
  induction hk with
  | refl => exact hn
  | @step k _ ih =>
    rcases run_deepens o echo t m k with hexhausted | hsame
    · rw [ih] at hexhausted
      exact absurd hexhausted hr
    · exact hsame.trans ih

/-- The expression that a text is has this value, once the definitions are made. -/
inductive Yields (o : Options) (t : Text) (m : Machine) (v : Value) : Prop where
  | mk : staticFaults t = [] → resolvingFaults t = [] →
      m.defineAll o.environment o.defines.sorted = (none, m₁) →
      (Resolved.ofProgram (ofText t).program).tree = [.expression e] →
      value o.host n e m₁ = (.ok v, m₂) → Yields o t m v

/-- The report of a run with echo beside the report of the same run without it: after a success
there is one line more, the text of the value. How often a signal to stop was looked for may
differ. -/
inductive Echoes (yields : Value → Prop) (plain echoing : Report) : Prop where
  | failed : plain.ending ≠ .done → echoing.ending = plain.ending →
      echoing.diagnostics = plain.diagnostics →
      echoing.machine = { plain.machine with polls := echoing.machine.polls } →
      Echoes yields plain echoing
  | line : plain.ending = .done → echoing.ending = .done →
      echoing.diagnostics = plain.diagnostics → yields v → v.text? = some line →
      echoing.machine = plain.machine.write (line ++ [Text.newline]) → Echoes yields plain echoing

theorem perform_echoed {o : Options} {m : Machine}
    (h : o.host.signal m.polls m.output = false) (n : Nat) (e : Expr Distance)
    (log : List Log.Record) :
    (∃ stop m', perform (o.echoing false (n + 1)) [.expression e] log m = stopped m' log stop ∧
      perform (o.echoing true n) [.expression e] log m.polled = stopped m' log stop) ∨
    ∃ v m', value o.host n e m.polled = (.ok v, m') ∧
      perform (o.echoing false (n + 1)) [.expression e] log m = ⟨m', .done, [], log⟩ ∧
      perform (o.echoing true n) [.expression e] log m.polled =
        match v.text? with
        | some line => ⟨m'.write (line ++ [Text.newline]), .done, [], log⟩
        | none => ⟨m', .crashed .missingValue, [], log⟩ := by
  unfold perform Options.echoing
  simp only [Bool.false_eq_true, ↓reduceIte, soleExpression?, Machine.interpret_expression h]
  cases hv : value o.host n e m.polled with
  | mk r m' =>
    cases r with
    | ok v => exact .inr ⟨v, m', rfl, rfl, rfl⟩
    | error stop => exact .inl ⟨stop, m', rfl, rfl⟩

theorem tree_sole (h : Stmt.isSole (ofText t).program) :
    ∃ e, (Resolved.ofProgram (ofText t).program).tree = [.expression e] := by
  unfold Stmt.isSole at h
  split at h
  · rename_i e hprogram
    rw [hprogram]
    exact ⟨_, rfl⟩
  · cases h

theorem run_step_echoed (hsole : Stmt.isSole (ofText t).program)
    (hbegun : o.host.signal m.polls m.output = false)
    (hpresent : ∀ v, Yields o t m.polled v → v ≠ .absent) (n : Nat) :
    Echoes (Yields o t m.polled) (run (o.echoing false (n + 1)) t m)
      (run (o.echoing true n) t m.polled) := by
  cases begins o t m with
  | never hrun hrun' hfailed =>
    rw [hrun, hrun']
    refine .failed ?_ rfl rfl rfl
    rw [hfailed]
    exact nofun
  | @performs m' records hs hr hd hrun hrun' =>
    obtain ⟨e, htree⟩ := tree_sole hsole
    have hbegun' : o.host.signal m'.polls m'.output = false := by
      obtain ⟨store, rfl⟩ := Machine.defineAll_store hd
      exact hbegun
    have hd' : m.polled.defineAll o.environment o.defines.sorted = (none, m'.polled) := by
      rw [Machine.defineAll_polled, hd]
    rw [hrun, hrun', htree]
    rcases perform_echoed hbegun' n e records with ⟨stop, m₂, hp, hq⟩ | ⟨v, m₂, hv, hp, hq⟩
    · rw [hp, hq]
      exact .failed (Ending.ofStop_ne_done stop) rfl rfl rfl
    · have hyields : Yields o t m.polled v := .mk hs hr hd' htree hv
      rw [hp, hq]
      cases hline : v.text? with
      | some line => exact .line rfl rfl rfl hyields hline rfl
      | none =>
        -- Every value but the absent one has a text.
        refine absurd ?_ (hpresent v hyields)
        cases v with
        | absent => rfl
        | bool b => cases b <;> cases hline
        | _ => cases hline

theorem Echoes.exhausted_iff (h : Echoes yields plain echoing) :
    echoing.ending = .exhausted ↔ plain.ending = .exhausted := by
  cases h with
  | failed _ he => rw [he]
  | line hp he => rw [hp, he]

/-- On a machine that has run texts before, no expression lacks a value, if the functions of the
host yield values. -/
theorem Yields.present {natives : List Native} (hN : ∀ n ∈ natives, n.Tame natives)
    (runs : List (Options × Text)) (hruns : ∀ r ∈ runs, r.1.host.natives = natives)
    (ho : o.host.natives = natives) (h : Yields o t (after runs (.new natives)).polled v) :
    v ≠ .absent := by
  rintro rfl
  obtain @⟨_, e, n, _, hs, hr, hd, htree, hv⟩ := h
  obtain ⟨w, hmachine, hready⟩ := after_ready hN hruns t
  subst ho
  have hafter := Watched.After.machine (m := w.machine.polled) hready.fits rfl rfl
  have hpolled : Watched.Ready _ _ { w with machine := w.machine.polled } :=
    ⟨hafter.fits, hafter.current.trans hready.current⟩
  rw [← hmachine] at hd
  have ht := List.mem_append_right (runs.map Prod.snd) (List.mem_singleton_self t)
  have hexpected := run_expected (o := o.echoing true n) hN hpolled ht hs hr hd
  refine expected_not_crashed hexpected .missingValue ?_
  rw [run_execute hs, execute_perform hs (o := o.echoing true n) hd hr, htree]
  unfold perform Options.echoing
  simp only [↓reduceIte, soleExpression?, hv]
  rfl

/-- Echo only adds the echoed line. If a text is a single expression then it comes to an end with
echo just if it does without. The failure, the diagnostics and the machine are the same; after a
success the text of the expression's value has been written as one line more. Without echo one look
for a signal to stop comes first; it must not find one. The value must not be one that the host has
left out. -/
theorem run_echoed (o : Options) (t : Text) (m : Machine) (hsole : Stmt.isSole (ofText t).program)
    (hbegun : o.host.signal m.polls m.output = false)
    (hpresent : ∀ v, Yields o t m.polled v → v ≠ .absent) :
    ((∃ r, Gives o false t m r) ↔ ∃ r, Gives o true t m.polled r) ∧
      ∀ plain echoing, Gives o false t m plain → Gives o true t m.polled echoing →
        Echoes (Yields o t m.polled) plain echoing := by
  have hstep := run_step_echoed hsole hbegun hpresent
  refine ⟨⟨?_, ?_⟩, ?_⟩
  · rintro ⟨r, n, rfl, hr⟩
    obtain ⟨k, hk⟩ := Gives.beyond ⟨n, rfl, hr⟩
    refine ⟨_, k, rfl, fun he => hr ?_⟩
    rw [← hk (k + 1) (Nat.le_succ k)]
    exact (hstep k).exhausted_iff.1 he
  · rintro ⟨r, n, rfl, hr⟩
    exact ⟨_, n + 1, rfl, fun he => hr ((hstep n).exhausted_iff.2 he)⟩
  · intro plain echoing hplain hechoing
    obtain ⟨n, hn⟩ := hplain.beyond
    obtain ⟨k, hk⟩ := hechoing.beyond
    have := hstep (max n k)
    rwa [hn _ (by omega), hk _ (by omega)] at this

/-- A run without definitions, in which a signal to stop may come. -/
def bare (signal : Signal) : Options := ⟨⟨Native.standard, 0, signal⟩, false, [], fun _ => [], 0⟩

def looping : Machine :=
  after [((bare .never).echoing false 20, "fun f() \x7b while (true) \x7b\x7d \x7d")]
    (.new Native.standard)

/-- A call of that function which is told to stop in the third round, with echo and without. -/
theorem run_echoed_canceled :
    (Stmt.isSole (ofText "f();").program ∧
      (bare fun polls _ => 4 ≤ polls).host.signal looping.polls looping.output = false ∧
      ∀ v, Yields (bare fun polls _ => 4 ≤ polls) "f();" looping.polled v → v ≠ .absent) ∧
    Echoes (Yields (bare fun polls _ => 4 ≤ polls) "f();" looping.polled)
      (run ((bare fun polls _ => 4 ≤ polls).echoing false 20) "f();" looping)
      (run ((bare fun polls _ => 4 ≤ polls).echoing true 20) "f();" looping.polled) := by
  have hsole : Stmt.isSole (ofText "f();").program := by decide +kernel
  have hbegun : (bare fun polls _ => 4 ≤ polls).host.signal looping.polls looping.output =
      false := by decide +kernel
  have hpresent : ∀ v, Yields (bare fun polls _ => 4 ≤ polls) "f();" looping.polled v →
      v ≠ .absent :=
    fun v => Yields.present Native.standard_tame _ (by simp [bare, Options.echoing]) rfl
  have hechoes := (run_echoed _ _ looping hsole hbegun hpresent).2 _ _
    ⟨20, rfl, by decide +kernel⟩ ⟨20, rfl, by decide +kernel⟩
  exact ⟨⟨hsole, hbegun, hpresent⟩, hechoes⟩

example : (run ((bare fun polls _ => 4 ≤ polls).echoing true 20) "f();"
    looping.polled).ending.error?.map Failure.text = some "context canceled" := by
  decide +kernel

/-- With echo the value of a negation is written. -/
example : (run ((bare .never).echoing true 20) "!nil;" (.new Native.standard)).machine.output =
    #[("true\n" : Text)] := by
  decide +kernel

/-- A run that is told to stop before it begins does so without echo. With echo the signal is not
looked for, and the expression is evaluated and written. -/
theorem run_echoed_interrupted :
    ∃ plain echoing, Gives (bare fun _ _ => true) false "true;" (.new Native.standard) plain ∧
      Gives (bare fun _ _ => true) true "true;" (.new Native.standard) echoing ∧
      (plain.ending.error?.map Failure.text = some "context canceled" ∧
        plain.machine.output = #[]) ∧
      (echoing.ending.error?.isNone ∧ echoing.machine.output = #[("true\n" : Text)]) ∧
      ¬ Echoes (Yields (bare fun _ _ => true) "true;" (.new Native.standard)) plain echoing := by
  refine ⟨run ((bare fun _ _ => true).echoing false 20) "true;" (.new Native.standard),
    run ((bare fun _ _ => true).echoing true 20) "true;" (.new Native.standard),
    ⟨20, rfl, by decide +kernel⟩, ⟨20, rfl, by decide +kernel⟩, by decide +kernel,
    by decide +kernel, ?_⟩
  have hplain : (run ((bare fun _ _ => true).echoing false 20) "true;"
      (.new Native.standard)).ending.error?.isSome := by decide +kernel
  have hechoing : (run ((bare fun _ _ => true).echoing true 20) "true;"
      (.new Native.standard)).ending.error?.isNone := by decide +kernel
  intro h
  cases h with
  | failed _ he =>
    rw [he, Option.isNone_iff_eq_none] at hechoing
    rw [hechoing] at hplain
    cases hplain
  | line hp =>
    rw [hp] at hplain
    cases hplain

end Source

end LoxLang
