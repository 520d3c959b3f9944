import LoxLang.Proofs.Source.Receivers
import LoxLang.Proofs.Resolver.Rename
import LoxLang.Proofs.Resolver.Retrace
import LoxLang.Proofs.Machine.Hygiene

namespace LoxLang
set_option autoImplicit true

/-- Two endings that tell the same. Faults of running have one message and one line. -/
inductive Ending.Similar : Ending → Ending → Prop where
  | same : Ending.Similar e e
  | fault : e'.message = e.message → e'.token.line = e.token.line →
      Ending.Similar (.ofStop (.fault e)) (.ofStop (.fault e'))

/-- Two runs that write the same, end in the same way and tell of the same faults. -/
structure Report.Similar (r r' : Report) : Prop where
  output : r'.machine.output = r.machine.output
  ending : r.ending.Similar r'.ending
  diagnostics : r'.diagnostics.map Diagnostic.text = r.diagnostics.map Diagnostic.text

namespace Machine

def Neutral (E : Exchange) (m : Machine) : Prop := ∃ W, m.Respelled E W .plain m

inductive Reaches (E : Exchange) (A : Atlas → α → β → Prop) :
    Except Stop α × Machine → Except Stop β × Machine → Prop where
  | ok : A W a b → Respelled E W .plain m m' → Reaches E A (.ok a, m) (.ok b, m')
  | error : e.Alike SameLine e' → Respelled E W .plain m m' →
      Reaches E A (.error e, m) (.error e', m')

variable {E : Exchange} {W : Atlas} {m m' : Machine}

theorem new_neutral (E : Exchange) (natives : List Native) : (new natives).Neutral E := by
  obtain ⟨W, htop, honly⟩ : ∃ W : Atlas, W globals = some .plain ∧
      ∀ f Λ, W f = some Λ → f = globals := by
    refine ⟨Atlas.chart (fun _ => none) globals .plain, Atlas.chart_self _ _ _, fun f Λ h => ?_⟩
    by_contra hne
    rw [Atlas.chart_of_ne _ _ hne] at h
    cases h
  have hempty : (Store.empty.newFrame none).2.Spelled E W (Store.empty.newFrame none).2 := by
    refine ⟨rfl, fun _ => rfl, fun f Λ hf => ?_, fun f Λ p hf hp => ?_, fun f Λ hf => ?_, rfl,
      fun id => ?_, rfl⟩
    · rw [honly f Λ hf]
      exact Nat.zero_lt_one
    · rw [honly f Λ hf] at hp
      cases hp
    · rw [honly f Λ hf]
      exact .nil
    · cases id with
      | zero => exact .some .nil
      | succ id => exact .none
  have hstore : (new natives).store.Spelled E W (new natives).store :=
    List.foldlRecOn (motive := fun s : Store => s.Spelled E W s) natives.zipIdx _ hempty
      fun _ hs e _ => hs.define htop e.1.name .native
  exact ⟨W, hstore, rfl, rfl, rfl, htop, htop⟩

theorem eval_over {F M : Closure → Closure → Prop} (h : Formula.eval environment source = .ok v) :
    v.Over F M v := by
  cases eval_plain h with
  | nil => exact .nil
  | bool => exact .bool
  | number => exact .number
  | string => exact .string

theorem defineFormula_neutral (hm : m.Neutral E)
    (h : m.defineFormula environment name source = .ok m') : m'.Neutral E := by
  obtain ⟨W, hm⟩ := hm
  unfold defineFormula at h
  split at h
  · split at h
    · rename_i hv
      cases h
      exact ⟨W, hm.withStore (.refl W) (hm.store.define hm.top _ (eval_over hv))⟩
    · cases h
  · cases h

theorem defineAll_neutral (hm : m.Neutral E)
    (h : m.defineAll environment defines = (e, m')) : m'.Neutral E := by
  induction defines generalizing m with
  | nil =>
    cases h
    exact hm
  | cons d rest ih =>
    obtain ⟨name, source⟩ := d
    rw [defineAll] at h
    split at h
    · exact ih (defineFormula_neutral hm ‹_›) h
    · cases h
      exact hm

theorem attempt_reaches {A : Atlas → α → β → Prop} {P : Eval α} {P' : Eval β}
    (h : Reruns E .plain W A P P') (hm : m.Respelled E W .plain m') :
    Reaches E A (attempt P m) (attempt P' m') := by
  have hconcur := h m m' hm
  unfold attempt
  generalize P m = o, P' m' = o' at hconcur
  cases hconcur with
  | ok _ ha hm => exact .ok ha hm
  | error _ he hm => exact .error he ⟨hm.store, rfl, hm.output, hm.polls, hm.top, hm.top⟩

end Machine

namespace Source
variable {E : Exchange} {W : Atlas} {m m' : Machine} {o : Options}

theorem stopped_similar (hm : m.Respelled E W Λ m') (h : e.Alike SameLine e')
    (log log' : List Log.Record) : (stopped m log e).Similar (stopped m' log' e') := by
  cases h with
  | @fault t t' message hline =>
    have htext (t : Token) : (RuntimeError.diagnostic ⟨t, message⟩).text =
        message ++ "\n" ++ ("[line " ++ Text.ofInt t.line ++ "]") := rfl
    have hsame : (RuntimeError.diagnostic ⟨t', message⟩).text =
        (RuntimeError.diagnostic ⟨t, message⟩).text := by
      rw [htext, htext, (hline : t'.line = t.line)]
    exact ⟨hm.output, .fault rfl hline, congrArg ([·]) hsame⟩
  | _ => exact ⟨hm.output, .same, rfl⟩

theorem soleExpression?_spelled {ss ss' : List (Stmt Distance)} (h : Program.Spelled E Λ ss ss') :
    soleExpression? ss' = (soleExpression? ss).map (Expr.spell E Λ) := by
  cases h with
  | nil => rfl
  | cons hs hss =>
    cases hs with
    | expression =>
      cases hss with
      | nil => rfl
      | cons => rfl
    | _ => rfl

theorem perform_similar (hN : ∀ n ∈ o.host.natives, n.Incurious) (hm : m.Respelled E W .plain m')
    {ss ss' : List (Stmt Distance)} (h : Program.Spelled E .plain ss ss')
    (log log' : List Log.Record) :
    (∃ W', (perform o ss log m).machine.Respelled E W' .plain (perform o ss' log' m').machine) ∧
      (perform o ss log m).Similar (perform o ss' log' m') := by
  have hsole : (if o.echo then soleExpression? ss' else none) =
      (if o.echo then soleExpression? ss else none).map (Expr.spell E .plain) := by
    rw [soleExpression?_spelled h]
    split
    · rfl
    · rfl
  unfold perform
  rw [hsole]
  cases if o.echo then soleExpression? ss else none with
  | some e =>
    have hreaches := Machine.attempt_reaches ((Machine.hygienic hN o.steps).evaluate W .plain e) hm
    rw [Option.map_some]
    unfold Machine.value
    dsimp only
    generalize Machine.attempt (Machine.evaluate o.host o.steps e) m = out,
      Machine.attempt (Machine.evaluate o.host o.steps (e.spell E .plain)) m' = out' at hreaches
    cases hreaches with
    | @ok W₁ v v' w w' hv hw =>
      dsimp only
      rw [hv.text? Closure.Spelled.seems]
      cases v.text? with
      | some t =>
        have hwritten := hw.write (t ++ [Text.newline])
        exact ⟨⟨W₁, hwritten⟩, hwritten.output, .same, rfl⟩
      | none => exact ⟨⟨W₁, hw⟩, hw.output, .same, rfl⟩
    | error he hw => exact ⟨⟨_, hw⟩, stopped_similar hw he log log'⟩
  | none =>
    have hreaches := Machine.attempt_reaches (Machine.statements_reruns hN o.steps ss h) hm
    rw [Option.map_none]
    unfold Machine.interpret
    dsimp only
    generalize Machine.attempt (Machine.statements o.host o.steps ss) m = out,
      Machine.attempt (Machine.statements o.host o.steps ss') m' = out' at hreaches
    cases hreaches with
    | ok _ hw => exact ⟨⟨_, hw⟩, hw.output, .same, rfl⟩
    | error he hw => exact ⟨⟨_, hw⟩, stopped_similar hw he log log'⟩

theorem run_neutral (hN : ∀ n ∈ o.host.natives, n.Incurious) (hm : m.Neutral E) (t : Text) :
    (run o t m).machine.Neutral E := by
  unfold run execute
  dsimp only
  cases (ofText t).error? with
  | some e => exact hm
  | none =>
    dsimp only
    cases hd : m.defineAll o.environment o.defines.sorted with
    | mk e m' =>
      have hm' := Machine.defineAll_neutral hm hd
      cases e with
      | some e => exact hm'
      | none =>
        dsimp only
        cases compileError? (Resolved.ofProgram (ofText t).program).diagnostics with
        | some e => exact hm'
        | none =>
          obtain ⟨W, hm'⟩ := hm'
          exact (perform_similar hN hm' (Stmt.allSpelled_plain E _) _ _).1

theorem after_neutral {natives : List Native} (hN : ∀ n ∈ natives, n.Incurious)
    {runs : List (Options × Text)} (hruns : ∀ r ∈ runs, r.1.host.natives = natives)
    (hm : m.Neutral E) : (after runs m).Neutral E := by
  induction runs generalizing m with
  | nil => exact hm
  | cons r runs ih =>
    obtain ⟨hr, hruns⟩ := List.forall_mem_cons.1 hruns
    exact ih hruns (run_neutral (hr ▸ hN) hm r.2)

theorem execute_spelled (hN : ∀ n ∈ o.host.natives, n.Incurious) (hm : m.Neutral E)
    (hs : staticFaults t = []) (hr : resolvingFaults t = [])
    {p' : List (Stmt Mark)} (hr' : (Resolved.ofProgram p').diagnostics = [])
    (h : Program.Spelled E .plain (Resolved.ofProgram (ofText t).program).tree
      (Resolved.ofProgram p').tree) :
    ((ofText t).execute o m).Similar ({ ofText t with program := p' }.execute o m) := by
  have hds : (ofText t).diagnostics = [] := hs
  have hrs : (Resolved.ofProgram (ofText t).program).diagnostics = [] := hr
  unfold execute error?
  dsimp only
  rw [hds, compileError?]
  dsimp only
  cases hd : m.defineAll o.environment o.defines.sorted with
  | mk e m' =>
    cases e with
    | some e => exact ⟨rfl, .same, rfl⟩
    | none =>
      obtain ⟨W, hm'⟩ := Machine.defineAll_neutral hm hd
      dsimp only
      rw [hrs, hr', compileError?]
      exact (perform_similar hN hm' h _ _).2

/-- Local names are hygienic. A local declaration of a text without faults is renamed, with the
references that lead to it, to an identifier that the text does not have. The program that results is
accepted and has the same distances. Whatever was run before on the machine, it writes what the
program of the text writes and ends in the same way. -/
theorem execute_renamed (natives : List Native) (hN : ∀ n ∈ natives, n.Incurious)
    (runs : List (Options × Text)) (hruns : ∀ r ∈ runs, r.1.host.natives = natives)
    (o : Options) (ho : o.host.natives = natives) (t : Text) (hs : staticFaults t = [])
    (hr : resolvingFaults t = []) (x y : Text) (hy : isIdentifier y)
    (hfree : ∀ u ∈ (Scan.ofText t).tokens, u.lexeme ≠ y) (t' : List (Stmt Distance))
    (hrename : Program.Renames x y (Resolved.ofProgram (ofText t).program).tree t')
    (p' : List (Stmt Mark)) (hp' : p'.map Stmt.erase = t'.map Stmt.erase) :
    (Resolved.ofProgram p').diagnostics = [] ∧ (Resolved.ofProgram p').tree = t' ∧
      List.Forall₂ (Stmt.Alike Anyhow Eq) (Resolved.ofProgram (ofText t).program).tree t' ∧
      ((ofText t).execute o (after runs (.new natives))).Similar
        ({ ofText t with program := p' }.execute o (after runs (.new natives))) := by
  have hT (u : Token) (hu : u ∈ (Scan.ofText t).tokens) : u.Lexical ∧ u.lexeme ≠ y :=
    ⟨tokens_lexical t u hu, hfree u hu⟩
  have hscoped := program_scoped (fun u hu => (hT u hu).1) (fun _ hu => hu) hs hr
  obtain ⟨E, ⟨-, hE⟩, hspelled⟩ := hrename.spelled hT (Anchored.identifier_not_reserved hy) hscoped
  obtain ⟨htree, hfaults⟩ := Resolved.ofProgram_spelled (fun u hu => hE ▸ (hT u hu).2)
    (program_formed (fun _ hu => hu) hs) hspelled hp'
  have hfaultless : (Resolved.ofProgram p').diagnostics = [] := by
    apply List.length_eq_zero_iff.1
    rw [hfaults]
    exact congrArg List.length hr
  have hm := after_neutral hN hruns (Machine.new_neutral E natives)
  subst ho
  exact ⟨hfaultless, htree, hspelled.alike,
    execute_spelled hN hm hs hr hfaultless (htree ▸ hspelled)⟩

/-- A function captures a variable that hides a global one. -/
def capture : Text := "var a; \x7b var a; fun f() \x7b print a; \x7d f(); \x7d"

theorem execute_renamed_captured :
    (staticFaults capture = [] ∧ resolvingFaults capture = [] ∧ isIdentifier "b" ∧
      ∀ u ∈ (Scan.ofText capture).tokens, u.lexeme ≠ "b") ∧
    ∃ t' p', Program.Renames "a" "b" (Resolved.ofProgram (ofText capture).program).tree t' ∧
      p'.map Stmt.erase = t'.map Stmt.erase ∧
      (Resolved.ofProgram p').diagnostics = [] ∧ (Resolved.ofProgram p').tree = t' ∧
      ((ofText capture).execute ⟨⟨Native.standard, 0, .never⟩, false, [], fun _ => [], 20⟩
        (after [] (.new Native.standard))).Similar
        ({ ofText capture with program := p' }.execute
          ⟨⟨Native.standard, 0, .never⟩, false, [], fun _ => [], 20⟩
          (after [] (.new Native.standard))) := by
  have hs : staticFaults capture = [] := by decide +kernel
  have hr : resolvingFaults capture = [] := by decide +kernel
  have hy : isIdentifier "b" := by decide +kernel
  have hfree : ∀ u ∈ (Scan.ofText capture).tokens, u.lexeme ≠ "b" := by decide +kernel
  let word (z : Text) : Token := ⟨.identifier, z, none, 1⟩
  have htree : (Resolved.ofProgram (ofText capture).program).tree =
      [.varDecl (word "a") none] ++ .block [.varDecl (word "a") none,
        .funDecl ⟨word "f", [], [.print (.var ⟨word "a", some 1⟩)]⟩,
        .expression (.call (.var ⟨word "f", some 0⟩) ⟨.rightParen, ")", none, 1⟩ [])] :: [] := by
    with_unfolding_all rfl
  obtain ⟨t', hrename⟩ : ∃ t', Program.Renames "a" "b"
      (Resolved.ofProgram (ofText capture).program).tree t' := by
    rw [htree]
    exact ⟨_, .mk (.block (.here (.inr ⟨word "a", none, List.mem_cons_self, rfl⟩)))⟩
  obtain ⟨haccepted, hsame, -, hsimilar⟩ := execute_renamed Native.standard
    Native.standard_incurious [] (by simp) ⟨⟨Native.standard, 0, .never⟩, false, [], fun _ => [], 20⟩
    rfl capture hs hr "a" "b" hy hfree t' hrename _ (Stmt.map_erase_unresolved t')
  exact ⟨⟨hs, hr, hy, hfree⟩, t', _, hrename, Stmt.map_erase_unresolved t', haccepted, hsame,
    hsimilar⟩

end Source

end LoxLang
