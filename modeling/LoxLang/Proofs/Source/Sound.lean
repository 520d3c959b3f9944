import LoxLang.Proofs.Machine.Erase
import LoxLang.Proofs.Machine.Sound
import LoxLang.Proofs.Parser.Exact
import LoxLang.Proofs.Resolver.Sound
import LoxLang.Proofs.Source.Along
import LoxLang.Proofs.Source.Gated

namespace LoxLang

namespace Watched
set_option autoImplicit true

/-- A machine of which nothing has been noted. -/
def start (natives : List Native) : Watched := ⟨.new natives, fun _ => [], []⟩

/-- Performs a step and leaves the machine in its global frame if the step fails. -/
def attempt (step : Watch α) (w : Watched) : Except Stop α × Watched :=
  match step w with
  | .ok a w' => (.ok a, w')
  | .error e w' => (.error e, w'.at_ Machine.globals)

def write (w : Watched) (t : Text) : Watched := { w with machine := w.machine.write t }

/-- Runs a resolved program, or evaluates it and writes its value. -/
def perform (o : Options) (program : List (Stmt Distance)) (w : Watched) : Watched :=
  match if o.echo then Source.soleExpression? program else none with
  | some e =>
    match attempt (evaluate o.host o.steps [] e) w with
    | (.ok v, w) =>
      match v.text? with
      | some t => w.write (t ++ [Text.newline])
      | none => w
    | (.error _, w) => w
  | none => (attempt (statements o.host o.steps program) w).2

/-- Runs a text under observation. Only a program that is run has references to note. -/
def observe (o : Options) (text : Text) (w : Watched) : Watched :=
  let s := Source.ofText text
  match s.error? with
  | some _ => w
  | none =>
    match w.machine.defineAll o.environment o.defines.sorted with
    | (some _, m) => { w with machine := m }
    | (none, m) =>
      let resolved := Resolved.ofProgram s.program
      match Source.compileError? resolved.diagnostics with
      | some _ => { w with machine := m }
      | none => perform o resolved.tree { w with machine := m }

theorem attempt_mirrors {P : Watch α} {Q : Eval α} (h : Mirrors P Q) (w : Watched) :
    Machine.attempt Q w.machine = ((attempt P w).1, (attempt P w).2.machine) := by
  have hw := h w
  unfold Machine.attempt attempt
  rw [← hw]
  cases P w with
  | ok a w' => rfl
  | error e w' => rfl

theorem perform_machine (o : Options) (program : List (Stmt Distance)) (log : List Log.Record)
    (w : Watched) :
    (perform o program w).machine = (Source.perform o program log w.machine).machine := by
  unfold perform Source.perform
  cases if o.echo then Source.soleExpression? program else none with
  | some e =>
    have hmirrored : Mirrored o.host o.steps := mirrored o.steps
    have hattempt := attempt_mirrors (hmirrored.evaluate [] e) w
    dsimp only [Machine.value]
    rw [hattempt]
    rcases attempt (evaluate o.host o.steps [] e) w with ⟨⟨stop⟩ | ⟨v⟩, w'⟩
    · rfl
    · dsimp only
      cases v.text? with
      | some t => rfl
      | none => rfl
  | none =>
    have hmirrors : Mirrors (statements o.host o.steps program) _ := statements_mirrors _ _
    have hattempt := attempt_mirrors hmirrors w
    dsimp only [Machine.interpret]
    rw [hattempt]
    rcases attempt (statements o.host o.steps program) w with ⟨⟨stop⟩ | ⟨v⟩, w'⟩
    · rfl
    · rfl

theorem observe_machine (o : Options) (text : Text) (w : Watched) :
    (observe o text w).machine = (Source.run o text w.machine).machine := by
  unfold observe Source.run
  dsimp only
  cases he : (Source.ofText text).error? with
  | some e => rfl
  | none =>
    unfold Source.execute
    rw [he]
    dsimp only
    rcases w.machine.defineAll o.environment o.defines.sorted with ⟨⟨⟩ | e, m⟩
    · dsimp only
      cases Source.compileError? (Resolved.ofProgram (Source.ofText text).program).diagnostics with
      | some e => rfl
      | none => exact perform_machine o _ _ { w with machine := m }
    · rfl

/-- A machine that only ran resolved programs and stands in its global frame. -/
structure Ready (T : Token → Prop) (k : Nat) (w : Watched) : Prop where
  fits : w.Fits T k
  current : w.machine.current = Machine.globals

theorem Fits.write {w : Watched} (h : w.Fits T k) (t : Text) : (w.write t).Fits T k :=
  h.of_store ⟨.refl _, fun _ _ => rfl⟩ rfl h.visits

theorem attempt_ready {P : Watch α} {w : Watched} (hw : w.Ready T host.natives.length)
    (h : Runs T host P R w) :
    (attempt P w).2.Ready T host.natives.length ∧
      (∀ a, (attempt P w).1 = .ok a → R a (attempt P w).2) ∧
      ∀ e, (attempt P w).1 = .error e → e.Expected T host := by
  unfold Runs at h
  unfold attempt
  cases hp : P w with
  | ok a w' =>
    rw [hp] at h
    refine ⟨⟨h.1.fits, h.1.current.trans hw.current⟩, fun b hb => ?_, fun e he => ?_⟩
    · cases hb
      exact h.2
    · cases he
  | error e w' =>
    rw [hp] at h
    refine ⟨⟨h.1.fits.at_ _, rfl⟩, fun b hb => ?_, fun e' he => ?_⟩
    · cases hb
    · cases he
      exact h.2

end Watched

/-- How a run of a program that compiles may end: with its last statement, with an expected stop, or
beyond the depth it was given. -/
inductive Ending.Expected (T : Token → Prop) (host : Host) : Ending → Prop where
  | done : Expected T host .done
  | fault : T e.token → Expected T host (.ofStop (.fault e))
  | canceled : host.signal polls output = true → Expected T host (.ofStop .canceled)
  | native {n : Native} : n ∈ host.natives → args.length = n.arity →
      (n.run host.now args).Raises (Stop.Expected T host) stop → (∀ c, stop ≠ .crash c) →
      Expected T host (.ofStop stop)
  | exhausted : Expected T host .exhausted

namespace Watched
set_option autoImplicit true

theorem ofStop_expected (hN : ∀ n ∈ host.natives, n.Tame host.natives)
    (h : Stop.Expected T host stop) :
    (Ending.ofStop stop).Expected T host := by
  cases h with
  | fault ht => exact .fault ht
  | canceled hi => exact .canceled hi
  | native hn hlen he => exact .native hn hlen he ((hN _ hn _ _ hlen).not_crash he)
  | exhausted => exact .exhausted

theorem soleExpression?_scoped (h : Program.Scoped T [] program)
    (he : Source.soleExpression? program = some e) : e.Scoped T [] none := by
  unfold Source.soleExpression? at he
  split at he
  · cases he
    cases h with
    | cons hs _ =>
      cases hs with
      | expression he => exact he
  · cases he

theorem text?_of_fits {v : Value} (h : v.Fits T k w) : ∃ t, v.text? = some t := by
  cases v with
  | absent => exact h.elim
  | bool b => cases b <;> exact ⟨_, rfl⟩
  | _ => exact ⟨_, rfl⟩

theorem perform_ready (hT : ∀ t, T t → t.Lexical) (hN : ∀ n ∈ o.host.natives, n.Tame o.host.natives)
    {w : Watched} (hw : w.Ready T o.host.natives.length) (h : Program.Scoped T [] program)
    (log : List Log.Record) :
    (perform o program w).Ready T o.host.natives.length ∧
      (Source.perform o program log w.machine).ending.Expected T o.host := by
  unfold perform Source.perform
  have hsole (e : Expr Distance)
      (he : (if o.echo then Source.soleExpression? program else none) = some e) :
      e.Scoped T [] none := by
    split at he
    · exact soleExpression?_scoped h he
    · cases he
  cases hs : if o.echo then Source.soleExpression? program else none with
  | some e =>
    have hmirrored : Mirrored o.host o.steps := mirrored o.steps
    have hattempt := attempt_mirrors (hmirrored.evaluate [] e) w
    obtain ⟨hready, hok, herror⟩ := attempt_ready hw
      ((sound hT hN o.steps).evaluate hw.fits (global_stands hw.current) (hsole e hs))
    dsimp only [Machine.value]
    rw [hattempt]
    generalize attempt (evaluate o.host o.steps [] e) w = result at hready hok herror
    rcases result with ⟨⟨stop⟩ | ⟨v⟩, w'⟩
    · exact ⟨hready, ofStop_expected hN (herror stop rfl)⟩
    · obtain ⟨t, ht⟩ := text?_of_fits (hok v rfl)
      dsimp only
      rw [ht]
      exact ⟨⟨hready.fits.write _, hready.current⟩, .done⟩
  | none =>
    have hmirrors : Mirrors (statements o.host o.steps program) _ := statements_mirrors _ _
    have hattempt := attempt_mirrors hmirrors w
    obtain ⟨hready, -, herror⟩ := attempt_ready hw (statements_runs hT hN o.steps hw.fits hw.current h)
    dsimp only [Machine.interpret]
    rw [hattempt]
    generalize attempt (statements o.host o.steps program) w = result at hready herror
    rcases result with ⟨⟨stop⟩ | ⟨v⟩, w'⟩
    · exact ⟨hready, ofStop_expected hN (herror stop rfl)⟩
    · exact ⟨hready, .done⟩

theorem eval_fits (h : Formula.eval environment source = .ok v) : v.Fits T k w := by
  cases Machine.eval_plain h
  all_goals trivial

theorem defineFormula_ready {w : Watched} (hw : w.Ready T k)
    (h : w.machine.defineFormula environment name source = .ok m) :
    Ready T k { w with machine := m } := by
  unfold Machine.defineFormula at h
  split at h
  · split at h
    · rename_i hv
      cases h
      exact ⟨hw.fits.define (eval_fits hv) fun hne => absurd rfl hne, hw.current⟩
    · cases h
  · cases h

theorem defineAll_ready {w : Watched} (hw : w.Ready T k)
    (h : w.machine.defineAll environment defines = (e, m)) : Ready T k { w with machine := m } := by
  induction defines generalizing w with
  | nil =>
    cases h
    exact hw
  | cons d rest ih =>
    obtain ⟨name, source⟩ := d
    rw [Machine.defineAll] at h
    split at h
    · rename_i m₁ hm
      exact ih (w := { w with machine := m₁ }) (defineFormula_ready hw hm) h
    · cases h
      exact hw

end Watched

namespace Source
set_option autoImplicit true
open Watched

theorem tokens_lexical (t : Text) : ∀ u ∈ (Scan.ofText t).tokens, u.Lexical := by
  obtain ⟨body, eof, htokens, heof, hbody⟩ := Scan.ofText_tokens t
  intro u hu
  rw [htokens] at hu
  rcases List.mem_append.1 hu with hu | hu
  · exact (hbody u hu).2
  · rw [List.mem_singleton.1 hu]
    simp only [Token.Lexical, heof]
    exact ⟨fun h => (by cases h), fun h => (by cases h), fun h => (by cases h)⟩

theorem program_formed (ht : ∀ u ∈ (Scan.ofText t).tokens, T u) (hs : staticFaults t = []) :
    Stmt.FormedAll T (ofText t).program := by
  obtain ⟨body, eof, htokens, heof, hbody⟩ := Scan.ofText_tokens t
  have hparse := (List.append_eq_nil_iff.1 hs).2
  rw [htokens] at hparse
  have hprogram : (ofText t).program = (Parsed.ofTokens (body ++ [eof])).statements :=
    congrArg (fun ts => (Parsed.ofTokens ts).statements) htokens
  have hderives := Parsed.derives heof (fun u hu => (hbody u hu).1) hparse
  have hformed := hderives.formed fun u hu => ht u (htokens ▸ List.mem_append_left _ hu)
  have hmap := Stmt.formedAll_map (T := T) (fun _ => ())
    (Parsed.ofTokens (body ++ [eof])).statements
  rw [Stmt.mapAll_eq] at hmap
  rw [hprogram]
  exact hmap.1 hformed

theorem program_scoped (hT : ∀ u, T u → u.Lexical) (ht : ∀ u ∈ (Scan.ofText t).tokens, T u)
    (hs : staticFaults t = []) (hr : resolvingFaults t = []) :
    Program.Scoped T [] (Resolved.ofProgram (ofText t).program).tree :=
  Resolved.ofProgram_scoped hT (program_formed ht hs) hr

/-- A token of one of these texts, which compiles. -/
def Ran (ts : List Text) (u : Token) : Prop :=
  ∃ t ∈ ts, staticFaults t = [] ∧ resolvingFaults t = [] ∧ u ∈ (Scan.ofText t).tokens

theorem ran_lexical (u : Token) (h : Ran ts u) : u.Lexical := by
  obtain ⟨t, -, -, -, hu⟩ := h
  exact tokens_lexical t u hu

theorem observe_ready (hN : ∀ n ∈ o.host.natives, n.Tame o.host.natives) {w : Watched}
    (hw : w.Ready (Ran ts) o.host.natives.length) (ht : t ∈ ts) :
    (observe o t w).Ready (Ran ts) o.host.natives.length := by
  unfold observe
  dsimp only
  split
  · exact hw
  · rename_i hstatic
    split
    · rename_i hd
      exact defineAll_ready hw hd
    · rename_i hd
      split
      · exact defineAll_ready hw hd
      · rename_i hresolving
        have hs : staticFaults t = [] := compileError?_eq_none hstatic
        have hr : resolvingFaults t = [] := compileError?_eq_none hresolving
        have hscoped := program_scoped ran_lexical (fun u hu => ⟨t, ht, hs, hr, hu⟩) hs hr
        exact (perform_ready ran_lexical hN (defineAll_ready hw hd) hscoped []).1

theorem run_expected (hN : ∀ n ∈ o.host.natives, n.Tame o.host.natives) {w : Watched}
    (hw : w.Ready (Ran ts) o.host.natives.length) (ht : t ∈ ts) (hs : staticFaults t = [])
    (hr : resolvingFaults t = [])
    (hd : w.machine.defineAll o.environment o.defines.sorted = (none, m)) :
    (run o t w.machine).ending.Expected (Ran ts) o.host := by
  have hscoped := program_scoped ran_lexical (fun u hu => ⟨t, ht, hs, hr, hu⟩) hs hr
  rw [run_execute hs, execute_perform hs hd hr]
  exact (perform_ready ran_lexical hN (defineAll_ready hw hd) hscoped (resolveLog t)).2

end Source

namespace Watched
set_option autoImplicit true

theorem natives_fits {w : Watched} (hw : w.Fits T k) {entries : List (Native × Nat)}
    (he : ∀ e ∈ entries, e.2 < k) :
    (w.withStore (entries.foldl (fun s e => s.define Machine.globals e.1.name (.native e.2))
      w.machine.store)).Fits T k := by
  induction entries generalizing w with
  | nil => exact hw
  | cons e entries ih =>
    obtain ⟨hlt, hrest⟩ := List.forall_mem_cons.1 he
    exact ih (hw.define (v := .native e.2) hlt fun hne => absurd rfl hne) hrest

theorem start_ready (natives : List Native) : (start natives).Ready T natives.length := by
  have hempty : Fits T natives.length
      ⟨⟨(Store.empty.newFrame none).2, Machine.globals, #[], 0⟩, fun _ => [], []⟩ := by
    have hvars (f : FrameId) : (Store.empty.newFrame none).2.vars f = [] := by
      rw [Store.vars_newFrame]
      rfl
    have hfields (id : Nat) : (Store.empty.newFrame none).2.fields id = [] := Store.fields_empty id
    refine ⟨Nat.zero_lt_one, rfl, fun f x v hx => ?_, fun id x v hx => ?_, fun f v _ hx => ?_,
      fun v hv => absurd hv List.not_mem_nil⟩
    · rw [hvars] at hx
      cases hx
    · rw [hfields] at hx
      cases hx
    · rw [hvars] at hx
      cases hx
  refine ⟨natives_fits hempty fun e he => ?_, rfl⟩
  have hlt := List.snd_lt_of_mem_zipIdx he
  simpa using hlt

end Watched

namespace Source
set_option autoImplicit true
open Watched

/-- The machine after texts that are run in turn, each in a way of its own. -/
def after (runs : List (Options × Text)) (m : Machine) : Machine :=
  runs.foldl (fun m r => (run r.1 r.2 m).machine) m

/-- The watched machine after these runs. -/
def observed (runs : List (Options × Text)) (w : Watched) : Watched :=
  runs.foldl (fun w r => observe r.1 r.2 w) w

theorem observed_machine (runs : List (Options × Text)) (w : Watched) :
    (observed runs w).machine = after runs w.machine := by
  induction runs generalizing w with
  | nil => rfl
  | cons r runs ih =>
    have hrest := ih (observe r.1 r.2 w)
    rw [observe_machine] at hrest
    exact hrest

theorem observed_ready {natives : List Native} (ts : List Text)
    (hN : ∀ n ∈ natives, n.Tame natives) {w : Watched} (hw : w.Ready (Ran ts) natives.length) {runs : List (Options × Text)}
    (hruns : ∀ r ∈ runs, r.1.host.natives = natives) (hts : ∀ r ∈ runs, r.2 ∈ ts) :
    (observed runs w).Ready (Ran ts) natives.length := by
  induction runs generalizing w with
  | nil => exact hw
  | cons r runs ih =>
    obtain ⟨hr, hruns⟩ := List.forall_mem_cons.1 hruns
    obtain ⟨ht, hts⟩ := List.forall_mem_cons.1 hts
    subst hr
    exact ih (observe_ready hN hw ht) hruns hts

/-- Runs with a function of the host that calls others. -/
def applying (signal : Signal) : Options :=
  ⟨⟨[.clock, .apply], 0, signal⟩, false, [], fun _ => [], 40⟩

theorem applying_tame (signal : Signal) :
    ∀ n ∈ (applying signal).host.natives, n.Tame [.clock, .apply] := by
  intro n hn
  rcases List.mem_cons.1 hn with rfl | hn
  · exact fun now args _ => .done .number
  · rw [List.mem_singleton.1 hn]
    exact Native.apply_tame _

/-- A run that is told to stop in a silent loop, in a function that the host calls. It leaves a
function behind. -/
def stalled : Options × Text :=
  (applying fun polls _ => 8 ≤ polls,
    "var h; \x7b var a = true; fun f() \x7b print a; \x7d h = f; " ++
      "fun g() \x7b while (true) a; \x7d apply(g); \x7d")

/-- The variable is read in six rounds of the loop, and once more by the function that is left. -/
example : (observed [stalled, (applying .never, "apply(h);")]
    (start [.clock, .apply])).visits.filterMap (fun v => v.mark.map fun d => (v.name, d)) =
      ([("f", 0), ("g", 0), ("a", 1), ("a", 1), ("a", 1), ("a", 1), ("a", 1), ("a", 1), ("a", 1)] :
        List (Text × Nat)) := by
  decide +kernel

theorem expected_not_crashed {ending : Ending} (h : ending.Expected T host) (c : Crash) :
    ending ≠ .crashed c := by
  cases h with
  | @native args stop n _ _ _ hno =>
    cases stop with
    | crash c' => exact absurd rfl (hno c')
    | _ => exact fun he => by cases he
  | _ => exact fun he => by cases he

theorem after_ready {natives : List Native} (hN : ∀ n ∈ natives, n.Tame natives)
    {runs : List (Options × Text)} (hruns : ∀ r ∈ runs, r.1.host.natives = natives) (t : Text) :
    ∃ w : Watched, w.machine = after runs (.new natives) ∧
      w.Ready (Ran (runs.map Prod.snd ++ [t])) natives.length := by
  refine ⟨observed runs (start natives), observed_machine runs _, ?_⟩
  exact observed_ready (runs.map Prod.snd ++ [t]) hN (start_ready natives) hruns
    fun r hr => List.mem_append_left _ (List.mem_map_of_mem hr)

/-- A text that compiles cannot go wrong, whatever texts were run before on the machine. If its
definitions can be made then it ends as expected. -/
theorem run_safe (natives : List Native) (hN : ∀ n ∈ natives, n.Tame natives)
    (runs : List (Options × Text)) (hruns : ∀ r ∈ runs, r.1.host.natives = natives)
    (o : Options) (ho : o.host.natives = natives) (t : Text) (hs : staticFaults t = [])
    (hr : resolvingFaults t = []) :
    (∀ c, (run o t (after runs (.new natives))).ending ≠ .crashed c) ∧
      (((after runs (.new natives)).defineAll o.environment o.defines.sorted).1 = none →
        (run o t (after runs (.new natives))).ending.Expected
          (Ran (runs.map Prod.snd ++ [t])) o.host) := by
  obtain ⟨w, hmachine, hready⟩ := after_ready hN hruns t
  have ht := List.mem_append_right (runs.map Prod.snd) (List.mem_singleton_self t)
  rw [← hmachine]
  subst ho
  cases hd : w.machine.defineAll o.environment o.defines.sorted with
  | mk e m =>
    cases e with
    | none =>
      have hexpected := run_expected hN hready ht hs hr hd
      exact ⟨expected_not_crashed hexpected, fun _ => hexpected⟩
    | some e =>
      refine ⟨fun c => ?_, fun h => by cases h⟩
      rw [run_execute hs, execute_undefined hs hd]
      exact fun he => by cases he

theorem run_safe_stalled :
    (staticFaults stalled.2 = [] ∧ resolvingFaults stalled.2 = []) ∧
      (∀ c, (run stalled.1 stalled.2 (after [(applying .never, "f(;")]
        (.new [.clock, .apply]))).ending ≠ .crashed c) ∧
      (run stalled.1 stalled.2 (after [(applying .never, "f(;")]
        (.new [.clock, .apply]))).ending.Expected (Ran ["f(;", stalled.2]) stalled.1.host :=
  have hs : staticFaults stalled.2 = [] := by decide +kernel
  have hr : resolvingFaults stalled.2 = [] := by decide +kernel
  have hsafe := run_safe _ (applying_tame .never) [(applying .never, "f(;")]
    (by simp [applying]) stalled.1 rfl stalled.2 hs hr
  ⟨⟨hs, hr⟩, hsafe.1, hsafe.2 (by simp [stalled, applying, Dict.sorted, Machine.defineAll])⟩

end Source

end LoxLang
