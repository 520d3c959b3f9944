import LoxLang.Proofs.Parser.Moves
import LoxLang.Proofs.Resolver.Reports
import LoxLang.Source.Run

namespace LoxLang

namespace Scan
set_option autoImplicit true

theorem ofText_stage (t : Text) : ∀ d ∈ (ofText t).diagnostics, d.stage = .scanning := by
  intro d hd
  obtain ⟨⟨p, line⟩, -, he⟩ := List.mem_filterMap.1 hd
  unfold Piece.fault? at he
  dsimp only at he
  split at he
  · cases he
    rfl
  · cases he
    rfl
  · cases he

end Scan

namespace Failure
set_option autoImplicit true

theorem has_own (k : Sentinel) (t : Text) (attrs : List Log.Attr) (cause : Option Failure)
    (s : Sentinel) : (own k t attrs cause).has s = (k == s || cause.any (·.has s)) := by
  cases cause with
  | none => simp [has, chain, sentinel?]
  | some e => simp [has, chain, sentinel?]

theorem has_attach (e : Failure) (more : List Log.Attr) (s : Sentinel) :
    (e.attach more).has s = e.has s := by
  cases e with
  | foreign f cause => rfl
  | own k t attrs cause => rw [attach, has_own, has_own]

theorem has_wrap_of (k : Sentinel) (cause : Failure) (s : Sentinel) :
    ((of k).wrap (some cause)).has s = (k == s || cause.has s) := by
  rw [of, wrap, has_own, Option.any_some]

/-- A failure that is neither of checking a program nor of running it. -/
def Aside (e : Failure) : Prop := e.has .compile = false ∧ e.has .runtime = false

end Failure

namespace Machine
set_option autoImplicit true

theorem eval_aside (h : Formula.eval environment source = .error e) : e.Aside := by
  unfold Formula.eval at h
  split at h
  · cases h
    exact ⟨rfl, rfl⟩
  · unfold Formula.result at h
    split at h
    · cases h
    · cases h
      exact ⟨rfl, rfl⟩

theorem defineFormula_aside (h : defineFormula environment name source m = .error e) :
    e.Aside := by
  unfold defineFormula at h
  split at h
  · split at h
    · cases h
    · rename_i cause he
      cases h
      obtain ⟨hcompile, hruntime⟩ := eval_aside he
      constructor
      · rw [Failure.has_attach, Failure.has_wrap_of, hcompile]
        rfl
      · rw [Failure.has_attach, Failure.has_wrap_of, hruntime]
        rfl
  · cases h
    exact ⟨rfl, rfl⟩

theorem defineFormula_ok (h : defineFormula environment name source m = .ok m') :
    ∃ v, m' = m.define name v := by
  unfold defineFormula at h
  split at h
  · split at h
    · cases h
      exact ⟨_, rfl⟩
    · cases h
  · cases h

theorem defineAll_aside (h : defineAll environment defines m = (some e, m')) : e.Aside := by
  induction defines generalizing m with
  | nil => cases h
  | cons d rest ih =>
    obtain ⟨name, source⟩ := d
    rw [defineAll] at h
    split at h
    · exact ih h
    · rename_i he
      cases h
      exact defineFormula_aside he

theorem defineAll_store (h : defineAll environment defines m = (e, m')) :
    ∃ store, m' = { m with store } := by
  induction defines generalizing m with
  | nil =>
    cases h
    exact ⟨_, rfl⟩
  | cons d rest ih =>
    obtain ⟨name, source⟩ := d
    rw [defineAll] at h
    split at h
    · rename_i hm
      obtain ⟨v, rfl⟩ := defineFormula_ok hm
      obtain ⟨store, rfl⟩ := ih h
      exact ⟨store, rfl⟩
    · cases h
      exact ⟨_, rfl⟩

end Machine

theorem Ending.ofStop_ne_done (stop : Stop) : ofStop stop ≠ .done := by
  cases stop with
  | _ => exact fun h => by cases h

/-- The run returns a failure of this kind, possibly behind others. -/
def Report.Fails (r : Report) (s : Sentinel) : Prop := ∃ e, r.ending.error? = some e ∧ e.has s

namespace Source
set_option autoImplicit true

/-- The faults of a text that are found without running it or its definitions. -/
def staticFaults (text : Text) : List Diagnostic :=
  (Scan.ofText text).diagnostics ++ (Parsed.ofTokens (Scan.ofText text).tokens).diagnostics

def resolvingFaults (text : Text) : List Diagnostic :=
  (Resolved.ofProgram (Parsed.ofTokens (Scan.ofText text).tokens).statements).diagnostics

def Defined (o : Options) (m : Machine) : Prop :=
  o.machine.defineAll o.environment o.defines.sorted = (none, m)

/-- How the stages of a run on a fresh machine gate each other. -/
structure Gated (o : Options) (text : Text) (r : Report) : Prop where
  /-- The faults of scanning and parsing are reported in order, and nothing else is done. -/
  static : staticFaults text ≠ [] → r.diagnostics = staticFaults text ∧ r.machine = o.machine
  /-- After the definitions, the faults of resolving are reported and nothing runs. -/
  resolving : staticFaults text = [] → ∀ m, Defined o m → resolvingFaults text ≠ [] →
    r.diagnostics = resolvingFaults text ∧ r.machine = m ∧ m.output = #[]
  running : staticFaults text = [] → (∀ m, Defined o m → resolvingFaults text = []) →
    r.diagnostics = [] ∨ ∃ d, r.diagnostics = [d] ∧ d.stage = .running
  compile : r.Fails .compile ↔ ∃ d ∈ r.diagnostics, d.stage.isStatic
  runtime : r.Fails .runtime ↔ ∃ d ∈ r.diagnostics, d.stage = .running
  exclusive : ¬ (r.Fails .compile ∧ r.Fails .runtime)
  /-- A failure to compile counts the faults and tells the line of the first. -/
  attributes : ∀ e, r.ending.error? = some e → e.has .compile → ∃ d ds, r.diagnostics = d :: ds ∧
    e.attrs = [Log.nat "diagnostics" (ds.length + 1), Log.int "line" d.line]

inductive Closes : Ending → List Diagnostic → Prop where
  | quiet : (∀ e, ending.error? = some e → e.Aside) → Closes ending []
  | static : d.stage.isStatic → (∀ d ∈ ds, Stage.isStatic d.stage) →
      Closes (.failed ((Failure.of .compile).attach
        [Log.nat "diagnostics" (ds.length + 1), Log.int "line" d.line])) (d :: ds)
  | running : d.stage = .running → e.has .runtime → e.has .compile = false →
      Closes (.failed e) [d]

theorem Closes.compile_iff (h : Closes ending ds) :
    (∃ e, ending.error? = some e ∧ e.has .compile) ↔ ∃ d ∈ ds, d.stage.isStatic := by
  cases h with
  | quiet haside =>
    constructor
    · rintro ⟨e, he, hc⟩
      rw [(haside e he).1] at hc
      cases hc
    · rintro ⟨d, hd, -⟩
      cases hd
  | static hd => exact ⟨fun _ => ⟨_, List.mem_cons_self, hd⟩, fun _ => ⟨_, rfl, rfl⟩⟩
  | running hd _ hno =>
    constructor
    · rintro ⟨e, he, hc⟩
      cases he
      rw [hno] at hc
      cases hc
    · rintro ⟨d, hm, hs⟩
      rw [List.mem_singleton.1 hm, hd] at hs
      cases hs

theorem not_running (h : Stage.isStatic s) : s ≠ .running := by
  rintro rfl
  cases h

theorem Closes.runtime_iff (h : Closes ending ds) :
    (∃ e, ending.error? = some e ∧ e.has .runtime) ↔ ∃ d ∈ ds, d.stage = .running := by
  cases h with
  | quiet haside =>
    constructor
    · rintro ⟨e, he, hr⟩
      rw [(haside e he).2] at hr
      cases hr
    · rintro ⟨d, hd, -⟩
      cases hd
  | static hd hds =>
    constructor
    · rintro ⟨e, he, hr⟩
      cases he
      cases hr
    · rintro ⟨d', hm, hs⟩
      rcases List.mem_cons.1 hm with rfl | hm
      · exact absurd hs (not_running hd)
      · exact absurd hs (not_running (hds d' hm))
  | running hd hr => exact ⟨fun _ => ⟨_, List.mem_cons_self, hd⟩, fun _ => ⟨_, rfl, hr⟩⟩

theorem Closes.exclusive (h : Closes ending ds) :
    ¬ ((∃ e, ending.error? = some e ∧ e.has .compile) ∧
      ∃ e, ending.error? = some e ∧ e.has .runtime) := by
  rintro ⟨⟨e, he, hc⟩, e', he', hr⟩
  obtain rfl := Option.some.inj (he.symm.trans he')
  cases h with
  | quiet haside =>
    rw [(haside e he).1] at hc
    cases hc
  | static =>
    cases he
    cases hr
  | running _ _ hno =>
    cases he
    rw [hno] at hc
    cases hc

theorem Closes.attributes (h : Closes ending ds) (he : ending.error? = some e)
    (hc : e.has .compile) : ∃ d ds', ds = d :: ds' ∧
      e.attrs = [Log.nat "diagnostics" (ds'.length + 1), Log.int "line" d.line] := by
  cases h with
  | quiet haside =>
    rw [(haside e he).1] at hc
    cases hc
  | static =>
    cases he
    exact ⟨_, _, rfl, rfl⟩
  | running _ _ hno =>
    cases he
    rw [hno] at hc
    cases hc

theorem stopped_closes (m : Machine) (log : List Log.Record) (stop : Stop) :
    Closes (stopped m log stop).ending (stopped m log stop).diagnostics ∧
      ∀ d ∈ (stopped m log stop).diagnostics, d.stage = .running := by
  cases stop with
  | fault e =>
    refine ⟨.running rfl ?_ ?_, fun d hd => ?_⟩
    · rw [Failure.has_attach, Failure.has_wrap_of]
      rfl
    · rw [Failure.has_attach, Failure.has_wrap_of]
      rfl
    · rw [List.mem_singleton.1 hd]
      rfl
  | foreign t | canceled =>
    refine ⟨.quiet fun e he => ?_, fun d hd => absurd hd List.not_mem_nil⟩
    cases he
    exact ⟨rfl, rfl⟩
  | crash c | exhausted =>
    refine ⟨.quiet fun e he => ?_, fun d hd => absurd hd List.not_mem_nil⟩
    cases he

theorem perform_closes (o : Options) (program : List (Stmt Distance)) (log : List Log.Record)
    (m : Machine) : Closes (perform o program log m).ending (perform o program log m).diagnostics ∧
      ∀ d ∈ (perform o program log m).diagnostics, d.stage = .running := by
  have hquiet : ∀ ending : Ending, ending.error? = none →
      Closes ending [] ∧ ∀ d ∈ ([] : List Diagnostic), d.stage = .running := by
    intro ending he
    refine ⟨.quiet fun e h => ?_, fun d hd => absurd hd List.not_mem_nil⟩
    rw [he] at h
    cases h
  unfold perform
  split
  · split
    · split
      · exact hquiet _ rfl
      · exact hquiet _ rfl
    · exact stopped_closes _ _ _
  · split
    · exact hquiet _ rfl
    · exact stopped_closes _ _ _

theorem Closes.one (h : Closes ending ds) (hall : ∀ d ∈ ds, d.stage = .running) :
    ds = [] ∨ ∃ d, ds = [d] ∧ d.stage = .running := by
  cases h with
  | quiet => exact .inl rfl
  | static hd => exact absurd (hall _ List.mem_cons_self) (not_running hd)
  | running hd => exact .inr ⟨_, rfl, hd⟩

theorem staticFaults_static (text : Text) : ∀ d ∈ staticFaults text, d.stage.isStatic := by
  intro d hd
  rcases List.mem_append.1 hd with hd | hd
  · rw [Scan.ofText_stage text d hd]
    rfl
  · rw [Parsed.ofTokens_stage _ d hd]
    rfl

theorem resolvingFaults_static (text : Text) : ∀ d ∈ resolvingFaults text, d.stage.isStatic := by
  intro d hd
  rw [Resolved.ofProgram_stage _ d hd]
  rfl

theorem run_static (h : staticFaults t = d :: ds) (m : Machine) :
    run o t m = ⟨m, .failed ((Failure.of .compile).attach
      [Log.nat "diagnostics" (ds.length + 1), Log.int "line" d.line]), d :: ds,
      (ofText t).log⟩ := by
  have hds : (ofText t).diagnostics = d :: ds := h
  rw [run]
  dsimp only
  rw [error?, hds, compileError?]

theorem run_execute (h : staticFaults t = []) (m : Machine) :
    run o t m = { (ofText t).execute o m with
      log := (ofText t).log ++ ((ofText t).execute o m).log } := by
  have hds : (ofText t).diagnostics = [] := h
  rw [run]
  dsimp only
  rw [error?, hds, compileError?]

theorem execute_undefined (h : staticFaults t = [])
    (hd : m.defineAll o.environment o.defines.sorted = (some e, m')) :
    (ofText t).execute o m = ⟨m', .failed e, [], []⟩ := by
  have hds : (ofText t).diagnostics = [] := h
  rw [execute, error?, hds, compileError?]
  dsimp only
  rw [hd]

def resolveLog (text : Text) : List Log.Record :=
  (resolvingFaults text).map Diagnostic.logRecord ++
    [⟨.trace, "resolve", [Log.nat "statements" (ofText text).program.length,
      Log.nat "diagnostics" (resolvingFaults text).length]⟩]

theorem execute_resolving (h : staticFaults t = [])
    (hd : m.defineAll o.environment o.defines.sorted = (none, m'))
    (hr : resolvingFaults t = d :: ds) :
    (ofText t).execute o m = ⟨m', .failed ((Failure.of .compile).attach
      [Log.nat "diagnostics" (ds.length + 1), Log.int "line" d.line]), d :: ds,
      resolveLog t⟩ := by
  have hds : (ofText t).diagnostics = [] := h
  have hrs : (Resolved.ofProgram (ofText t).program).diagnostics = d :: ds := hr
  rw [execute, error?, hds, compileError?]
  dsimp only
  rw [hd]
  dsimp only
  rw [hrs, compileError?, resolveLog, hr]

theorem execute_perform (h : staticFaults t = [])
    (hd : m.defineAll o.environment o.defines.sorted = (none, m'))
    (hr : resolvingFaults t = []) :
    (ofText t).execute o m =
      perform o (Resolved.ofProgram (ofText t).program).tree (resolveLog t) m' := by
  have hds : (ofText t).diagnostics = [] := h
  have hrs : (Resolved.ofProgram (ofText t).program).diagnostics = [] := hr
  rw [execute, error?, hds, compileError?]
  dsimp only
  rw [hd]
  dsimp only
  rw [hrs, compileError?, resolveLog, hr]

theorem run_closes (o : Options) (text : Text) (m : Machine) :
    Closes (run o text m).ending (run o text m).diagnostics := by
  cases hs : staticFaults text with
  | cons d ds =>
    have hall := staticFaults_static text
    rw [hs] at hall
    rw [run_static hs]
    exact .static (hall d List.mem_cons_self) fun d' hd => hall d' (List.mem_cons_of_mem d hd)
  | nil =>
    rw [run_execute hs]
    cases hd : m.defineAll o.environment o.defines.sorted with
    | mk e m' =>
      cases e with
      | some e =>
        rw [execute_undefined hs hd]
        refine .quiet fun e' he => ?_
        cases he
        exact Machine.defineAll_aside hd
      | none =>
        cases hr : resolvingFaults text with
        | cons d ds =>
          have hall := resolvingFaults_static text
          rw [hr] at hall
          rw [execute_resolving hs hd hr]
          exact .static (hall d List.mem_cons_self) fun d' hm => hall d' (List.mem_cons_of_mem d hm)
        | nil =>
          rw [execute_perform hs hd hr]
          exact (perform_closes _ _ _ _).1

/-- Running a text keeps its stages gated. -/
theorem run_gated (o : Options) (text : Text) : Gated o text (run o text o.machine) where
  static h := by
    obtain ⟨d, ds, hs⟩ := List.exists_cons_of_ne_nil h
    rw [run_static hs, hs]
    exact ⟨rfl, rfl⟩
  resolving hs m hd h := by
    obtain ⟨d, ds, hr⟩ := List.exists_cons_of_ne_nil h
    rw [run_execute hs, execute_resolving hs hd hr, hr]
    obtain ⟨store, rfl⟩ := Machine.defineAll_store hd
    exact ⟨rfl, rfl, rfl⟩
  running hs h := by
    rw [run_execute hs]
    cases hd : o.machine.defineAll o.environment o.defines.sorted with
    | mk e m =>
      cases e with
      | some e =>
        rw [execute_undefined hs hd]
        exact .inl rfl
      | none =>
        rw [execute_perform hs hd (h m hd)]
        obtain ⟨hcloses, hall⟩ := perform_closes o
          (Resolved.ofProgram (ofText text).program).tree (resolveLog text) m
        exact hcloses.one hall
  compile := (run_closes o text _).compile_iff
  runtime := (run_closes o text _).runtime_iff
  exclusive := (run_closes o text _).exclusive
  attributes _ he hc := (run_closes o text _).attributes he hc

end Source

end LoxLang
