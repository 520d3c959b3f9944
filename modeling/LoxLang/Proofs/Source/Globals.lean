import LoxLang.Proofs.Machine.Keeping
import LoxLang.Proofs.Source.Sound

namespace LoxLang

theorem Dict.mem_names {α : Type} (d : Dict α) (x : Text) : x ∈ d.names ↔ d.has x = true := by
  rw [Dict.names, Text.sort, List.mem_mergeSort, Dict.has, Dict.get?, List.lookup_isSome_iff]
  constructor
  · intro h
    obtain ⟨e, he, rfl⟩ := List.mem_map.1 h
    exact ⟨e, he, beq_self_eq_true _⟩
  · rintro ⟨e, he, hx⟩
    exact List.mem_map.2 ⟨e, he, (eq_of_beq hx).symm⟩

namespace Machine
set_option autoImplicit true

/-- The statements of a program that a run executes to their end. -/
def completed (host : Host) (steps : Nat) : List (Stmt Distance) → Machine → List (Stmt Distance)
  | [], _ => []
  | s :: ss, m =>
    match heed host m with
    | .ok _ m =>
      match execute host steps s m with
      | .ok _ m => s :: completed host steps ss m
      | .error _ _ => []
    | .error _ _ => []

/-- The names of the definitions that are made before one fails. -/
def defined (environment : Text → Text) : Dict Text → Machine → List Text
  | [], _ => []
  | (name, source) :: rest, m =>
    match m.defineFormula environment name source with
    | .ok m => name :: defined environment rest m
    | .error _ => []

theorem mem_globalNames (m : Machine) (x : Text) :
    x ∈ m.globalNames ↔ (m.store.vars globals).has x = true := Dict.mem_names _ x

theorem define_globalNames {m : Machine} (hsize : globals < m.store.frames.size) (name x : Text)
    (v : Value) : x ∈ (m.define name v).globalNames ↔ x ∈ m.globalNames ∨ name = x := by
  rw [mem_globalNames, mem_globalNames, define, Store.vars_define_self _ _ _ hsize]
  by_cases hx : x = name
  · subst hx
    simp [Store.has_set_self]
  · rw [Dict.has, Dict.get?_set_of_ne _ _ hx, ← Dict.has]
    simp [Ne.symm hx]

/-- Making definitions adds their names, and a definition that fails adds nothing. -/
theorem defineAll_globalNames {m : Machine} (hsize : globals < m.store.frames.size)
    (environment : Text → Text) (defines : Dict Text) (x : Text) :
    x ∈ (m.defineAll environment defines).2.globalNames ↔
      x ∈ m.globalNames ∨ x ∈ m.defined environment defines := by
  induction defines generalizing m with
  | nil => simp [defineAll, defined]
  | cons d rest ih =>
    obtain ⟨name, source⟩ := d
    rw [defineAll, defined]
    cases hd : m.defineFormula environment name source with
    | ok m' =>
      obtain ⟨v, rfl⟩ := defineFormula_ok hd
      dsimp only
      rw [ih (by rw [define, Store.size_define]; exact hsize), define_globalNames hsize,
        List.mem_cons, or_assoc, eq_comm (a := name)]
    | error e => simp

theorem defined_eq (h : (defineAll environment defines m).1 = none) :
    m.defined environment defines = defines.map Prod.fst := by
  induction defines generalizing m with
  | nil => rfl
  | cons d rest ih =>
    obtain ⟨name, source⟩ := d
    rw [defineAll] at h
    rw [defined]
    cases hd : m.defineFormula environment name source with
    | ok m' =>
      rw [hd] at h
      exact congrArg (name :: ·) (ih h)
    | error e =>
      rw [hd] at h
      cases h

end Machine

namespace Watched
set_option autoImplicit true

/-- A statement outside of all scopes adds the name it declares if it is executed to its end, and
none otherwise. -/
theorem execute_globalNames (hT : ∀ t, T t → t.Lexical)
    (hN : ∀ n ∈ host.natives, n.Tame host.natives) (hD : ∀ n ∈ host.natives, n.Discreet)
    {w : Watched} (hw : w.Ready T host.natives.length) (h : s.Scoped T [])
    (steps : Nat) (x : Text) :
    match execute host steps [] s w with
    | .ok _ w' => x ∈ w'.machine.globalNames ↔ x ∈ w.machine.globalNames ∨ s.declared? = some x
    | .error _ w' => x ∈ w'.machine.globalNames ↔ x ∈ w.machine.globalNames := by
  have hleaves := (keeping hT hN hD steps).execute hw.fits (global_stands hw.current) h
  unfold Leaves at hleaves
  cases he : execute host steps [] s w with
  | ok c w' =>
    rw [he] at hleaves
    simp only [Machine.mem_globalNames]
    exact hleaves.globals x
  | error e w' =>
    rw [he] at hleaves
    have hx := hleaves.globals x
    simp only [Machine.mem_globalNames]
    simpa using hx

theorem attempt_bind (P : Watch α) (F : α → Watch β) (w : Watched) : attempt (P >>= F) w =
    match P w with
    | .ok a w' => attempt (F a) w'
    | .error e w' => (.error e, w'.at_ Machine.globals) := by
  change attempt (EStateM.bind P F) w = _
  unfold attempt EStateM.bind
  cases P w <;> rfl

theorem statements_globalNames (hT : ∀ t, T t → t.Lexical)
    (hN : ∀ n ∈ host.natives, n.Tame host.natives) (hD : ∀ n ∈ host.natives, n.Discreet)
    {w : Watched} (hw : w.Ready T host.natives.length) (h : Program.Scoped T [] ss)
    (steps : Nat) (x : Text) :
    x ∈ (attempt (statements host steps ss) w).2.machine.globalNames ↔
      x ∈ w.machine.globalNames ∨
        ∃ s ∈ Machine.completed host steps ss w.machine, s.declared? = some x := by
  induction ss generalizing w with
  | nil => simp [attempt, statements, Machine.completed, Pure.pure, EStateM.pure]
  | cons s ss ih =>
    cases h with
    | cons hs hss =>
      rw [Scopes.declare?_nil] at hss
      have hheed : Runs T host (lift (Machine.heed host)) (fun _ _ => True) w :=
        heed_runs hw.fits
      have hquiet := Machine.heed_quiet host w.machine
      have hat (w' : Watched) : (w'.at_ Machine.globals).machine.globalNames =
          w'.machine.globalNames := rfl
      rw [statements, attempt_bind, Machine.completed]
      unfold Runs lift at hheed
      unfold lift
      cases hh : Machine.heed host w.machine with
      | error e m =>
        rw [hh] at hquiet
        simp [hat, Machine.mem_globalNames, hquiet]
      | ok _ m =>
        rw [hh] at hheed hquiet
        dsimp only at hheed hquiet ⊢
        have hw₁ : Ready T host.natives.length { w with machine := m } :=
          ⟨hheed.1.fits, hheed.1.current.trans hw.current⟩
        have hsame : x ∈ m.globalNames ↔ x ∈ w.machine.globalNames := by
          rw [Machine.mem_globalNames, Machine.mem_globalNames, hquiet]
        have hnames := execute_globalNames hT hN hD hw₁ hs steps x
        have hruns := (sound hT hN steps).execute hw₁.fits (global_stands hw₁.current) hs
        have hmirrored : Mirrored host steps := mirrored steps
        have hmirror := hmirrored.execute [] s { w with machine := m }
        rw [attempt_bind, ← hmirror]
        unfold Runs at hruns
        cases he : execute host steps [] s { w with machine := m } with
        | ok c w' =>
          rw [he] at hnames hruns
          dsimp only [erase] at hnames ⊢
          rw [ih ⟨hruns.1.fits, hruns.1.current.trans hw₁.current⟩ hss, hnames, hsame]
          simp [or_assoc]
        | error e w' =>
          rw [he] at hnames
          dsimp only at hnames
          simp [erase, hat, hnames, hsame]

end Watched

namespace Source
set_option autoImplicit true
open Watched

/-- The statements that running a text without faults executes to their end. -/
def completed (o : Options) (t : Text) (m : Machine) : List (Stmt Distance) :=
  match m.defineAll o.environment o.defines.sorted with
  | (none, m) =>
    Machine.completed o.host o.steps (Resolved.ofProgram (ofText t).program).tree m
  | (some _, _) => []

theorem completed_sole {program : List (Stmt Distance)} (he : soleExpression? program = some e)
    (host : Host) (steps : Nat) (m : Machine) (x : Text) :
    ¬ ∃ s ∈ Machine.completed host steps program m, s.declared? = some x := by
  unfold soleExpression? at he
  split at he
  · rename_i e'
    rintro ⟨s, hs, hx⟩
    have hsub : s ∈ [Stmt.expression e'] := by
      rw [Machine.completed] at hs
      split at hs
      · split at hs
        · exact hs
        · cases hs
      · cases hs
    rw [List.mem_singleton.1 hsub] at hx
    cases hx
  · cases he

theorem perform_globalNames (hT : ∀ t, T t → t.Lexical)
    (hN : ∀ n ∈ o.host.natives, n.Tame o.host.natives) (hD : ∀ n ∈ o.host.natives, n.Discreet)
    {w : Watched} (hw : w.Ready T o.host.natives.length) {program : List (Stmt Distance)}
    (h : Program.Scoped T [] program) (log : List Log.Record) (x : Text) :
    x ∈ (Source.perform o program log w.machine).machine.globalNames ↔
      x ∈ w.machine.globalNames ∨
        ∃ s ∈ Machine.completed o.host o.steps program w.machine, s.declared? = some x := by
  rw [← perform_machine]
  unfold Watched.perform
  cases hsole : if o.echo then soleExpression? program else none with
  | none => exact statements_globalNames hT hN hD hw h o.steps x
  | some e =>
    have he : soleExpression? program = some e := by
      split at hsole
      · exact hsole
      · cases hsole
    have hleaves := (keeping hT hN hD o.steps).evaluate hw.fits (global_stands hw.current)
      (soleExpression?_scoped h he)
    have hnames : x ∈ (attempt (evaluate o.host o.steps [] e) w).2.machine.globalNames ↔
        x ∈ w.machine.globalNames := by
      unfold Leaves at hleaves
      unfold attempt
      simp only [Machine.mem_globalNames]
      cases hev : evaluate o.host o.steps [] e w with
      | ok v w' =>
        rw [hev] at hleaves
        have hx := hleaves.globals x
        rw [or_iff_left nofun] at hx
        exact hx
      | error s w' =>
        rw [hev] at hleaves
        have hx := hleaves.globals x
        rw [or_iff_left nofun] at hx
        exact hx
    have hnone := completed_sole he o.host o.steps w.machine x
    rw [or_iff_left hnone, ← hnames]
    dsimp only
    rcases attempt (evaluate o.host o.steps [] e) w with ⟨⟨stop⟩ | ⟨v⟩, w'⟩
    · rfl
    · dsimp only
      cases v.text? <;> rfl

/-- Running a text without faults, in whatever way it ends, leaves the global names that were there,
those of the definitions that were made, and those of the declarations outside of all scopes that
were executed to their end, and no others. Definitions that do not fail are all made. -/
theorem run_globalNames (natives : List Native) (hN : ∀ n ∈ natives, n.Tame natives)
    (hD : ∀ n ∈ natives, n.Discreet)
    (runs : List (Options × Text)) (hruns : ∀ r ∈ runs, r.1.host.natives = natives)
    (o : Options) (ho : o.host.natives = natives) (t : Text) (hs : staticFaults t = [])
    (hr : resolvingFaults t = []) :
    (∀ x, x ∈ (run o t (after runs (.new natives))).machine.globalNames ↔
      x ∈ (after runs (.new natives)).globalNames ∨
      x ∈ (after runs (.new natives)).defined o.environment o.defines.sorted ∨
      ∃ s ∈ completed o t (after runs (.new natives)), s.declared? = some x) ∧
    (((after runs (.new natives)).defineAll o.environment o.defines.sorted).1 = none →
      (after runs (.new natives)).defined o.environment o.defines.sorted =
        o.defines.sorted.map Prod.fst) := by
  refine ⟨fun x => ?_, Machine.defined_eq⟩
  have hready := observed_ready (runs.map Prod.snd ++ [t]) hN (start_ready natives) hruns
    fun r hr => List.mem_append_left _ (List.mem_map_of_mem hr)
  have ht := List.mem_append_right (runs.map Prod.snd) (List.mem_singleton_self t)
  have hmachine : (observed runs (start natives)).machine = after runs (.new natives) :=
    observed_machine runs _
  rw [← hmachine]
  subst ho
  have hdefines := Machine.defineAll_globalNames hready.fits.size o.environment o.defines.sorted x
  rw [run_execute hs, completed, ← or_assoc, ← hdefines]
  cases hd : (observed runs (start o.host.natives)).machine.defineAll o.environment
      o.defines.sorted with
  | mk e m =>
    cases e with
    | none =>
      have hscoped := program_scoped ran_lexical (fun u hu => ⟨t, ht, hs, hr, hu⟩) hs hr
      rw [execute_perform hs hd hr]
      exact perform_globalNames ran_lexical hN hD (defineAll_ready hready hd) hscoped _ x
    | some e =>
      rw [execute_undefined hs hd]
      simp

/-- A run that is told to stop between two declarations, neither of which writes anything. -/
theorem run_globalNames_canceled :
    (staticFaults "var a; var b;" = [] ∧ resolvingFaults "var a; var b;" = []) ∧
      ∀ x, x ∈ (run ⟨⟨Native.standard, 0, fun polls _ => 0 < polls⟩, false, [], fun _ => [], 20⟩
          "var a; var b;" (after [] (.new Native.standard))).machine.globalNames ↔
        x ∈ (after [] (.new Native.standard)).globalNames ∨
        x ∈ (after [] (.new Native.standard)).defined (fun _ => []) (Dict.sorted []) ∨
        ∃ s ∈ completed ⟨⟨Native.standard, 0, fun polls _ => 0 < polls⟩, false, [], fun _ => [], 20⟩
          "var a; var b;" (after [] (.new Native.standard)), s.declared? = some x :=
  have hs : staticFaults "var a; var b;" = [] := by decide +kernel
  have hr : resolvingFaults "var a; var b;" = [] := by decide +kernel
  ⟨⟨hs, hr⟩, (run_globalNames Native.standard Native.standard_tame Native.standard_discreet []
    (by simp) ⟨⟨Native.standard, 0, fun polls _ => 0 < polls⟩, false, [], fun _ => [], 20⟩ rfl _
    hs hr).1⟩

example : ((run ⟨⟨Native.standard, 0, fun polls _ => 0 < polls⟩, false, [], fun _ => [], 20⟩
    "var a; var b;" (.new Native.standard)).machine.store.vars Machine.globals).map Prod.fst =
      (["clock", "a"] : List Text) := by
  decide +kernel

end Source

end LoxLang
