import LoxLang.Proofs.Machine.Along
import LoxLang.Source.Run

namespace LoxLang
set_option autoImplicit true

/-- A value without parts. -/
inductive Value.Plain : Value → Prop where
  | nil : Plain .nil
  | bool (b : Bool) : Plain (.bool b)
  | number (x : Float) : Plain (.number x)
  | string (t : Text) : Plain (.string t)

namespace Machine

theorem eval_plain (h : Formula.eval environment source = .ok v) : v.Plain := by
  unfold Formula.eval at h
  split at h
  · cases h
  · rename_i q _
    unfold Formula.result at h
    split at h
    · rename_i hq
      cases h
      cases q with
      | list | record | reader => cases hq
      | nil =>
        cases hq
        exact .nil
      | bool =>
        cases hq
        exact .bool _
      | integer | float =>
        cases hq
        exact .number _
      | text =>
        cases hq
        exact .string _
    · cases h

structure Kept (I : Machine → Prop) (host : Host) (steps : Nat) : Prop where
  define : ∀ {m : Machine} (x : Text) (v : Value), I m → I (m.define x v)
  write : ∀ {m : Machine} (t : Text), I m → I (m.write t)
  value : ∀ {m : Machine} (e : Expr Distance), I m → I (m.value host steps e).2
  interpret : ∀ {m : Machine} (program : List (Stmt Distance)), I m →
    I (m.interpret host steps program).2

/-- The same if only values without parts are defined, as those of formulas are. -/
structure Upheld (I : Machine → Prop) (host : Host) (steps : Nat) : Prop where
  define : ∀ {m : Machine} (x : Text) {v : Value}, v.Plain → I m → I (m.define x v)
  write : ∀ {m : Machine} (t : Text), I m → I (m.write t)
  value : ∀ {m : Machine} (e : Expr Distance), I m → I (m.value host steps e).2
  interpret : ∀ {m : Machine} (program : List (Stmt Distance)), I m →
    I (m.interpret host steps program).2

variable {I : Machine → Prop}

theorem Kept.upheld (h : Kept I host steps) : Upheld I host steps :=
  ⟨fun x _ _ => h.define x _, h.write, h.value, h.interpret⟩

section
variable (h : ∀ {m : Machine} (x : Text) {v : Value}, isIdentifier x = true → v.Plain → I m →
  I (m.define x v))
include h

theorem defineFormula_keeps {m m' : Machine} (hm : I m)
    (hdefine : m.defineFormula environment x source = .ok m') : I m' := by
  unfold Machine.defineFormula at hdefine
  split at hdefine
  · rename_i hx
    split at hdefine
    · rename_i hv
      cases hdefine
      exact h x hx (eval_plain hv) hm
    · cases hdefine
  · cases hdefine

/-- What the definition of a value without parts keeps is kept by definitions in turn. -/
theorem defineAll_keeps (environment : Text → Text) (defines : Dict Text) {m : Machine} (hm : I m) :
    I (m.defineAll environment defines).2 := by
  induction defines generalizing m with
  | nil => exact hm
  | cons entry rest ih =>
    obtain ⟨x, source⟩ := entry
    rw [Machine.defineAll]
    split
    · rename_i m' hdefine
      exact ih (defineFormula_keeps h hm hdefine)
    · exact hm

end

theorem Upheld.defineAll (h : Upheld I host steps) (environment : Text → Text)
    (defines : Dict Text) {m : Machine} (hm : I m) :
    I (m.defineAll environment defines).2 :=
  defineAll_keeps (fun x _ _ => h.define x) environment defines hm

theorem kept_of_update {I : Store → Prop} (h : ∀ {s s' : Store}, s.Update s' → I s → I s')
    (host : Host) (steps : Nat) : Kept (fun m => I m.store) host steps := by
  have hlasts : Lasts fun m m' : Machine => I m.store → I m'.store := {
    refl := fun _ => id
    trans := fun h h' => h' ∘ h
    update := h
    write := fun _ _ => id
    poll := fun _ => id
    apart := id }
  have hattempt {α : Type} {P : Eval α} {m : Machine} (hP : I m.store → I (behind P m).store)
      (hm : I m.store) : I (attempt P m).2.store := by
    unfold behind at hP
    unfold attempt
    cases hstep : P m with
    | ok a m' =>
      rw [hstep] at hP
      exact hP hm
    | error e m' =>
      rw [hstep] at hP
      exact hP hm
  exact {
    define := fun x v => h (.define globals x v)
    write := fun _ => id
    value := fun e => hattempt ((hlasts.lasting host steps).evaluate e _)
    interpret := fun program => hattempt (hlasts.statements host steps program _) }

end Machine

namespace Source
open Machine (Upheld)

variable {I : Machine → Prop} {o : Options} {m : Machine}

theorem compileError?_eq_none (h : compileError? ds = none) : ds = [] := by
  cases ds with
  | nil => rfl
  | cons d ds => cases h

theorem perform_keeps (hwrite : ∀ {m : Machine} (t : Text), I m → I (m.write t))
    {program : List (Stmt Distance)}
    (hvalue : ∀ e, (if o.echo then soleExpression? program else none) = some e →
      I (m.value o.host o.steps e).2)
    (hprogram : I (m.interpret o.host o.steps program).2) (log : List Log.Record) :
    I (perform o program log m).machine := by
  unfold perform
  cases he : if o.echo then soleExpression? program else none with
  | some e =>
    have hv := hvalue e he
    dsimp only
    generalize m.value o.host o.steps e = r at hv ⊢
    obtain ⟨result, m'⟩ := r
    cases result with
    | error stop => exact hv
    | ok v =>
      dsimp only
      cases v.text? with
      | some t => exact hwrite _ hv
      | none => exact hv
  | none =>
    dsimp only
    generalize m.interpret o.host o.steps program = r at hprogram ⊢
    obtain ⟨result, m'⟩ := r
    cases result with
    | error stop => exact hprogram
    | ok _ => exact hprogram

/-- A text that is run keeps what definitions and its program keep, at whichever stage it ends. Its
program runs only if it has no fault. -/
theorem run_keeps (hdefine : ∀ {m : Machine} (x : Text) {v : Value}, isIdentifier x = true →
      v.Plain → I m → I (m.define x v)) (t : Text)
    (hperform : (ofText t).diagnostics = [] →
      (Resolved.ofProgram (ofText t).program).diagnostics = [] → ∀ {m : Machine} log, I m →
        I (perform o (Resolved.ofProgram (ofText t).program).tree log m).machine) (hm : I m) :
    I (run o t m).machine := by
  unfold run
  dsimp only
  cases hstatic : (ofText t).error? with
  | some e => exact hm
  | none =>
    dsimp only
    unfold execute
    rw [hstatic]
    have hd := Machine.defineAll_keeps hdefine o.environment o.defines.sorted hm
    generalize m.defineAll o.environment o.defines.sorted = r at hd ⊢
    obtain ⟨failure, m'⟩ := r
    cases failure with
    | some e => exact hd
    | none =>
      dsimp only
      cases hresolving : compileError? (Resolved.ofProgram (ofText t).program).diagnostics with
      | some e => exact hd
      | none =>
        exact hperform (compileError?_eq_none hstatic) (compileError?_eq_none hresolving) _ hd

theorem run_upheld (h : Upheld I o.host o.steps) (t : Text) (hm : I m) :
    I (run o t m).machine := by
  apply run_keeps (fun x _ _ => h.define x) t _ hm
  intro _ _ m log hm
  exact perform_keeps h.write (fun e _ => h.value e hm) (h.interpret _ hm) log

end Source

end LoxLang
