import LoxLang.Proofs.Machine.Returns
import LoxLang.Proofs.Resolver.Erase
import LoxLang.Proofs.Resolver.Marks
import LoxLang.Proofs.Source.Sound

namespace LoxLang

namespace Resolved
set_option autoImplicit true
open Resolver

theorem tree_faults (program : List (Stmt Mark)) :
    faults (Stmt.placesAll .outermost (ofProgram program).tree) =
      (ofProgram program).diagnostics := by
  have herased {μ : Type} (ss : List (Stmt μ)) :
      Stmt.placesAll .outermost (ss.map Stmt.erase) = Stmt.placesAll .outermost ss := by
    have hmap := Stmt.placesAll_map (fun _ => ()) .outermost ss
    rwa [Stmt.mapAll_eq] at hmap
  rw [ofProgram_faults, ← herased, ofProgram_erase, herased]

end Resolved

namespace Machine
set_option autoImplicit true

/-- The machines on which only programs without faults have been run. -/
inductive Checked (natives : List Native) : Machine → Prop where
  | new : Checked natives (.new natives)
  | define (x : Text) : v.Plain → Checked natives m → Checked natives (m.define x v)
  | write (t : Text) : Checked natives m → Checked natives (m.write t)
  | drained : Checked natives m → Checked natives { m with output := #[] }
  | interpret : host.natives = natives → (Resolved.ofProgram program).diagnostics = [] →
      Checked natives m →
      Checked natives (m.interpret host steps (Resolved.ofProgram program).tree).2
  | value : host.natives = natives → Checked natives m → Checked natives (m.value host steps e).2

theorem Checked.lawful (hN : ∀ native ∈ natives, native.Tame natives) (h : Checked natives m) :
    m.store.Lawful := by
  induction h with
  | new => exact .new natives (fun _ _ => trivial) fun _ => trivial
  | define x hv _ ih =>
    apply ih.define trivial
    cases hv
    all_goals trivial
  | write t _ ih => exact ih
  | drained _ ih => exact ih
  | interpret hhost haccepted _ ih =>
    subst hhost
    rw [← Resolved.tree_faults] at haccepted
    exact (Journaled.statements_tells hN _ rfl haccepted).attempt ih
  | value hhost _ ih =>
    subst hhost
    exact ((Journaled.telling hN _).evaluate _).attempt ih

end Machine

namespace Source
set_option autoImplicit true
open Machine (Checked)

theorem run_checked (ho : o.host.natives = natives) (t : Text) (hm : Checked natives m) :
    Checked natives (run o t m).machine := by
  apply run_keeps (fun x _ _ hv => .define x hv) t _ hm
  intro _ haccepted m log hm
  exact perform_keeps .write (fun e _ => .value ho hm) (.interpret ho haccepted hm) log

theorem after_checked {runs : List (Options × Text)}
    (hruns : ∀ r ∈ runs, r.1.host.natives = natives) :
    Checked natives (after runs (.new natives)) := by
  apply List.foldlRecOn runs _ .new
  intro m hm r hr
  exact run_checked (hruns r hr) r.2 hm

/-- Returns stay inside calls. On a machine on which only programs without faults have been run,
another such program does what it does without a journal. By its journal none of its statements ends
with a value, and every value that is returned is consumed by the innermost call around it: nothing
of that call comes after, and an initializer returns `nil`. The same holds of an expression. -/
theorem returns_contained (natives : List Native) (hN : ∀ native ∈ natives, native.Tame natives)
    (m : Machine) (hm : Checked natives m) (host : Host) (hhost : host.natives = natives)
    (steps : Nat) :
    (∀ program, (Resolved.ofProgram program).diagnostics = [] →
      let ss := (Resolved.ofProgram program).tree
      Journaled.outcome (Journaled.statements host steps ss ⟨m, []⟩) =
          Machine.statements host steps ss m ∧
        Event.Contained 0 (Journaled.journal (Journaled.statements host steps ss) m)) ∧
    ∀ e, Journaled.outcome (Journaled.evaluate host steps none e ⟨m, []⟩) =
          Machine.evaluate host steps e m ∧
        Event.Contained 0 (Journaled.journal (Journaled.evaluate host steps none e) m) := by
  have hstore := hm.lawful hN
  subst hhost
  constructor
  · intro program haccepted ss
    rw [← Resolved.tree_faults] at haccepted
    exact (Journaled.statements_tells hN steps rfl haccepted).contained hstore
  · intro e
    exact ((Journaled.telling hN steps).evaluate e).contained hstore

/-- An initializer and a function that each return out of a loop that would not end. -/
def returning : List (Options × Text) :=
  [(⟨⟨Native.standard, 0, .never⟩, false, [], fun _ => [], 20⟩,
    "class A \x7b init() \x7b while (true) return; \x7d \x7d " ++
    "fun f() \x7b while (true) \x7b return A(); \x7d \x7d")]

theorem returns_contained_loops :
    ((∀ native ∈ Native.standard, native.Tame Native.standard) ∧
      Checked Native.standard (after returning (.new Native.standard)) ∧
      (⟨Native.standard, 0, .never⟩ : Host).natives = Native.standard ∧
      (Resolved.ofProgram (ofText "f();").program).diagnostics = []) ∧
    Event.Contained 0 (Journaled.journal (Journaled.statements ⟨Native.standard, 0, .never⟩ 20
      (Resolved.ofProgram (ofText "f();").program).tree)
        (after returning (.new Native.standard))) := by
  have hchecked : Checked Native.standard (after returning (.new Native.standard)) :=
    after_checked (by simp [returning])
  have haccepted : (Resolved.ofProgram (ofText "f();").program).diagnostics = [] := by
    decide +kernel
  refine ⟨⟨Native.standard_tame, hchecked, rfl, haccepted⟩, ?_⟩
  exact ((returns_contained Native.standard Native.standard_tame _ hchecked
    ⟨Native.standard, 0, .never⟩ rfl 20).1 _ haccepted).2

/-- The call of the function comes after one event, that of the initializer after five. -/
example : (Journaled.journal (Journaled.statements ⟨Native.standard, 0, .never⟩ 20
    (Resolved.ofProgram (ofText "f();").program).tree)
      (after returning (.new Native.standard))).map Event.call? =
    [none, some 1, some 1, some 1, some 1, some 5, some 5, some 5, some 5, some 5, some 1, some 1,
      none] := by
  decide +kernel

end Source

end LoxLang
