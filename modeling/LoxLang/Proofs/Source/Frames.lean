import LoxLang.Proofs.Source.Along

namespace LoxLang

namespace Machine
set_option autoImplicit true

/-- A step comes back to the frame it started in, whether it has a result or stops. -/
def Restores (P : Eval α) : Prop := ∀ m, (behind P m).current = m.current

theorem current_lasts : Lasts fun m m' : Machine => m'.current = m.current where
  refl _ := rfl
  trans h h' := h'.trans h
  update _ := rfl
  write _ _ := rfl
  poll _ := rfl
  apart _ := rfl

theorem Restores.within (f : FrameId) (P : Eval α) : Restores (Machine.within f P) := by
  intro m
  unfold behind Machine.within
  cases P { m with current := f } with
  | ok a m' => rfl
  | error e m' => rfl

/-- With this many steps every function of the evaluator restores the frame. -/
structure Disciplined (host : Host) (n : Nat) : Prop where
  evaluate : ∀ e, Restores (evaluate host n e)
  arguments : ∀ es, Restores (arguments host n es)
  call : ∀ v args, Restores (call host n v args)
  invoke : ∀ f args, Restores (invoke host n f args)
  run : ∀ ss, Restores (run host n ss)
  execute : ∀ s, Restores (execute host n s)
  loop : ∀ c s, Restores (loop host n c s)

/-- Whatever construct is run, with however many steps, the frame is restored. -/
theorem disciplined (host : Host) (n : Nat) : Disciplined host n :=
  have h := current_lasts.lasting host n
  ⟨h.evaluate, h.arguments, h.call, h.invoke, h.run, h.execute, h.loop⟩

theorem statements_restores (host : Host) (steps : Nat) (ss : List (Stmt Distance)) :
    Restores (statements host steps ss) := current_lasts.statements host steps ss

/-- The machines that a host comes by: new ones, and what definitions, calls, programs, expressions
and texts make of them. -/
inductive Reached : Machine → Prop where
  | new (natives : List Native) : Reached (.new natives)
  | define (x : Text) (v : Value) : Reached m → Reached (m.define x v)
  | drained : Reached m → Reached { m with output := #[] }
  | call (host : Host) (steps : Nat) (v : Value) (args : List Value) : Reached m →
      Reached (behind (call host steps v args) m)
  | interpret (host : Host) (steps : Nat) (program : List (Stmt Distance)) : Reached m →
      Reached (interpret host steps program m).2
  | value (host : Host) (steps : Nat) (e : Expr Distance) : Reached m →
      Reached (value host steps e m).2
  | run (o : Options) (t : Text) : Reached m → Reached (Source.run o t m).machine

/-- A machine in its global frame is there again after a step, even one that fails. -/
theorem attempt_current {P : Eval α} (hP : Restores P) (hm : m.current = globals) :
    (attempt P m).2.current = globals := by
  have hp := hP m
  unfold behind at hp
  unfold attempt
  cases h : P m with
  | ok a m' =>
    rw [h] at hp
    exact hp.trans hm
  | error e m' => rfl

theorem global_kept (host : Host) (steps : Nat) :
    Kept (fun m => m.current = globals) host steps where
  define _ _ := id
  write _ := id
  value e := attempt_current ((disciplined host steps).evaluate e)
  interpret program := attempt_current (statements_restores host steps program)

theorem Reached.current (h : Reached m) : m.current = globals := by
  induction h with
  | new natives => rfl
  | define x v _ ih => exact ih
  | drained _ ih => exact ih
  | call host steps v args _ ih => exact ((disciplined host steps).call v args _).trans ih
  | interpret host steps program _ ih => exact (global_kept host steps).interpret program ih
  | value host steps e _ ih => exact (global_kept host steps).value e ih
  | run o t _ ih => exact Source.run_upheld (global_kept o.host o.steps).upheld t ih

/-- The current frame is the same after a statement, an expression, a block or a call as before it,
from whatever machine it starts and however it ends. Between runs it is the global frame, and a
program or an expression that is run from there comes back to it. -/
theorem current_kept (host : Host) (steps : Nat) :
    (∀ s m, (behind (execute host steps s) m).current = m.current) ∧
      (∀ e m, (behind (evaluate host steps e) m).current = m.current) ∧
      (∀ f body m, (behind (within f (run host steps body)) m).current = m.current) ∧
      (∀ v args m, (behind (call host steps v args) m).current = m.current) ∧
      ∀ m, Reached m → m.current = globals ∧
        (∀ program, (interpret host steps program m).2.current = m.current) ∧
        ∀ e, (value host steps e m).2.current = m.current := by
  have hn := disciplined host steps
  refine ⟨hn.execute, hn.evaluate, fun f body => Restores.within f _, hn.call, ?_⟩
  intro m hm
  have hglobal := hm.current
  refine ⟨hglobal, fun program => ?_, fun e => ?_⟩
  · exact (attempt_current (statements_restores host steps program) hglobal).trans hglobal.symm
  · exact (attempt_current (hn.evaluate e) hglobal).trans hglobal.symm

theorem current_kept_canceled :
    Reached (Source.run ⟨⟨Native.standard, 0, fun polls _ => 4 ≤ polls⟩, false, [], fun _ => [], 20⟩
        "fun f() \x7b \x7b while (true) nil; \x7d \x7d f();" (.new Native.standard)).machine ∧
      (Source.run ⟨⟨Native.standard, 0, fun polls _ => 4 ≤ polls⟩, false, [], fun _ => [], 20⟩
        "fun f() \x7b \x7b while (true) nil; \x7d \x7d f();"
        (.new Native.standard)).machine.current = globals :=
  ⟨.run _ _ (.new _), ((current_kept ⟨Native.standard, 0, .never⟩ 20).2.2.2.2 _ (.run _ _ (.new _))).1⟩

/-- That text is stopped in the third round of a silent loop, two frames away from the global one. -/
example : (Source.run ⟨⟨Native.standard, 0, fun polls _ => 4 ≤ polls⟩, false, [], fun _ => [], 20⟩
    "fun f() \x7b \x7b while (true) nil; \x7d \x7d f();"
    (.new Native.standard)).machine.store.frames.size = 3 := by
  decide +kernel

end Machine

end LoxLang
