import LoxLang.Proofs.Machine.Named
import LoxLang.Proofs.Resolver.Erase
import LoxLang.Proofs.Source.Along
import LoxLang.Proofs.Source.Dumps
import LoxLang.Proofs.Source.Gated

namespace LoxLang

namespace Machine
set_option autoImplicit true

theorem statements_naming (hhost : ∀ f ∈ host.natives, f.Named) (steps : Nat)
    {ss : List (Stmt Distance)} (hss : Stmt.WrittenAll ss) :
    Naming (fun _ => True) (statements host steps ss) := by
  induction ss with
  | nil => exact .pure trivial
  | cons s ss ih =>
    obtain ⟨hs, hss⟩ := hss
    exact (Stock.heed host).naming.bind fun _ _ =>
      ((names hhost steps).execute hs).bind fun _ _ => ih hss

theorem Naming.attempt {P : Eval α} (h : Naming R P) {m : Machine} (hm : m.store.Named) :
    (attempt P m).2.store.Named := by
  have hp := h m hm
  unfold Machine.attempt
  cases hP : P m with
  | ok a m' =>
    rw [hP] at hp
    exact hp.1
  | error e m' =>
    rw [hP] at hp
    exact hp

theorem allWord_of_isIdentifier (h : isIdentifier x = true) : x.AllWord := by
  unfold isIdentifier at h
  split at h
  · rename_i t u htokens
    rw [Bool.and_eq_true, decide_eq_true_eq, decide_eq_true_eq] at h
    have hscanned : t.Scanned := by
      apply Scan.ofText_scanned x t
      · rw [htokens]
        exact List.mem_cons_self
      · rw [h.1]
        exact Token.Kind.noConfusion
    rw [← h.2]
    exact (hscanned.isName h.1).2.allWord
  · cases h

theorem define_named {m : Machine} (x : Text) {v : Value} (hx : isIdentifier x = true)
    (hv : v.Plain) (hm : m.store.Named) : (m.define x v).store.Named := by
  apply Store.named_iff.2
  apply (Store.named_iff.1 hm).define (allWord_of_isIdentifier hx)
  cases hv
  all_goals trivial

theorem new_named {natives : List Native} (h : ∀ f ∈ natives, f.name.AllWord) :
    (Machine.new natives).store.Named :=
  Store.named_iff.2 (.new natives h fun _ => trivial)

end Machine

namespace Source
set_option autoImplicit true
open Machine

theorem resolved_written (h : staticFaults t = []) :
    Stmt.WrittenAll (Resolved.ofProgram (ofText t).program).tree := by
  have hwritten := program_written h
  rw [← Resolved.ofProgram_erase] at hwritten
  have hmap := Stmt.writtenAll_map (fun _ => ()) (Resolved.ofProgram (ofText t).program).tree
  rw [Stmt.mapAll_eq] at hmap
  exact hmap.1 hwritten

theorem perform_named (hhost : ∀ f ∈ o.host.natives, f.Named) {program : List (Stmt Distance)}
    (hprogram : Stmt.WrittenAll program) (log : List Log.Record) {m : Machine}
    (hm : m.store.Named) : (perform o program log m).machine.store.Named := by
  have hsole : ∀ e, (if o.echo then soleExpression? program else none) = some e → e.Written := by
    intro e he
    split at he
    · unfold soleExpression? at he
      split at he
      · cases he
        exact hprogram.1
      · cases he
    · cases he
  apply perform_keeps (I := fun m => m.store.Named) fun _ => id
  · intro e he
    exact ((names hhost o.steps).evaluate (hsole e he)).attempt hm
  · exact (statements_naming hhost o.steps hprogram).attempt hm

theorem run_named (hhost : ∀ f ∈ o.host.natives, f.Named) (t : Text) {m : Machine}
    (hm : m.store.Named) : (run o t m).machine.store.Named := by
  apply run_keeps (I := fun m => m.store.Named) define_named t _ hm
  intro hs _ m log hm
  exact perform_named hhost (resolved_written hs) log hm

end Source

end LoxLang
