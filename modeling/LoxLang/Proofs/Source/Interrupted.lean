import LoxLang.Proofs.Machine.Cuts
import LoxLang.Source.Run

namespace LoxLang

/-- The host, which tells a run to stop once so much has been written, or never. -/
def Host.limited (host : Host) (limit : Option Nat) : Host :=
  { host with signal := limit.elim .never .afterWrites }

theorem Host.limited_frees (host : Host) (limit : Option Nat) :
    (host.limited none).Frees (host.limited limit) := ⟨rfl, rfl, fun _ _ => rfl⟩

namespace Machine
set_option autoImplicit true

/-- The machine as it is when each statement of the program and each round of a loop begins. -/
def heads (host : Host) (steps : Nat) (program : List (Stmt Distance)) (m : Machine) :
    List Machine :=
  (Paced.last (Paced.statements host steps program ⟨m, []⟩)).heads

section
variable {host : Host} (hN : ∀ n ∈ host.natives, n.Heedless) (limit : Option Nat) (steps : Nat)
  (program : List (Stmt Distance)) (m : Machine)
include hN

theorem statements_erased :
    statements (host.limited limit) steps program m =
      Paced.erase (Paced.statements (host.limited limit) steps program ⟨m, []⟩) := by
  have hlimited : ∀ n ∈ (host.limited limit).natives, n.Heedless := hN
  have hpaces := Paced.statements_paces hlimited (host.limited_frees limit) steps program
  exact (hpaces.erased ⟨m, []⟩).symm

theorem statements_follows :
    Paced.Follows (host.limited limit) ⟨m, []⟩ (heads (host.limited none) steps program m)
      (Paced.statements (host.limited none) steps program ⟨m, []⟩)
      (Paced.statements (host.limited limit) steps program ⟨m, []⟩) := by
  have hlimited : ∀ n ∈ (host.limited limit).natives, n.Heedless := hN
  obtain ⟨hs, hfollows⟩ := (Paced.statements_paces hlimited (host.limited_frees limit) steps
    program).follows ⟨m, []⟩
  have hheads : heads (host.limited none) steps program m = hs := hfollows.heads
  rwa [hheads]

end

end Machine

namespace Source
set_option autoImplicit true
open Machine (Extends heads)

/-- Runs a program, which the host interrupts once so much has been written. -/
def performUntil (limit : Option Nat) (o : Options) (program : List (Stmt Distance))
    (log : List Log.Record) (m : Machine) : Report :=
  perform { o with echo := false, host := o.host.limited limit } program log m

/-- The heads and the report of a run that nobody interrupts, and those of the same run when it is
interrupted once so much has been written: they are the same, or the second run stops before the
first head that is due. -/
inductive Interrupted (due : Nat) (log : List Log.Record) (whole : Report) :
    List Machine → List Machine → Report → Prop where
  | never : (∀ g ∈ hs, g.output.size < due) → Interrupted due log whole hs hs whole
  | stopped : (∀ g ∈ before, g.output.size < due) → due ≤ h.output.size →
      Interrupted due log whole (before ++ h :: after) before
        ⟨{ h with current := Machine.globals, polls := h.polls + 1 },
          .failed (.foreign .canceled none), [], log⟩

def reported (log : List Log.Record) : EStateM.Result Stop Machine Unit → Report
  | .ok _ m => ⟨m, .done, [], log⟩
  | .error e m => stopped { m with current := Machine.globals } log e

theorem performUntil_eq (hN : ∀ n ∈ o.host.natives, n.Heedless) (limit : Option Nat)
    (program : List (Stmt Distance)) (log : List Log.Record) (m : Machine) :
    performUntil limit o program log m =
      reported log (Paced.erase
        (Paced.statements (o.host.limited limit) o.steps program ⟨m, []⟩)) := by
  rw [← Machine.statements_erased hN]
  unfold performUntil perform Machine.interpret Machine.attempt
  cases Machine.statements (o.host.limited limit) o.steps program m with
  | ok _ m' => rfl
  | error e m' => rfl

theorem reported_extends {m : Machine} {r : EStateM.Result Stop Paced Unit} (log : List Log.Record)
    (h : m.Extends (Paced.last r).machine) : m.Extends (reported log (Paced.erase r)).machine := by
  cases r with
  | ok _ w => exact h
  | error e w => exact h

theorem reported_canceled (log : List Log.Record) (m : Machine) :
    reported log (.error .canceled m) =
      ⟨{ m with current := Machine.globals }, .failed (.foreign .canceled none), [], log⟩ := by
  simp [reported, stopped, Machine.stopReport, Ending.ofStop]

theorem Interrupted.of_cut {host : Host} {r q : EStateM.Result Stop Paced Unit}
    (log : List Log.Record) (hheads : (Paced.last r).heads = hs)
    (h : Paced.Cut (host.limited (some due)) [] hs r q) :
    Interrupted due log (reported log (Paced.erase r)) hs (Paced.last q).heads
      (reported log (Paced.erase q)) := by
  have hbefore {g : Machine} (hg : (host.limited (some due)).tells g = false) :
      g.output.size < due := Nat.not_le.1 (of_decide_eq_false hg)
  cases h with
  | whole hn =>
    rw [hheads]
    exact .never fun g hg => hbefore (hn g hg)
  | short he hn hi =>
    rw [he, Paced.erase, reported_canceled]
    exact .stopped (fun g hg => hbefore (hn g hg)) (of_decide_eq_true hi)

theorem Interrupted.written {m : Machine} {log : List Log.Record} {whole cut : Report}
    (h : Interrupted (m.output.size + n) log whole hs hs' cut) (hwhole : m.Extends whole.machine)
    (hbetween : ∀ g ∈ hs, m.Extends g ∧ g.Extends whole.machine) :
    ∃ written k, whole.machine.output.toList = m.output.toList ++ written ∧
      cut.machine.output.toList = m.output.toList ++ written.take k ∧
      min n written.length ≤ k ∧ (written.length < n → cut = whole) := by
  obtain ⟨written, hwritten⟩ := hwhole
  refine ⟨written, ?_⟩
  cases h with
  | never _ =>
    refine ⟨written.length, hwritten.symm, ?_, Nat.min_le_right _ _, fun _ => rfl⟩
    rw [List.take_length, hwritten]
  | @stopped before h after _ hdue =>
    obtain ⟨⟨early, hearly⟩, hto⟩ := hbetween h (List.mem_append_right _ List.mem_cons_self)
    have hprefix : early <+: written := by
      rw [Extends, ← hearly, ← hwritten] at hto
      exact (List.prefix_append_right_inj _).1 hto
    have hsize : m.output.size + early.length = h.output.size := by
      rw [← Array.length_toList, ← Array.length_toList, ← hearly, List.length_append]
    have hn : n ≤ early.length := Nat.le_of_add_le_add_left (hsize ▸ hdue)
    refine ⟨early.length, hwritten.symm, ?_, Nat.le_trans (Nat.min_le_left _ _) hn, fun hfew => ?_⟩
    · rw [← List.prefix_iff_eq_take.1 hprefix]
      exact hearly.symm
    · exact absurd (Nat.le_trans hn hprefix.length_le) (Nat.not_le.2 hfew)

/-- An interrupted run is the beginning of the run that nobody interrupts. Once so much has been
written neither a statement of the program nor a round of a loop begins any more, and no diagnostic
is reported. -/
theorem performUntil_interrupted (o : Options) (hN : ∀ n ∈ o.host.natives, n.Heedless)
    (program : List (Stmt Distance)) (log : List Log.Record) (m : Machine) (n : Nat) :
    let due := m.output.size + n
    let whole := performUntil none o program log m
    let cut := performUntil (some due) o program log m
    Interrupted due log whole (heads (o.host.limited none) o.steps program m)
      (heads (o.host.limited (some due)) o.steps program m) cut ∧
    (∀ limit, Machine.statements (o.host.limited limit) o.steps program m =
      Paced.erase (Paced.statements (o.host.limited limit) o.steps program ⟨m, []⟩)) ∧
    ∃ written k, whole.machine.output.toList = m.output.toList ++ written ∧
      cut.machine.output.toList = m.output.toList ++ written.take k ∧
      min n written.length ≤ k ∧ (written.length < n → cut = whole) := by
  intro due whole cut
  have hfollows := Machine.statements_follows hN (some due) o.steps program m
  have hwhole : whole = _ := performUntil_eq hN none program log m
  have hcut : Interrupted due log whole (heads (o.host.limited none) o.steps program m)
      (heads (o.host.limited (some due)) o.steps program m) cut := by
    rw [hwhole, show cut = _ from performUntil_eq hN (some due) program log m]
    exact .of_cut log rfl hfollows.cut
  refine ⟨hcut, fun limit => Machine.statements_erased hN _ _ _ _, hcut.written ?_ fun g hg => ?_⟩
  · rw [hwhole]
    exact reported_extends log hfollows.written
  · obtain ⟨hfrom, hto⟩ := hfollows.between g hg
    rw [hwhole]
    exact ⟨hfrom, reported_extends log hto⟩

/-- A loop that goes on until it is told to stop at its second write. -/
theorem performUntil_interrupted_loop :
    (∀ n ∈ Native.standard, n.Heedless) ∧
      Interrupted 2 []
        (performUntil none ⟨⟨Native.standard, 0, .never⟩, false, [], fun _ => [], 20⟩
          (Resolved.ofProgram (ofText "while (true) print clock;").program).tree []
          (.new Native.standard))
        (heads ⟨Native.standard, 0, .never⟩ 20
          (Resolved.ofProgram (ofText "while (true) print clock;").program).tree
          (.new Native.standard))
        (heads ⟨Native.standard, 0, .afterWrites 2⟩ 20
          (Resolved.ofProgram (ofText "while (true) print clock;").program).tree
          (.new Native.standard))
        (performUntil (some 2) ⟨⟨Native.standard, 0, .never⟩, false, [], fun _ => [], 20⟩
          (Resolved.ofProgram (ofText "while (true) print clock;").program).tree []
          (.new Native.standard)) :=
  ⟨Native.standard_heedless,
    (performUntil_interrupted ⟨⟨Native.standard, 0, .never⟩, false, [], fun _ => [], 20⟩
      Native.standard_heedless _ [] (.new Native.standard) 2).1⟩

example : (performUntil (some 2) ⟨⟨Native.standard, 0, .never⟩, false, [], fun _ => [], 20⟩
    (Resolved.ofProgram (ofText "while (true) print clock;").program).tree []
    (.new Native.standard)).machine.output = (#["<native fn>\n", "<native fn>\n"] : Array Text) := by
  decide +kernel

end Source

end LoxLang
