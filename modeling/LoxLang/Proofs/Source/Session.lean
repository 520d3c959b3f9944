import LoxLang.Proofs.Machine.Lockstep
import LoxLang.Proofs.Parser.Joined
import LoxLang.Proofs.Resolver.Alike
import LoxLang.Proofs.Resolver.Sound
import LoxLang.Proofs.Source.Gated
import LoxLang.Proofs.Source.Recorded
import LoxLang.Proofs.Source.Sound

namespace LoxLang
set_option autoImplicit true

namespace Source

/-- The text has faults that are found before it runs. -/
def Faulty (text : Text) : Prop := staticFaults text ≠ [] ∨ resolvingFaults text ≠ []

instance (text : Text) : Decidable (Faulty text) := inferInstanceAs (Decidable (_ ∨ _))

/-- The texts with what comes of each when they are run in turn, and the machine in the end. Each is
run with options of its own. -/
def session : List (Options × Text) → Machine → List ((Options × Text) × Report) × Machine
  | [], m => ([], m)
  | turn :: turns, m =>
    let r := run turn.1 turn.2 m
    let (rest, m) := session turns r.machine
    ((turn, r) :: rest, m)

theorem defineAll_nothing {o : Options} (hd : o.defines = []) (m : Machine) :
    m.defineAll o.environment o.defines.sorted = (none, m) := by
  rw [hd, Dict.sorted, List.mergeSort_nil]
  rfl

theorem run_faulty (hd : o.defines = []) (h : Faulty t) (m : Machine) :
    (run o t m).machine = m ∧ ∃ d ∈ (run o t m).diagnostics, d.stage.isStatic := by
  cases hs : staticFaults t with
  | cons d ds =>
    rw [run_static hs]
    exact ⟨rfl, d, List.mem_cons_self, staticFaults_static t d (hs ▸ List.mem_cons_self)⟩
  | nil =>
    obtain ⟨d, ds, hr⟩ := List.exists_cons_of_ne_nil (h.resolve_left fun hne => hne hs)
    rw [run_execute hs, execute_resolving hs (defineAll_nothing hd m) hr]
    exact ⟨rfl, d, List.mem_cons_self, resolvingFaults_static t d (hr ▸ List.mem_cons_self)⟩

theorem faultless (h : ¬ Faulty t) : staticFaults t = [] ∧ resolvingFaults t = [] :=
  ⟨Decidable.not_not.1 fun hne => h (.inl hne), Decidable.not_not.1 fun hne => h (.inr hne)⟩

theorem run_faultless (hd : o.defines = []) (h : ¬ Faulty t) (m : Machine) :
    ∀ d ∈ (run o t m).diagnostics, d.stage = .running := by
  obtain ⟨hs, hr⟩ := faultless h
  rw [run_execute hs, execute_perform hs (defineAll_nothing hd m) hr]
  exact (perform_closes _ _ _ m).2

/-- The texts of a session that do not report a fault found before running. -/
def clean (rs : List ((Options × Text) × Report)) : List ((Options × Text) × Report) :=
  rs.filter fun r => r.2.diagnostics.all (!·.stage.isStatic)

theorem clean_cons_faulty (hd : o.defines = []) (h : Faulty t) (m : Machine)
    (rs : List ((Options × Text) × Report)) : clean (((o, t), run o t m) :: rs) = clean rs := by
  obtain ⟨-, d, hm, hstatic⟩ := run_faulty hd h m
  refine List.filter_cons_of_neg fun hall => ?_
  have hnot := List.all_eq_true.1 hall d hm
  rw [hstatic] at hnot
  cases hnot

theorem clean_cons_faultless (hd : o.defines = []) (h : ¬ Faulty t) (m : Machine)
    (rs : List ((Options × Text) × Report)) :
    clean (((o, t), run o t m) :: rs) = ((o, t), run o t m) :: clean rs := by
  refine List.filter_cons_of_pos (List.all_eq_true.2 fun d hm => ?_)
  rw [run_faultless hd h m d hm]
  rfl

/-- The texts without faults run among themselves as they did among all. -/
theorem session_clean {turns : List (Options × Text)} (hd : ∀ turn ∈ turns, turn.1.defines = [])
    (m : Machine) :
    session ((clean (session turns m).1).map Prod.fst) m =
      (clean (session turns m).1, (session turns m).2) := by
  induction turns generalizing m with
  | nil => rfl
  | cons turn turns ih =>
    obtain ⟨o, t⟩ := turn
    obtain ⟨ho, hds⟩ := List.forall_mem_cons.1 hd
    have hrest := ih hds (run o t m).machine
    rw [session]
    dsimp only
    by_cases h : Faulty t
    · rw [clean_cons_faulty ho h]
      rw [(run_faulty ho h m).1] at hrest ⊢
      exact hrest
    · rw [clean_cons_faultless ho h, List.map_cons, session]
      dsimp only
      rw [hrest]

/-- Leaving out the texts that report a fault found before running changes neither what comes of the
others nor the machine in the end. What the texts have recorded by any time, those with faults
included, tells each the distances that it was resolved to. -/
theorem session_traceless (turns : List (Options × Text))
    (hd : ∀ turn ∈ turns, turn.1.defines = []) (m : Machine) :
    session ((clean (session turns m).1).map Prod.fst) m =
        (clean (session turns m).1, (session turns m).2) ∧
      ∀ n i turn, (turns.take n)[i]? = some turn → (ofText turn.2).error? = none →
        (ofText turn.2).program.map (Stmt.map (recorded ((turns.take n).map Prod.snd) i) id) =
          (Resolved.ofProgram (ofText turn.2).program).tree := by
  refine ⟨session_clean hd m, ?_⟩
  intro n i turn hturn hstatic
  have htext : ((turns.take n).map Prod.snd)[i]? = some turn.2 := by
    rw [List.getElem?_map, hturn]
    rfl
  exact recorded_tells htext hstatic

/-- A text that cannot be parsed and one that records a distance before a fault is found in it are
run before a text without faults. -/
theorem session_traceless_faults :
    ∃ turns : List (Options × Text),
      turns.map Prod.snd =
        (["(", "\x7b var a; a; return; \x7d", "\x7b var b; print b; \x7d"] : List Text) ∧
      (∀ turn ∈ turns, turn.1.defines = []) ∧
      session ((clean (session turns (.new Native.standard)).1).map Prod.fst)
          (.new Native.standard) =
        (clean (session turns (.new Native.standard)).1,
          (session turns (.new Native.standard)).2) ∧
      (ofText "\x7b var b; print b; \x7d").program.map
          (Stmt.map (recorded (turns.map Prod.snd) 2) id) =
        (Resolved.ofProgram (ofText "\x7b var b; print b; \x7d").program).tree := by
  have hd (texts : List Text) : ∀ turn ∈ texts.map
      (Prod.mk (⟨⟨Native.standard, 0, .never⟩, true, [], fun _ => [], 9⟩ : Options)),
      turn.1.defines = [] := by
    intro turn hturn
    obtain ⟨t, -, rfl⟩ := List.mem_map.1 hturn
    rfl
  have htexts := hd ["(", "\x7b var a; a; return; \x7d", "\x7b var b; print b; \x7d"]
  obtain ⟨hclean, htold⟩ := session_traceless _ htexts (.new Native.standard)
  have hlast := htold 3 2 (_, "\x7b var b; print b; \x7d") rfl (by decide +kernel)
  exact ⟨_, rfl, htexts, hclean, hlast⟩

end Source

namespace Resolver

theorem stmts_append (ss us : List (Stmt Mark)) (r : Resolver) :
    stmts (ss ++ us) r = ((stmts ss r).1 ++ (stmts us (stmts ss r).2).1,
      (stmts us (stmts ss r).2).2) := by
  induction ss generalizing r with
  | nil => rfl
  | cons s ss ih =>
    rw [List.cons_append, stmts, stmts]
    simp only [run_bind, ih]
    rfl

/-- After a program without faults the resolver stands as before the first statement. -/
theorem stmts_back (hT : ∀ t, T t → t.Lexical) {ss : List (Stmt Mark)}
    (hf : Stmt.FormedAll T ss) (h : (stmts ss initial).2.diagnostics = []) :
    Alike initial (stmts ss initial).2 := by
  obtain ⟨ds, hd, hr⟩ := stmts_resolves hT ss initial
  have hds : ds = [] := (List.append_eq_nil_iff.1 (hd.symm.trans h)).2
  obtain ⟨hback, hscoped⟩ := hr hds
  obtain ⟨-, Γ', hat, -, hnil⟩ := hscoped [] Resolved.initial_at hf
  have hscopes := hat.agrees
  rw [hnil rfl] at hscopes
  exact ⟨hscopes.nil_iff, hback.body, hback.home, congrArg List.length h⟩

end Resolver

namespace Resolved
open Resolver

/-- Two programs without faults that follow one another are resolved without a fault, each as on its
own. -/
theorem ofProgram_joined (hT : ∀ t, T t → t.Lexical) (hR : Spelled R)
    {ss ss' us us' : List (Stmt Mark)} (hf : Stmt.FormedAll T ss)
    (hs : List.Forall₂ (Stmt.Alike R Anyhow) ss ss')
    (hu : List.Forall₂ (Stmt.Alike R Anyhow) us us')
    (hss : (ofProgram ss).diagnostics = []) (hus : (ofProgram us).diagnostics = []) :
    (ofProgram (ss' ++ us')).diagnostics = [] ∧
      List.Forall₂ (Stmt.Alike R Eq) ((ofProgram ss).tree ++ (ofProgram us).tree)
        (ofProgram (ss' ++ us')).tree := by
  obtain ⟨hfirst, hmid⟩ := stmts_alike hR ss hs initial initial (.refl _)
  have hback := stmts_back hT hf hss
  have hstart : Resolver.Alike initial (stmts ss' initial).2 :=
    ⟨hmid.scopes.trans hback.scopes, hmid.body.trans hback.body, hmid.home.trans hback.home,
      hmid.faults.trans hback.faults⟩
  obtain ⟨hsecond, hend⟩ := stmts_alike hR us hu initial _ hstart
  have hrun : ofProgram (ss' ++ us') = run (stmts (ss' ++ us')) := rfl
  have hfaults : (stmts us' (stmts ss' initial).2).2.diagnostics = [] := by
    apply List.length_eq_zero_iff.1
    rw [hend.faults]
    exact congrArg List.length hus
  rw [hrun, run]
  unfold StateT.run
  rw [stmts_append]
  exact ⟨hfaults, List.rel_append hfirst hsecond⟩

end Resolved

/-- Two endings of the same sort with the faults that are reported. -/
inductive Ending.Alike (R : Token → Token → Prop) :
    Ending → List Diagnostic → Ending → List Diagnostic → Prop where
  | done : Ending.Alike R .done [] .done []
  | stopped : Stop.Alike R stop stop' → Ending.Alike R (.ofStop stop) (Machine.stopReport stop).1
      (.ofStop stop') (Machine.stopReport stop').1

/-- Two runs that write the same and end in the same way. -/
structure Report.Alike (R : Token → Token → Prop) (r r' : Report) : Prop where
  output : r'.machine.output = r.machine.output
  globalNames : r'.machine.globalNames = r.machine.globalNames
  machine : r.machine.Alike R r'.machine
  ending : Ending.Alike R r.ending r.diagnostics r'.ending r'.diagnostics

inductive Report.Tells : Report → EStateM.Result Stop Machine Unit → Prop where
  | ok : r.machine = m → r.ending = .done → r.diagnostics = [] → Report.Tells r (.ok () m)
  | error : r.machine = { m with current := Machine.globals } → r.ending = .ofStop stop →
      r.diagnostics = (Machine.stopReport stop).1 → Report.Tells r (.error stop m)

instance (e : Ending) : Decidable (e = .done) :=
  match e with
  | .done => .isTrue rfl
  | .failed _ => .isFalse (by simp)
  | .crashed _ => .isFalse (by simp)
  | .exhausted => .isFalse (by simp)

theorem Machine.Alike.globalNames (h : Machine.Alike R m m') : m'.globalNames = m.globalNames :=
  (h.store.vars Machine.globals).names

theorem Report.Tells.alike {r r' : Report} (h : r.Tells out) (h' : r'.Tells out')
    (hends : Machine.Ends R Anyhow out out') : r.Alike R r' := by
  cases hends with
  | ok _ hm =>
    cases h with
    | ok hmachine hending hfaults =>
      cases h' with
      | ok hmachine' hending' hfaults' =>
        rw [← hmachine, ← hmachine'] at hm
        refine ⟨hm.output, hm.globalNames, hm, ?_⟩
        rw [hending, hfaults, hending', hfaults']
        exact .done
  | error he hm =>
    cases h with
    | error hmachine hending hfaults =>
      cases h' with
      | error hmachine' hending' hfaults' =>
        have hback : r.machine.Alike R r'.machine := by
          rw [hmachine, hmachine']
          exact ⟨hm.store, rfl, hm.output, hm.polls⟩
        refine ⟨hback.output, hback.globalNames, hback, ?_⟩
        rw [hending, hfaults, hending', hfaults']
        exact .stopped he

namespace Source

def compiled (t : Text) : List (Stmt Distance) := (Resolved.ofProgram (ofText t).program).tree

theorem run_tells (hecho : o.echo = false) (hd : o.defines = []) (ht : ¬ Faulty t) (m : Machine) :
    (run o t m).Tells (Machine.statements o.host o.steps (compiled t) m) := by
  obtain ⟨hs, hr⟩ := faultless ht
  rw [run_execute hs, execute_perform hs (defineAll_nothing hd m) hr]
  have hsole : (if o.echo then soleExpression? (compiled t) else none) = none := by
    rw [hecho]
    rfl
  unfold perform Machine.interpret Machine.attempt
  rw [← compiled, hsole]
  dsimp only
  cases Machine.statements o.host o.steps (compiled t) m with
  | ok u m' => exact .ok rfl rfl rfl
  | error stop m' => exact .error rfl rfl rfl

/-- Where a token of a session stands in the text that joins two texts: a token of the first text or
of an earlier function where it stood, and one of the second text below the first. -/
def Moved (m : Machine) (p q : Text) (t t' : Token) : Prop :=
  (m.Held t ∨ t ∈ (Scan.ofText p).tokens) ∧ t' = t ∨
    t ∈ (Scan.ofText q).tokens ∧ t' = t.later (1 + p.newlines)

theorem moved_spelled (m : Machine) (p q : Text) : Spelled (Moved m p q) := by
  intro t t' h
  rcases h with ⟨-, rfl⟩ | ⟨-, rfl⟩
  · exact ⟨rfl, rfl⟩
  · exact ⟨rfl, rfl⟩

/-- The text that joins two texts without faults has none, and its program is written as theirs are,
one after the other. -/
theorem compiled_joined (m : Machine) (hp : ¬ Faulty p) (hq : ¬ Faulty q) :
    ¬ Faulty (p ++ Text.newline :: q) ∧
      List.Forall₂ (Stmt.Alike (Moved m p q) Eq) (compiled p ++ compiled q)
        (compiled (p ++ Text.newline :: q)) := by
  obtain ⟨hsp, hrp⟩ := faultless hp
  obtain ⟨hsq, hrq⟩ := faultless hq
  obtain ⟨hscanp, hparsep⟩ := List.append_eq_nil_iff.1 hsp
  obtain ⟨hscanq, hparseq⟩ := List.append_eq_nil_iff.1 hsq
  obtain ⟨htokens, hscan⟩ := Scan.ofText_joined hscanp hscanq
  obtain ⟨ps, eof, hps, heof, hallp⟩ := Scan.ofText_tokens p
  obtain ⟨qs, eof', hqs, heof', hallq⟩ := Scan.ofText_tokens q
  rw [hps] at hparsep
  rw [hqs] at hparseq
  obtain ⟨hparse, htrees⟩ :=
    Parsed.ofTokens_joined (1 + p.newlines) heof (fun u hu => (hallp u hu).1)
      (fun u hu => (hallq u hu).1) hparsep hparseq heof'
  rw [hps, hqs, List.dropLast_concat] at htokens
  rw [← htokens, ← hps, ← hqs] at htrees
  rw [← htokens] at hparse
  have hstatic : staticFaults (p ++ Text.newline :: q) = [] :=
    List.append_eq_nil_iff.2 ⟨hscan, hparse⟩
  obtain ⟨ss, us, hprogram, hss, hus⟩ := List.map_eq_append_iff.1 htrees
  have hstays : Relabels (Moved m p q) Anyhow (· ∈ (Scan.ofText p).tokens)
      (fun _ : Mark => ()) id :=
    ⟨fun _ => rfl, fun t ht => .inl ⟨.inr ht, rfl⟩, fun _ => trivial⟩
  have hmoves : Relabels (Moved m p q) Anyhow (· ∈ (Scan.ofText q).tokens)
      (fun _ : Mark => ()) (Token.later (1 + p.newlines)) :=
    ⟨fun _ => rfl, fun t ht => .inr ⟨ht, rfl⟩, fun _ => trivial⟩
  have hfirst := Relabels.of_erase hstays (program_formed (fun _ hu => hu) hsp) hss
  have hsecond := Relabels.of_erase hmoves (program_formed (fun _ hu => hu) hsq) hus
  have hjoined := Resolved.ofProgram_joined (tokens_lexical p) (moved_spelled m p q)
    (program_formed (fun _ hu => hu) hsp) hfirst hsecond hrp hrq
  rw [← hprogram] at hjoined
  exact ⟨fun hfaulty => hfaulty.elim (fun h => h hstatic) fun h => h hjoined.1, hjoined.2⟩

/-- A session of two texts is one program. After a text that ends well, running a second text on
the same machine does what running both as one text does: it writes the same, defines the same
names and ends in the same way, a fault being told of further down if it is at a token of the second
text. -/
theorem run_joined (hN : ∀ n ∈ o.host.natives, n.Blind) (hecho : o.echo = false)
    (hd : o.defines = []) (hp : ¬ Faulty p) (hq : ¬ Faulty q) (m : Machine)
    (hdone : (run o p m).ending = .done) :
    (run o q (run o p m).machine).Alike (Moved m p q) (run o (p ++ Text.newline :: q) m) := by
  obtain ⟨hjoined, hprograms⟩ := compiled_joined m hp hq
  have hboth := run_tells hecho hd hjoined m
  have hself : m.Alike (Moved m p q) m := Machine.alike_self fun t ht => .inl ⟨.inl ht, rfl⟩
  have hends := Machine.statements_alike (moved_spelled m p q) hN o.steps hprograms m m hself
  rw [Machine.statements_append] at hends
  cases hout : Machine.statements o.host o.steps (compiled p) m with
  | ok u m₁ =>
    have hfirst := run_tells hecho hd hp m
    rw [hout] at hfirst
    cases hfirst with
    | ok hmachine =>
      have hsecond := run_tells hecho hd hq m₁
      have hbind : (Machine.statements o.host o.steps (compiled p) >>= fun _ =>
          Machine.statements o.host o.steps (compiled q)) m =
            Machine.statements o.host o.steps (compiled q) m₁ := by
        change EStateM.bind _ _ m = _
        unfold EStateM.bind
        rw [hout]
      rw [hbind] at hends
      rw [hmachine]
      exact hsecond.alike hboth hends
  | error stop m₁ =>
    have hfirst := run_tells hecho hd hp m
    rw [hout] at hfirst
    cases hfirst with
    | error _ hending => exact absurd (hending.symm.trans hdone) (Ending.ofStop_ne_done stop)

/-- A function of the first text is called from the second. -/
theorem run_joined_closure :
    (∀ n ∈ Native.standard, n.Blind) ∧
      ¬ Faulty "var a;\nfun f() \x7b return a; \x7d" ∧ ¬ Faulty "print f();" ∧
      (run ⟨⟨Native.standard, 0, .never⟩, false, [], fun _ => [], 20⟩
        "var a;\nfun f() \x7b return a; \x7d" (.new Native.standard)).ending = .done ∧
      (run ⟨⟨Native.standard, 0, .never⟩, false, [], fun _ => [], 20⟩ "print f();"
        (run ⟨⟨Native.standard, 0, .never⟩, false, [], fun _ => [], 20⟩
          "var a;\nfun f() \x7b return a; \x7d" (.new Native.standard)).machine).Alike
        (Moved (.new Native.standard) "var a;\nfun f() \x7b return a; \x7d" "print f();")
        (run ⟨⟨Native.standard, 0, .never⟩, false, [], fun _ => [], 20⟩
          ("var a;\nfun f() \x7b return a; \x7d" ++ Text.newline :: "print f();")
          (.new Native.standard)) :=
  have hp : ¬ Faulty "var a;\nfun f() \x7b return a; \x7d" := by decide +kernel
  have hq : ¬ Faulty "print f();" := by decide +kernel
  have hdone : (run ⟨⟨Native.standard, 0, .never⟩, false, [], fun _ => [], 20⟩
      "var a;\nfun f() \x7b return a; \x7d" (.new Native.standard)).ending = .done := by
    decide +kernel
  ⟨Native.standard_blind, hp, hq, hdone,
    run_joined Native.standard_blind rfl rfl hp hq _ hdone⟩

end Source

end LoxLang
