import LoxLang.Proofs.Parser.StatementComplete

namespace LoxLang

namespace Parser
set_option autoImplicit true
open Grammar

theorem program_parses (n : Nat) (p : Parser) (hc : p.Closed) (hn : 24 * p.left.length + 19 ≤ n) :
    Parses (program n) 0
      (fun ts ss p' => Declarations ts (ss.map Stmt.erase) ∧ p'.cursor.current.kind = .eof) p := by
  induction n generalizing p with
  | zero => exact absurd hn (by omega)
  | succ n ih =>
    rw [program]
    refine Parses.peek ?_
    split
    · rename_i he
      exact Parses.pure hc ⟨.nil, he⟩
    · rename_i he
      refine (declaration_parses n p hc he (by omega)).bind fun o p₁ ts hc₁ hl₁ => ?_
      cases o with
      | some s =>
        refine (ih p₁ hc₁ (by omega)).bind (k := 0) fun ss p₂ us hc₂ _ => ?_
        refine Parses.pure hc₂ fun hss hs => ?_
        obtain ⟨s', hs', hs⟩ := hs
        cases hs'
        rw [List.append_nil]
        exact ⟨.cons hs hss.1, hss.2⟩
      | none =>
        refine (ih p₁ hc₁ (by omega)).mono (by omega) ?_
        intro us ss p' _ hs
        obtain ⟨s, hs, -⟩ := hs
        cases hs

theorem left_start (body : List Token) (he : eof.kind = .eof) :
    left (start (body ++ [eof])) = body ++ [eof] := by
  rw [start_left, close, List.getLast?_concat]
  simp only [he, ↓reduceIte]

theorem before_eof {body : List Token} (h : body ++ [eof] = ts ++ t :: us) (ht : t.kind = .eof)
    (hbody : ∀ u ∈ body, u.kind ≠ .eof) : ts = body := by
  rcases List.append_eq_append_iff.1 h with ⟨vs, hts, hvs⟩ | ⟨vs, hts, hvs⟩
  · cases vs with
    | nil => rw [hts, List.append_nil]
    | cons v vs => exact absurd (congrArg List.length hvs) (by simp)
  · cases vs with
    | nil => rw [hts, List.append_nil]
    | cons v vs =>
      obtain ⟨rfl, -⟩ := List.cons.inj hvs
      exact absurd ht (hbody t (hts ▸ List.mem_append_right _ (List.mem_cons_self)))

end Parser

namespace Parsed
set_option autoImplicit true
open LoxLang.Parser Grammar

theorem derives {body : List Token} (he : eof.kind = .eof) (hbody : ∀ t ∈ body, t.kind ≠ .eof)
    (h : (ofTokens (body ++ [eof])).diagnostics = []) :
    Declarations body ((ofTokens (body ++ [eof])).statements.map Stmt.erase) := by
  have hl := left_start body he
  have hrun := program_parses (steps (body ++ [eof])) (start (body ++ [eof])) ⟨body, eof, hl, he⟩
    (by rw [hl, steps]; omega)
  unfold Parses at hrun
  unfold ofTokens EStateM.run at h ⊢
  split at hrun
  · rename_i ss p' hp
    simp only [hp] at h ⊢
    obtain ⟨-, ts, ds, hl', -, hd, hr⟩ := hrun
    have hds : ds = [] := by
      rw [h] at hd
      exact (List.append_eq_nil_iff.1 hd.symm).2
    obtain ⟨hdecl, hend⟩ := hr hds
    have hts : ts = body := before_eof (hl.symm.trans hl') hend hbody
    exact hts ▸ hdecl
  · rename_i hp
    simp only [hp] at h
    obtain ⟨-, ts, ds, -, hds, hd⟩ := hrun
    rw [h] at hd
    exact absurd (List.append_eq_nil_iff.1 hd.symm).2 hds
  · exact hrun.elim

theorem of_derives {body : List Token} (he : eof.kind = .eof) (h : Declarations body ss) :
    (ofTokens (body ++ [eof])).diagnostics = [] ∧
      (ofTokens (body ++ [eof])).statements.map Stmt.erase = ss := by
  have hl := left_start body he
  obtain ⟨a, p', hrun, ha, -, hd⟩ :=
    h.complete.2 (steps (body ++ [eof])) (start (body ++ [eof])) eof hl he (by rw [steps]; omega)
  unfold ofTokens EStateM.run
  rw [hrun]
  exact ⟨hd, ha⟩

/-- The parser reports nothing exactly for the tokens of a program of the grammar, and returns the
trees of that program, of which there is one. -/
theorem exact_grammar (body : List Token) (eof : Token) (he : eof.kind = .eof)
    (hbody : ∀ t ∈ body, t.kind ≠ .eof) :
    ((ofTokens (body ++ [eof])).diagnostics = [] ↔ ∃ ss, Declarations body ss) ∧
      ∀ ss, Declarations body ss → (ofTokens (body ++ [eof])).statements.map Stmt.erase = ss := by
  constructor
  · constructor
    · intro h
      exact ⟨_, derives he hbody h⟩
    · intro h
      obtain ⟨ss, hss⟩ := h
      exact (of_derives he hss).1
  · intro ss hss
    exact (of_derives he hss).2

/-- The statement `print 1;` is read from its three tokens. -/
theorem exact_grammar_print :
    (ofTokens ([⟨.print, "print", none, 1⟩, ⟨.number, "1", some (.number 1), 1⟩,
        ⟨.semicolon, ";", none, 1⟩] ++ [⟨.eof, [], none, 1⟩])).diagnostics = [] ∧
      (ofTokens ([⟨.print, "print", none, 1⟩, ⟨.number, "1", some (.number 1), 1⟩,
        ⟨.semicolon, ";", none, 1⟩] ++ [⟨.eof, [], none, 1⟩])).statements.map Stmt.erase =
        [.print (.literal (some (.number 1)))] := by
  have hexact := exact_grammar [⟨.print, "print", none, 1⟩, ⟨.number, "1", some (.number 1), 1⟩,
    ⟨.semicolon, ";", none, 1⟩] ⟨.eof, [], none, 1⟩ rfl (by decide)
  have hone : Derives .assignment [⟨.number, "1", some (.number 1), 1⟩]
      (.literal (some (.number 1))) :=
    .noAssignment (.noOr (.noAnd (.noEquality (.noComparison (.noTerm (.noFactor (.noUnary
      (.noCall (.constant (.inl rfl))))))))))
  have hprogram : Declarations [⟨.print, "print", none, 1⟩, ⟨.number, "1", some (.number 1), 1⟩,
      ⟨.semicolon, ";", none, 1⟩] [.print (.literal (some (.number 1)))] :=
    .cons (.statement (.print rfl hone rfl)) .nil
  exact ⟨hexact.1.2 ⟨_, hprogram⟩, hexact.2 _ hprogram⟩

end Parsed

end LoxLang
