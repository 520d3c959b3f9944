import LoxLang.Proofs.Parser.Moves
import LoxLang.Proofs.Parser.Exact

namespace LoxLang

namespace Parser
set_option autoImplicit true

theorem start_closed (tokens : List Token) : (start tokens).Closed := by
  obtain ⟨ts, t, he, ht, -⟩ := close_eq tokens
  exact ⟨ts, t, (start_left tokens).trans he, ht⟩

theorem start_length (tokens : List Token) :
    24 * (start tokens).left.length + 20 ≤ steps tokens := by
  obtain ⟨ts, t, he, -, hl⟩ := close_eq tokens
  rw [start_left, he, steps, List.length_append, List.length_singleton]
  omega

/-- The parser stands in these tokens, and there is no end of input before it. The token that it has
passed last is the one before, if there is one. -/
def Within (tokens : List Token) (p : Parser) : Prop :=
  ∃ before, tokens = before ++ p.left ∧ (∀ t ∈ before, t.kind ≠ .eof) ∧
    p.cursor.previous = before.getLast?.getD p.cursor.current

theorem start_within (tokens : List Token) : Within (close tokens) (start tokens) := by
  refine ⟨[], (start_left tokens).symm, List.forall_mem_nil _, ?_⟩
  obtain ⟨ts, t, he, -, -⟩ := close_eq tokens
  rw [start, he]
  cases ts <;> rfl

theorem Within.closed (h : Within (close tokens) p) : p.Closed := by
  obtain ⟨before, hl, -, -⟩ := h
  exact (start_closed tokens).of_append ((start_left tokens).trans hl)

theorem Within.move (h : Within (close tokens) p) (hm : Move p q) : Within (close tokens) q := by
  cases hm with
  | fault | refer => exact h
  | skip =>
    by_cases ht : p.cursor.current.kind = .eof
    · rwa [skip_eof ht]
    · have hl := h.closed.left_skip ht
      have hprevious := h.closed.skip_previous ht
      obtain ⟨before, hb, hbefore, -⟩ := h
      refine ⟨before ++ [p.cursor.current], ?_, fun t hmem => ?_, ?_⟩
      · rw [hb, hl, List.append_assoc]
        rfl
      · rcases List.mem_append.1 hmem with hmem | hmem
        · exact hbefore t hmem
        · exact List.mem_singleton.1 hmem ▸ ht
      · rw [List.getLast?_concat, Option.getD_some, hprevious]

theorem Within.moves (h : Within (close tokens) p) (hm : Moves p q) : Within (close tokens) q := by
  induction hm with
  | refl => exact h
  | tail _ hm ih => exact ih.move hm

theorem Within.left_eq (h : Within tokens p) (ht : p.cursor.current.kind = .eof) :
    p.left = tokens.dropWhile (·.kind ≠ .eof) := by
  obtain ⟨before, rfl, hbefore, -⟩ := h
  rw [List.dropWhile_append_of_pos fun t hmem => decide_eq_true (hbefore t hmem), left_eq_cons,
    List.dropWhile_cons_of_neg (by simp [ht])]

theorem Moves.suffix (h : Moves p q) (hp : p.Closed) :
    q.Closed ∧ ∃ ts, p.left = ts ++ q.left := by
  induction h with
  | refl => exact ⟨hp, [], rfl⟩
  | @tail q r _ hm ih =>
    obtain ⟨hc, ts, hl⟩ := ih
    cases hm with
    | fault | refer => exact ⟨hc, ts, hl⟩
    | skip =>
      refine ⟨hc.skip, ?_⟩
      by_cases ht : q.cursor.current.kind = .eof
      · exact ⟨ts, (skip_eof ht).symm ▸ hl⟩
      · exact ⟨ts ++ [q.cursor.current], by rw [hl, hc.left_skip ht, List.append_assoc]; rfl⟩

/-- A run that ends here has taken a token. -/
def Takes (p q : Parser) : Prop := ∃ t ts, p.left = t :: ts ++ q.left

theorem Takes.of_skip (hc : Closed p) (ht : p.cursor.current.kind ≠ .eof)
    (hm : Moves p.skip q) : Takes p q := by
  obtain ⟨-, ts, hl⟩ := hm.suffix hc.skip
  exact ⟨_, ts, by rw [hc.left_skip ht, hl, List.cons_append]⟩

theorem Takes.after (hm : Moves p p') (hp : p.Closed) (h : Takes p' q) : Takes p q := by
  obtain ⟨-, ts, hl⟩ := hm.suffix hp
  obtain ⟨t, us, hl'⟩ := h
  cases ts with
  | nil => exact ⟨t, us, hl.trans hl'⟩
  | cons u ts => exact ⟨u, ts ++ t :: us, by rw [hl, hl']; simp⟩

theorem accept_takes {Q : Option Token → Parse α} (hp : p.Closed)
    (hs : ∀ t p, Treads (Q (some t)) p) (hn : Q none p = .ok a q → Takes p q)
    (hr : (accept kinds >>= Q) p = .ok a q) : Takes p q := by
  by_cases hk : p.cursor.current.kind ≠ .eof ∧ p.cursor.current.kind ∈ kinds
  · have ha : accept kinds p = .ok (some p.cursor.current) p.skip := by
      rw [accept_run, if_pos hk]
    rw [bind_ok ha] at hr
    exact .of_skip hp hk.1 ((hs _ _).returns hr)
  · have ha : accept kinds p = .ok none p := by rw [accept_run, if_neg hk]
    rw [bind_ok ha] at hr
    exact hn hr

theorem expressionStatement_takes (hp : p.Closed) (hr : expressionStatement n p = .ok s q) :
    Takes p q := by
  rw [expressionStatement] at hr
  obtain ⟨e, p₁, he, hr⟩ := ok_of_bind hr
  obtain ⟨semi, p₂, hs, hr⟩ := ok_of_bind hr
  obtain ⟨ht, -, rfl⟩ := expect_took hs
  cases hr
  have hm := (assignment_treads n p).returns he
  exact .after hm hp (.of_skip (hm.suffix hp).1 ht .refl)

/-- A declaration that is parsed takes a token: its word, or else its semicolon at least. -/
theorem declare_takes (hp : p.Closed) (hr : declare n p = .ok s q) : Takes p q := by
  cases n with
  | zero => cases hr
  | succ n =>
    rw [declare] at hr
    refine accept_takes hp (fun t p => ?_) (fun hr => ?_) hr
    · exact .ite (classDeclaration_treads n p)
        (.ite ((routine_treads n _ p).map _) (varDeclaration_treads n p))
    · cases n with
      | zero => cases hr
      | succ n =>
        rw [statement] at hr
        refine accept_takes hp (fun t p => ?_) (expressionStatement_takes hp) hr
        dsimp only
        split
        · exact forStatement_treads n p
        · exact ifStatement_treads n p
        · exact printStatement_treads n p
        · exact returnStatement_treads n t p
        · exact whileStatement_treads n p
        · exact (block_treads n p).map _

theorem declaration_run (n : Nat) (p : Parser) :
    declaration (n + 1) p =
      match declare n p with
      | .ok s q => .ok (some s) q
      | .error (.rejected _) q => .ok none q.resume
      | .error .exhausted q => .error .exhausted q := by
  rw [declaration, tryCatch_run, map_run]
  cases declare n p with
  | ok s q => rfl
  | error e q => cases e <;> rfl

theorem Takes.of_resume (hm : Moves p q) (hp : p.Closed) (ht : p.cursor.current.kind ≠ .eof) :
    Takes p q.resume := by
  obtain ⟨hq, ts, hl⟩ := hm.suffix hp
  obtain ⟨-, us, hl', hus⟩ := hq.resume
  cases ts with
  | cons t ts => exact ⟨t, ts ++ us, by rw [hl, hl']; simp⟩
  | nil =>
    have hcur : p.cursor.current = q.cursor.current := current_eq hl
    obtain ⟨u, us, rfl⟩ := List.exists_cons_of_length_pos (hus (hcur ▸ ht))
    exact ⟨u, us, hl.trans hl'⟩

theorem declaration_ok (hp : p.Closed) (ht : p.cursor.current.kind ≠ .eof)
    (hr : declaration n p = .ok o q) :
    Takes p q ∧ (o = none → ∃ ds e, q.diagnostics =
      p.diagnostics ++ ds ++ [SyntaxError.diagnostic e]) := by
  cases n with
  | zero => cases hr
  | succ n =>
    rw [declaration_run] at hr
    split at hr
    · rename_i hd
      cases hr
      exact ⟨declare_takes hp hd, nofun⟩
    · rename_i e p' hd
      cases hr
      obtain ⟨q, hm, -, rfl⟩ := (declare_treads n p).rejects hd
      obtain ⟨ds, hds, -⟩ := hm.diagnostics
      exact ⟨.of_resume (hm.tail .fault) hp ht, fun _ => ⟨ds, e, congrArg (· ++ _) hds⟩⟩
    · cases hr

/-- Declarations that are parsed one after the other, each returned or rejected. -/
inductive Series : Parser → List (Except SyntaxError (Stmt Mark)) → Parser → Prop where
  | nil : Series p [] p
  | kept : declare n p = .ok s p' → Series p' xs q → Series p (.ok s :: xs) q
  | omitted : declare n p = .error (.rejected e) p' → Series p'.resume xs q →
      Series p (.error e :: xs) q

/-- The declarations that are returned. -/
def trees (xs : List (Except SyntaxError (Stmt Mark))) : List (Stmt Mark) :=
  xs.filterMap Except.toOption

def errors (xs : List (Except SyntaxError (Stmt Mark))) : List SyntaxError :=
  xs.filterMap fun
    | .ok _ => none
    | .error e => some e

theorem Series.reported (h : Series p xs q) :
    ∃ ds, q.diagnostics = p.diagnostics ++ ds ∧
      ((errors xs).map SyntaxError.diagnostic).Sublist ds := by
  induction h with
  | nil => exact ⟨[], (List.append_nil _).symm, .slnil⟩
  | @kept n p s p' xs q hr _ ih =>
    obtain ⟨ds, hd, hs⟩ := ih
    obtain ⟨es, he, -⟩ := ((declare_treads n p).returns hr).diagnostics
    exact ⟨es ++ ds, by rw [hd, he, List.append_assoc], hs.trans (List.sublist_append_right _ _)⟩
  | @omitted n p e p' xs q hr _ ih =>
    obtain ⟨ds, hd, hs⟩ := ih
    obtain ⟨q', hm, -, rfl⟩ := (declare_treads n p).rejects hr
    obtain ⟨es, he, -⟩ := hm.diagnostics
    refine ⟨es ++ e.diagnostic :: ds, ?_, ?_⟩
    · rw [hd]
      change (q'.diagnostics ++ [e.diagnostic]) ++ ds = _
      rw [he]
      simp
    · exact (hs.cons_cons e.diagnostic).trans (List.sublist_append_right _ _)

theorem Series.step (hr : declaration n p = .ok o p') (h : Series p' xs q) :
    ∃ ys, Series p ys q ∧ trees ys = o.toList ++ trees xs := by
  cases n with
  | zero => cases hr
  | succ n =>
    rw [declaration_run] at hr
    split at hr
    · rename_i hd
      cases hr
      exact ⟨_, .kept hd h, rfl⟩
    · rename_i hd
      cases hr
      exact ⟨_, .omitted hd h, rfl⟩
    · cases hr

theorem block_series (hr : block n p = .ok ss q) :
    ∃ xs p', Series p xs p' ∧ ss = trees xs ∧ p'.cursor.current.kind = .rightBrace ∧
      q = p'.skip := by
  induction n generalizing p ss with
  | zero => cases hr
  | succ n ih =>
    rw [block, bind_ok (peek_run p)] at hr
    split at hr
    · obtain ⟨brace, p', hb, hr⟩ := ok_of_bind hr
      obtain ⟨-, hk, rfl⟩ := expect_took hb
      cases hr
      exact ⟨[], p, .nil, rfl, hk, rfl⟩
    · obtain ⟨o, p', hd, hr⟩ := ok_of_bind hr
      cases o with
      | none =>
        obtain ⟨xs, r, hx, rfl, hend⟩ := ih hr
        obtain ⟨ys, hy, he⟩ := hx.step hd
        exact ⟨ys, r, hy, he.symm, hend⟩
      | some s =>
        obtain ⟨ts, p'', hb, hr⟩ := ok_of_bind hr
        cases hr
        obtain ⟨xs, r, hx, rfl, hend⟩ := ih hb
        obtain ⟨ys, hy, he⟩ := hx.step hd
        exact ⟨ys, r, hy, he.symm, hend⟩

theorem program_series (hr : program n p = .ok ss q) :
    ∃ xs, Series p xs q ∧ ss = trees xs ∧ q.cursor.current.kind = .eof := by
  induction n generalizing p ss with
  | zero => cases hr
  | succ n ih =>
    rw [program, bind_ok (peek_run p)] at hr
    split at hr
    · rename_i ht
      cases hr
      exact ⟨[], .nil, rfl, ht⟩
    · obtain ⟨o, p', hd, hr⟩ := ok_of_bind hr
      cases o with
      | none =>
        obtain ⟨xs, hx, rfl, hend⟩ := ih hr
        obtain ⟨ys, hy, he⟩ := hx.step hd
        exact ⟨ys, hy, he.symm, hend⟩
      | some s =>
        obtain ⟨ts, p'', hb, hr⟩ := ok_of_bind hr
        cases hr
        obtain ⟨xs, hx, rfl, hend⟩ := ih hb
        obtain ⟨ys, hy, he⟩ := hx.step hd
        exact ⟨ys, hy, he.symm, hend⟩

theorem declaration_error (hr : declaration n p = .error e q) : e = .exhausted := by
  cases n with
  | zero =>
    cases hr
    rfl
  | succ n =>
    rw [declaration_run] at hr
    split at hr
    · cases hr
    · cases hr
    · cases hr
      rfl

theorem program_error (hr : program n p = .error e q) : e = .exhausted := by
  induction n generalizing p with
  | zero =>
    cases hr
    rfl
  | succ n ih =>
    rw [program, bind_ok (peek_run p)] at hr
    split at hr
    · cases hr
    · rcases error_of_bind hr with hd | ⟨o, p', -, hr⟩
      · exact declaration_error hd
      · cases o with
        | none => exact ih hr
        | some s =>
          rcases error_of_bind hr with hb | ⟨ss, p'', -, hr⟩
          · exact ih hb
          · cases hr

theorem declaration_ends (hp : p.Closed) (ht : p.cursor.current.kind ≠ .eof)
    (hn : 24 * p.left.length + 18 ≤ n) : ∃ o q, declaration n p = .ok o q := by
  have h := declaration_parses n p hp ht hn
  unfold Parses at h
  split at h
  · rename_i o q hr
    exact ⟨o, q, hr⟩
  · rename_i hr
    cases declaration_error hr
  · exact h.elim

theorem program_ends (tokens : List Token) :
    ∃ ss p, program (steps tokens) (start tokens) = .ok ss p := by
  have h := program_parses (steps tokens) (start tokens) (start_closed tokens)
    (by have := start_length tokens; omega)
  unfold Parses at h
  split at h
  · rename_i ss p hr
    exact ⟨ss, p, hr⟩
  · rename_i hr
    cases program_error hr
  · exact h.elim

theorem assignment_ends (tokens : List Token) (p : Parser) :
    assignment (steps tokens) (start tokens) ≠ .error .exhausted p := by
  intro hr
  have h := assignment_parses (steps tokens) (start tokens) (start_closed tokens)
    (by have := start_length tokens; omega)
  unfold Parses at h
  rwa [hr] at h

end Parser

open LoxLang.Parser

theorem Expr.ofTokens_error {tokens : List Token} {e : SyntaxError}
    (he : (ofTokens tokens).1 = .error e) :
    ∃ ds, (ofTokens tokens).2 = ds ++ [e.diagnostic] := by
  have htreads : Treads (do
      let e ← assignment (steps tokens)
      let t ← peek
      if t.kind = .eof then return e else reject t "Expect end of expression.") (start tokens) :=
    (assignment_treads _ _).bind fun e q => .peek (.ite (.pure e q) (.reject _ q))
  unfold ofTokens EStateM.run at he ⊢
  dsimp only at he ⊢
  split at he
  · cases he
  · rename_i hr
    cases he
    obtain ⟨q, -, -, rfl⟩ := htreads.rejects hr
    exact ⟨q.diagnostics, rfl⟩
  · rename_i q hr
    rcases error_of_bind hr with ha | ⟨e, p, -, hr⟩
    · exact absurd ha (assignment_ends tokens q)
    · rw [bind_ok (peek_run p)] at hr
      split at hr
      · cases hr
      · cases hr

/-- Whatever the tokens are, parsing them comes to an end at the first end of input. Between the start
and the end a parser stays in its tokens, each call of `declaration` before the end of input returns
and takes a token, and a call that returns nothing has reported an error. A program and a block hold
the declarations that were parsed in them but for those that were reported. An expression is parsed
to an end as well, and an error is reported before it is returned. -/
theorem Parsed.ofTokens_any (tokens : List Token) :
    (∃ xs p, program (steps tokens) (start tokens) = .ok (ofTokens tokens).statements p ∧
      (ofTokens tokens).diagnostics = p.diagnostics ∧ Moves (start tokens) p ∧
      p.left = (close tokens).dropWhile (·.kind ≠ .eof) ∧
      Series (start tokens) xs p ∧ (ofTokens tokens).statements = trees xs ∧
      ((errors xs).map SyntaxError.diagnostic).Sublist (ofTokens tokens).diagnostics) ∧
    (∀ p, Moves (start tokens) p → Within (close tokens) p ∧
      (p.cursor.current.kind ≠ .eof → ∀ n,
        (24 * p.left.length + 18 ≤ n → ∃ o q, declaration n p = .ok o q) ∧
        ∀ o q, declaration n p = .ok o q → Takes p q ∧ (o = none →
          ∃ ds e, q.diagnostics = p.diagnostics ++ ds ++ [SyntaxError.diagnostic e])) ∧
      ∀ n ss q, block n p = .ok ss q → ∃ xs p' ds, Series p xs p' ∧ ss = trees xs ∧
        q = p'.skip ∧ q.diagnostics = p.diagnostics ++ ds ∧
        ((errors xs).map SyntaxError.diagnostic).Sublist ds) ∧
    Treads (assignment (steps tokens)) (start tokens) ∧
    (∀ p, assignment (steps tokens) (start tokens) ≠ .error .exhausted p) ∧
    ∀ e, (Expr.ofTokens tokens).1 = .error e →
      ∃ ds, (Expr.ofTokens tokens).2 = ds ++ [e.diagnostic] := by
  refine ⟨?_, fun p hm => ⟨(start_within tokens).moves hm, fun ht n => ⟨?_, ?_⟩, ?_⟩,
    assignment_treads _ _, assignment_ends tokens, fun e => Expr.ofTokens_error⟩
  · obtain ⟨ss, p, hr⟩ := program_ends tokens
    have hp : ofTokens tokens = ⟨ss, p.diagnostics⟩ := by
      unfold ofTokens EStateM.run
      rw [hr]
    obtain ⟨xs, hx, hss, ht⟩ := program_series hr
    have hm := (program_treads _ _).returns hr
    obtain ⟨ds, hd, hs⟩ := hx.reported
    have hds : p.diagnostics = ds := hd
    rw [hp]
    exact ⟨xs, p, hr, rfl, hm, ((start_within tokens).moves hm).left_eq ht, hx, hss, hds ▸ hs⟩
  · exact declaration_ends ((start_within tokens).moves hm).closed ht
  · exact fun o q hr => declaration_ok ((start_within tokens).moves hm).closed ht hr
  · intro n ss q hr
    obtain ⟨xs, p', hx, hss, -, rfl⟩ := block_series hr
    obtain ⟨ds, hd, hs⟩ := hx.reported
    exact ⟨xs, p', ds, hx, hss, rfl, hd, hs⟩

end LoxLang
