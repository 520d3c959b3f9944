import LoxLang.Proofs.Parser.ExpressionSound

namespace LoxLang

namespace Parser
set_option autoImplicit true
open Grammar

theorem Closed.of_append (h : Closed p) (hl : p.left = ts ++ left p') : p'.Closed := by
  obtain ⟨us, t, he, hk⟩ := h
  have hlast : p'.left.getLast? = some t := by
    have hg := congrArg List.getLast? (hl.symm.trans he)
    rw [List.getLast?_append, List.getLast?_concat] at hg
    rw [left_eq_cons, List.getLast?_cons] at hg ⊢
    exact hg
  obtain ⟨vs, hv⟩ := List.getLast?_eq_some_iff.1 hlast
  exact ⟨vs, t, hv, hk⟩

theorem boundary_suffix (previous current : Token) (rest : List Token) :
    ∃ ts, current :: rest =
      ts ++ (Cursor.boundary previous current rest).current ::
        (Cursor.boundary previous current rest).rest := by
  induction rest generalizing previous current with
  | nil => exact ⟨[], rfl⟩
  | cons t rest ih =>
    rw [Cursor.boundary]
    split
    · exact ⟨[], rfl⟩
    · obtain ⟨ts, he⟩ := ih current t
      exact ⟨current :: ts, by rw [List.cons_append, ← he]⟩

theorem Closed.resume (h : Closed p) :
    p.resume.Closed ∧ ∃ ts, p.left = ts ++ p.resume.left ∧
      (p.cursor.current.kind ≠ .eof → 1 ≤ ts.length) := by
  obtain ⟨ts, hts⟩ := boundary_suffix p.skip.cursor.previous p.skip.cursor.current
    p.skip.cursor.rest
  have hr : p.skip.left = ts ++ p.resume.left := hts
  by_cases ht : p.cursor.current.kind = .eof
  · rw [skip_eof ht] at hr
    exact ⟨h.of_append hr, ts, hr, fun hne => absurd ht hne⟩
  · have hl : p.left = (p.cursor.current :: ts) ++ p.resume.left := by
      rw [h.left_skip ht, hr, List.cons_append]
    exact ⟨h.of_append hl, _, hl, fun _ => Nat.succ_pos _⟩

theorem erase_forLoop (init : Option (Stmt Mark)) (condition increment : Option (Expr Mark))
    (body : Stmt Mark) :
    (forLoop init condition increment body).erase =
      Grammar.loop (init.map Stmt.erase) (condition.map Expr.erase) (increment.map Expr.erase)
        body.erase := by
  cases init <;> cases condition <;> cases increment <;> rfl

theorem optional_parses (n : Nat) (stop : Token.Kind) (p : Parser) (hc : p.Closed)
    (hn : 24 * p.left.length + 15 ≤ n) :
    Parses (optional n stop) 0 (fun ts o _ => Optional ts (o.map Expr.erase)) p := by
  rw [optional]
  refine Parses.sees (fun _ _ => Parses.pure hc .none) ?_
  refine (assignment_parses n p hc hn).bind fun e p₁ ts hc₁ _ => ?_
  refine Parses.pure hc₁ fun he => ?_
  rw [List.append_nil]
  exact .some he

theorem expressionStatement_parses (n : Nat) (p : Parser) (hc : p.Closed)
    (hn : 24 * p.left.length + 15 ≤ n) :
    Parses (expressionStatement n) 1 (fun ts s _ => Effect ts s.erase) p := by
  rw [expressionStatement]
  refine (assignment_parses n p hc hn).bind fun e p₁ ts hc₁ _ => ?_
  refine Parses.expect hc₁ fun semi hs hc₂ _ => ?_
  exact Parses.pure hc₂ fun he => .mk he hs

theorem varDeclaration_parses (n : Nat) (p : Parser) (hc : p.Closed)
    (hn : 24 * p.left.length + 15 ≤ n) :
    Parses (varDeclaration n) 1 (fun ts s _ => Variable ts s.erase) p := by
  rw [varDeclaration]
  refine Parses.expect hc fun x hx hc₁ hl₁ => ?_
  refine Parses.accept hc₁ (fun equals _ hk hc₂ hl₂ => ?_) fun _ => ?_
  · dsimp only
    rw [bind_map_left]
    refine (assignment_parses n _ hc₂ (by omega)).bind fun e p₃ ts hc₃ _ => ?_
    refine Parses.expect hc₃ fun semi hs hc₄ _ => ?_
    exact Parses.pure hc₄ fun he => .initialized hx (List.mem_singleton.1 hk) he hs
  · refine Parses.expect hc₁ fun semi hs hc₂ _ => ?_
    exact Parses.pure hc₂ (.plain hx hs)

theorem printStatement_parses (n : Nat) (p : Parser) (hc : p.Closed)
    (hn : 24 * p.left.length + 15 ≤ n) :
    Parses (printStatement n) 1
      (fun ts s _ => ∀ word, word.kind = .print → Statement false (word :: ts) s.erase) p := by
  rw [printStatement]
  refine (assignment_parses n p hc hn).bind fun e p₁ ts hc₁ _ => ?_
  refine Parses.expect hc₁ fun semi hs hc₂ _ => ?_
  exact Parses.pure hc₂ fun he word hw => .print hw he hs

theorem returnStatement_parses (n : Nat) (keyword : Token) (hk : keyword.kind = .return_)
    (p : Parser) (hc : p.Closed) (hn : 24 * p.left.length + 15 ≤ n) :
    Parses (returnStatement n keyword) 1
      (fun ts s _ => Statement false (keyword :: ts) s.erase) p := by
  rw [returnStatement]
  refine (optional_parses n .semicolon p hc hn).bind fun value p₁ ts hc₁ _ => ?_
  refine Parses.expect hc₁ fun semi hs hc₂ _ => ?_
  exact Parses.pure hc₂ fun hv => .ret hk hv hs

theorem parameters_parses (n count : Nat) (p : Parser) (hc : p.Closed)
    (hn : 24 * p.left.length + 1 ≤ n) :
    Parses (parameters n count) 1
      (fun ts xs _ => Names ts xs ∧ count + xs.length ≤ limit) p := by
  induction n generalizing count p with
  | zero => omega
  | succ n ih =>
    have hrest (Q : Token → Option Token → Parse (List Token))
        (hsome : ∀ x comma, Q x (some comma) =
          parameters n (count + 1) >>= fun params => Pure.pure (x :: params))
        (hnone : ∀ x, Q x none = Pure.pure [x]) (p₁ : Parser) (hc₁ : p₁.Closed)
        (hl₁ : p₁.left = p.left) :
        Parses (Parser.expect .identifier "Expect parameter name." >>= fun x =>
            accept [.comma] >>= Q x) 1
          (fun ts xs _ => count < limit → Names ts xs ∧ count + xs.length ≤ limit) p₁ := by
      refine Parses.expect hc₁ fun param hx hc₂ hl₂ => ?_
      rw [hl₁] at hl₂
      refine Parses.accept hc₂ (fun comma _ hk hc₃ hl₃ => ?_) fun _ => ?_
      · rw [hsome]
        refine (ih (count + 1) _ hc₃ (by omega)).bind (k := 0) fun params p₄ us hc₄ _ => ?_
        refine Parses.pure hc₄ fun ha hlt => ?_
        rw [List.append_nil]
        refine ⟨.more hx (List.mem_singleton.1 hk) ha.1, ?_⟩
        rw [List.length_cons]
        omega
      · rw [hnone]
        exact Parses.pure hc₂ fun hlt => ⟨.one hx, hlt⟩
    rw [parameters]
    split
    · exact Parses.peek (Parses.report hc (hrest _ (fun _ _ => rfl) fun _ => rfl))
    · rename_i hcount
      exact (hrest _ (fun _ _ => rfl) (fun _ => rfl) p hc rfl).mono (Nat.le_refl _)
        fun ts es _ h => h (Nat.lt_of_not_le hcount)

/-- A statement that ends in an `if` without an `else` does not stand before an `else`. -/
def Settled (hanging : Bool) (p : Parser) : Prop :=
  hanging = true → p.cursor.current.kind ≠ .else_

mutual
theorem declaration_parses (n : Nat) (p : Parser) (hc : p.Closed)
    (he : p.cursor.current.kind ≠ .eof) (hn : 24 * p.left.length + 18 ≤ n) :
    Parses (declaration n) 1
      (fun ts o _ => ∃ s, o = some s ∧ Declaration ts (Stmt.erase s)) p := by
  match n with
  | n + 1 =>
    have h := declare_parses n p hc (by omega)
    rw [declaration]
    unfold Parses at h ⊢
    rw [tryCatch_run, map_run]
    split at h
    · rename_i s p' hs
      simp only [hs]
      obtain ⟨hc', ts, ds, hl, hk, hd, hr⟩ := h
      exact ⟨hc', ts, ds, hl, hk, hd, fun e => ⟨s, rfl, hr e⟩⟩
    · rename_i error p' hs
      simp only [hs]
      obtain ⟨hc', ts, ds, hl, hd, hr⟩ := h
      obtain ⟨hc'', us, hl', hus⟩ := hc'.resume
      have hlr : p.left = (ts ++ us) ++ p'.resume.left := by rw [hl, hl', List.append_assoc]
      refine ⟨hc'', ts ++ us, ds, hlr, ?_, hr, fun e => absurd e hd⟩
      -- either the fault was found past the first token, or the first token is given up
      cases ts with
      | nil =>
        have hcur : p.cursor.current = p'.cursor.current := current_eq hl
        exact hus (hcur ▸ he)
      | cons t ts => exact Nat.succ_pos _
    · exact h.elim

theorem declare_parses (n : Nat) (p : Parser) (hc : p.Closed)
    (hn : 24 * p.left.length + 17 ≤ n) :
    Parses (declare n) 1 (fun ts s _ => Declaration ts s.erase) p := by
  match n with
  | n + 1 =>
    rw [declare]
    refine Parses.accept hc (fun t _ hk hc₁ hl₁ => ?_) fun _ => ?_
    · dsimp only
      split
      · rename_i ht
        exact (classDeclaration_parses n _ hc₁ (by omega)).mono (by omega)
          fun ts s _ h => h t ht
      · split
        · rename_i ht
          refine Parses.map ((routine_parses n .function _ hc₁ (by omega)).mono (by omega) ?_)
          exact fun ts f _ h => .fun_ ht h
        · rename_i hclass hfun
          have ht : t.kind = .var := by simpa [hclass, hfun] using hk
          exact (varDeclaration_parses n _ hc₁ (by omega)).mono (by omega) fun ts s _ h => .var ht h
    · exact (statement_parses n p hc (by omega)).mono (by omega)
        fun ts s _ ⟨hanging, h, _⟩ => .statement h

theorem classDeclaration_parses (n : Nat) (p : Parser) (hc : p.Closed)
    (hn : 24 * p.left.length + 1 ≤ n) :
    Parses (classDeclaration n) 1
      (fun ts s _ => ∀ word, word.kind = .class_ → Declaration (word :: ts) s.erase) p := by
  match n with
  | n + 1 =>
    have hrest (x : Token) (sup : Option (Reference Mark)) (ts : List Token) (p₁ : Parser)
        (hc₁ : p₁.Closed) (hl₁ : p₁.left.length < p.left.length) (hx : x.kind = .identifier) :
        Parses (Parser.expect .leftBrace "Expect '\x7b' before class body." >>= fun _ =>
            methods n >>= fun fs => Pure.pure (Stmt.classDecl x sup fs)) 0
          (fun us s _ => Parent ts (sup.map (Reference.map (fun _ => ()) id)) →
            ∀ word, word.kind = .class_ → Declaration (word :: x :: (ts ++ us)) s.erase) p₁ := by
      refine Parses.expect hc₁ fun lb hlb hc₂ hl₂ => ?_
      refine (methods_parses n _ hc₂ (by omega)).bind (k := 0) fun fs p₃ us hc₃ _ => ?_
      refine Parses.pure hc₃ fun ⟨vs, rb, hus, hr, hm⟩ hsup word hw => ?_
      rw [List.append_nil, hus, Stmt.erase_classDecl]
      exact .class_ hw hx hsup hlb hm hr
    rw [classDeclaration]
    refine Parses.expect hc fun x hx hc₁ hl₁ => ?_
    refine Parses.accept hc₁ (fun less _ hk hc₂ hl₂ => ?_) fun _ => ?_
    · refine Parses.expect hc₂ fun parent hparent hc₃ hl₃ => ?_
      rw [bind_map_left]
      refine Parses.refer hc₃ fun mark p₄ hc₄ hl₄ => ?_
      refine (hrest x (some ⟨parent, mark⟩) [less, parent] p₄ hc₄ (by rw [hl₄]; omega) hx).mono
        (Nat.le_refl _) fun us s _ h => ?_
      exact h (.some (List.mem_singleton.1 hk) hparent)
    · exact (hrest x none [] _ hc₁ hl₁ hx).mono (Nat.le_refl _) fun us s _ h => h .none

theorem methods_parses (n : Nat) (p : Parser) (hc : p.Closed) (hn : 24 * p.left.length + 2 ≤ n) :
    Parses (methods n) 1
      (fun ts fs _ => ∃ us rb, ts = us ++ [rb] ∧ rb.kind = .rightBrace ∧
        Methods us (fs.map Routine.erase)) p := by
  match n with
  | n + 1 =>
    rw [methods]
    refine Parses.peek ?_
    split
    · refine Parses.expect hc fun rb hr hc₁ _ => ?_
      exact Parses.pure hc₁ ⟨[], rb, rfl, hr, .none⟩
    · refine (routine_parses n .method p hc (by omega)).bind fun f p₁ ts hc₁ hl₁ => ?_
      refine (methods_parses n p₁ hc₁ (by omega)).bind (k := 0) fun fs p₂ us hc₂ _ => ?_
      refine Parses.pure hc₂ fun ⟨vs, rb, hus, hr, hm⟩ hf => ?_
      refine ⟨ts ++ vs, rb, ?_, hr, .more hf hm⟩
      rw [hus, List.append_nil, List.append_assoc]

theorem routine_parses (n : Nat) (role : Role) (p : Parser) (hc : p.Closed)
    (hn : 24 * p.left.length + 1 ≤ n) :
    Parses (routine n role) 1 (fun ts f _ => Callable ts f.erase) p := by
  match n with
  | n + 1 =>
    have hrest (x lpar : Token) (params ts : List Token) (p₁ : Parser) (hc₁ : p₁.Closed)
        (hl₁ : p₁.left.length < p.left.length) (hx : x.kind = .identifier)
        (hlp : lpar.kind = .leftParen) :
        Parses (Parser.expect .rightParen "Expect ')' after parameters." >>= fun _ =>
            Parser.expect .leftBrace ("Expect '\x7b' before " ++ role.word ++ " body.") >>= fun _ =>
            block n >>= fun body => Pure.pure (Routine.mk x params body)) 0
          (fun us f _ => Parameters ts params ∧ params.length ≤ limit →
            Callable (x :: lpar :: (ts ++ us)) f.erase) p₁ := by
      refine Parses.expect hc₁ fun rpar hrp hc₂ hl₂ => ?_
      refine Parses.expect hc₂ fun lb hlb hc₃ hl₃ => ?_
      refine (block_parses n _ hc₃ (by omega)).bind (k := 0) fun body p₄ us hc₄ _ => ?_
      refine Parses.pure hc₄ fun ⟨vs, rb, hus, hr, hd⟩ hps => ?_
      rw [List.append_nil, hus, Routine.erase_mk]
      exact .mk hx hlp hps.1 hps.2 hrp hlb hd hr
    rw [routine]
    refine Parses.expect hc fun x hx hc₁ hl₁ => ?_
    refine Parses.expect hc₁ fun lpar hlp hc₂ hl₂ => ?_
    refine Parses.sees (fun _ _ => ?_) ?_
    · exact (hrest x lpar [] [] _ hc₂ (by omega) hx hlp).mono (Nat.le_refl _)
        fun us f _ h => h ⟨.none, Nat.zero_le _⟩
    · refine (parameters_parses n 0 _ hc₂ (by omega)).bind fun params p₃ ts hc₃ hl₃ => ?_
      refine (hrest x lpar params ts p₃ hc₃ (by omega) hx hlp).mono (Nat.le_refl _)
        fun us f _ h hps => ?_
      exact h ⟨.some hps.1, by simpa using hps.2⟩

theorem block_parses (n : Nat) (p : Parser) (hc : p.Closed) (hn : 24 * p.left.length + 19 ≤ n) :
    Parses (block n) 1
      (fun ts ss _ => ∃ us rb, ts = us ++ [rb] ∧ rb.kind = .rightBrace ∧
        Declarations us (ss.map Stmt.erase)) p := by
  match n with
  | n + 1 =>
    rw [block]
    refine Parses.peek ?_
    split
    · refine Parses.expect hc fun rb hr hc₁ _ => ?_
      exact Parses.pure hc₁ ⟨[], rb, rfl, hr, .nil⟩
    · rename_i ht
      refine (declaration_parses n p hc (fun he => ht (.inr he)) (by omega)).bind
        fun o p₁ ts hc₁ hl₁ => ?_
      cases o with
      | some s =>
        refine (block_parses n p₁ hc₁ (by omega)).bind (k := 0) fun ss p₂ us hc₂ _ => ?_
        refine Parses.pure hc₂ fun ⟨vs, rb, hus, hr, hd⟩ hs => ?_
        obtain ⟨s', hs', hs⟩ := hs
        cases hs'
        refine ⟨ts ++ vs, rb, ?_, hr, .cons hs hd⟩
        rw [hus, List.append_nil, List.append_assoc]
      | none =>
        exact (block_parses n p₁ hc₁ (by omega)).mono (by omega)
          fun us ss _ _ ⟨s, hs, _⟩ => nomatch hs

theorem statement_parses (n : Nat) (p : Parser) (hc : p.Closed)
    (hn : 24 * p.left.length + 16 ≤ n) :
    Parses (statement n) 1
      (fun ts s p' => ∃ hanging, Statement hanging ts s.erase ∧ Settled hanging p') p := by
  match n with
  | n + 1 =>
    rw [statement]
    refine Parses.accept hc (fun t _ hk hc₁ hl₁ => ?_) fun _ => ?_
    · dsimp only
      split
      · rename_i ht
        exact (forStatement_parses n _ hc₁ (by omega)).mono (by omega) fun ts s _ h => h t ht
      · rename_i ht
        exact (ifStatement_parses n _ hc₁ (by omega)).mono (by omega) fun ts s _ h => h t ht
      · rename_i ht
        exact (printStatement_parses n _ hc₁ (by omega)).mono (by omega)
          fun ts s _ h => ⟨false, h t ht, nofun⟩
      · rename_i ht
        exact (returnStatement_parses n t ht _ hc₁ (by omega)).mono (by omega)
          fun ts s _ h => ⟨false, h, nofun⟩
      · rename_i ht
        exact (whileStatement_parses n _ hc₁ (by omega)).mono (by omega) fun ts s _ h => h t ht
      · rename_i h₁ h₂ h₃ h₄ h₅
        have ht : t.kind = .leftBrace := by
          simp only [List.mem_cons, List.not_mem_nil, or_false] at hk
          rcases hk with hk | hk | hk | hk | hk | hk
          · exact (h₁ hk).elim
          · exact (h₂ hk).elim
          · exact (h₃ hk).elim
          · exact (h₄ hk).elim
          · exact (h₅ hk).elim
          · exact hk
        refine (Parses.map (f := Stmt.block) (R := fun ts s _ => Statement false (t :: ts) s.erase)
          ((block_parses n _ hc₁ (by omega)).mono (Nat.le_refl _) ?_)).mono (by omega)
          fun ts s _ h => ⟨false, h, nofun⟩
        intro ts body _ ⟨us, rb, hus, hr, hd⟩
        rw [Stmt.erase_block, hus]
        exact .block ht hd hr
    · exact (expressionStatement_parses n p hc (by omega)).mono (Nat.le_refl _)
        fun ts s _ h => ⟨false, .effect h, nofun⟩

theorem forStatement_parses (n : Nat) (p : Parser) (hc : p.Closed)
    (hn : 24 * p.left.length + 1 ≤ n) :
    Parses (forStatement n) 1
      (fun ts s p' => ∀ word, word.kind = .for_ →
        ∃ hanging, Statement hanging (word :: ts) s.erase ∧ Settled hanging p') p := by
  match n with
  | n + 1 =>
    have hrest (lpar : Token) (init : Option (Stmt Mark)) (is : List Token) (p₁ : Parser)
        (hc₁ : p₁.Closed) (hl₁ : p₁.left.length < p.left.length) (hlp : lpar.kind = .leftParen) :
        Parses (optional n .semicolon >>= fun condition =>
            Parser.expect .semicolon "Expect ';' after loop condition." >>= fun _ =>
            optional n .rightParen >>= fun increment =>
            Parser.expect .rightParen "Expect ')' after for clauses." >>= fun _ =>
            statement n >>= fun body => Pure.pure (forLoop init condition increment body)) 0
          (fun us s p' => Initial is (init.map Stmt.erase) → ∀ word, word.kind = .for_ →
            ∃ hanging, Statement hanging (word :: lpar :: (is ++ us)) s.erase ∧ Settled hanging p')
          p₁ := by
      refine (optional_parses n .semicolon p₁ hc₁ (by omega)).bind fun condition p₂ cs hc₂ hl₂ => ?_
      refine Parses.expect hc₂ fun semi hs hc₃ hl₃ => ?_
      refine (optional_parses n .rightParen _ hc₃ (by omega)).bind fun increment p₄ xs hc₄ hl₄ => ?_
      refine Parses.expect hc₄ fun rpar hrp hc₅ hl₅ => ?_
      refine (statement_parses n _ hc₅ (by omega)).bind (k := 0) fun body p₆ ts hc₆ _ => ?_
      refine Parses.pure hc₆ fun ⟨hanging, hbody, hset⟩ hstep hcond hinit word hw => ?_
      rw [List.append_nil, erase_forLoop]
      exact ⟨hanging, .for_ hw hlp hinit hcond hs hstep hrp hbody, hset⟩
    rw [forStatement]
    refine Parses.expect hc fun lpar hlp hc₁ hl₁ => ?_
    refine Parses.accept hc₁ (fun t _ hk hc₂ hl₂ => ?_) fun _ => ?_
    · dsimp only
      split
      · rename_i ht
        rw [bind_map_left]
        refine (varDeclaration_parses n _ hc₂ (by omega)).bind fun s p₃ is hc₃ hl₃ => ?_
        refine (hrest lpar (some s) (t :: is) p₃ hc₃ (by omega) hlp).mono (Nat.zero_le _)
          fun us s' _ h hv => ?_
        exact h (.var ht hv)
      · rename_i ht
        have hsemi : t.kind = .semicolon := by simpa [ht] using hk
        exact (hrest lpar none [t] _ hc₂ (by omega) hlp).mono (Nat.zero_le _)
          fun us s _ h => h (.none hsemi)
    · dsimp only
      rw [bind_map_left]
      refine (expressionStatement_parses n _ hc₁ (by omega)).bind fun s p₂ is hc₂ hl₂ => ?_
      exact (hrest lpar (some s) is p₂ hc₂ (by omega) hlp).mono (Nat.zero_le _)
        fun us s' _ h hv => h (.effect hv)

theorem ifStatement_parses (n : Nat) (p : Parser) (hc : p.Closed)
    (hn : 24 * p.left.length + 1 ≤ n) :
    Parses (ifStatement n) 1
      (fun ts s p' => ∀ word, word.kind = .if_ →
        ∃ hanging, Statement hanging (word :: ts) s.erase ∧ Settled hanging p') p := by
  match n with
  | n + 1 =>
    rw [ifStatement]
    refine Parses.expect hc fun lpar hlp hc₁ hl₁ => ?_
    refine (assignment_parses n _ hc₁ (by omega)).bind fun c p₂ cs hc₂ hl₂ => ?_
    refine Parses.expect hc₂ fun rpar hrp hc₃ hl₃ => ?_
    refine (statement_parses n _ hc₃ (by omega)).bind (k := 0) fun yes p₄ ts hc₄ hl₄ => ?_
    refine Parses.accept hc₄ (fun other hother hk hc₅ hl₅ => ?_) fun hk => ?_
    · refine (statement_parses n _ hc₅ (by omega)).bind (k := 0) fun no p₆ us hc₆ _ => ?_
      refine Parses.pure hc₆ fun ⟨hanging, hno, hset⟩ ⟨hanging', hyes, hset'⟩ hcond word hw => ?_
      have hk : other.kind = .else_ := List.mem_singleton.1 hk
      have hfalse : hanging' = false := by
        rw [← Bool.not_eq_true]
        intro ht
        exact hset' ht (hother ▸ hk)
      subst hfalse
      rw [List.append_nil]
      exact ⟨hanging, .ifElse hw hlp hcond hrp hyes hk hno, hset⟩
    · refine Parses.pure hc₄ fun ⟨hanging, hyes, hset⟩ hcond word hw => ?_
      rw [List.append_nil]
      refine ⟨true, .ifThen hw hlp hcond hrp hyes, fun _ he => ?_⟩
      rw [he] at hk
      exact hk.elim (nomatch ·) fun h => h (List.mem_singleton.2 rfl)

theorem whileStatement_parses (n : Nat) (p : Parser) (hc : p.Closed)
    (hn : 24 * p.left.length + 1 ≤ n) :
    Parses (whileStatement n) 1
      (fun ts s p' => ∀ word, word.kind = .while_ →
        ∃ hanging, Statement hanging (word :: ts) s.erase ∧ Settled hanging p') p := by
  match n with
  | n + 1 =>
    rw [whileStatement]
    refine Parses.expect hc fun lpar hlp hc₁ hl₁ => ?_
    refine (assignment_parses n _ hc₁ (by omega)).bind fun c p₂ cs hc₂ hl₂ => ?_
    refine Parses.expect hc₂ fun rpar hrp hc₃ hl₃ => ?_
    refine (statement_parses n _ hc₃ (by omega)).bind (k := 0) fun body p₄ ts hc₄ hl₄ => ?_
    refine Parses.pure hc₄ fun ⟨hanging, hbody, hset⟩ hcond word hw => ?_
    rw [List.append_nil]
    exact ⟨hanging, .while_ hw hlp hcond hrp hbody, hset⟩
end

end Parser

end LoxLang
