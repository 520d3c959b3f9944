import LoxLang.Proofs.Parser.ExpressionComplete
import LoxLang.Proofs.Parser.StatementSound

namespace LoxLang

namespace Grammar
set_option autoImplicit true
open LoxLang.Parser

theorem Effect.started (h : Effect ts s) : Started ts := by
  cases h with
  | mk he => exact he.started.append _

theorem Statement.head (h : Statement hanging ts s) :
    Before [.else_, .rightBrace, .eof, .class_, .fun_, .var] ts := by
  cases h with
  | effect he => exact .of_started he.started (by decide)
  | print hk | ret hk | block hk | ifThen hk | ifElse hk | while_ hk | for_ hk =>
    exact .cons (by rw [hk]; decide)

theorem Declaration.head (h : Declaration ts s) : Before [.else_, .rightBrace, .eof] ts := by
  cases h with
  | class_ hk | fun_ hk | var hk => exact .cons (by rw [hk]; decide)
  | statement hs => exact hs.head.mono (by decide)

theorem Declarations.no_else (h : Declarations ts ss) (hr : Before [.else_] rest) :
    Before [.else_] (ts ++ rest) := by
  cases h with
  | nil => exact hr
  | cons hs _ => exact ((hs.head.mono (by decide)).append _).append _

theorem Callable.head (h : Callable ts f) : Before [.rightBrace, .eof] ts := by
  cases h with
  | mk hx => exact .cons (by rw [hx]; decide)

theorem Optional.yields (h : Optional ts o) (hstop : stop ∈ [Token.Kind.semicolon, .rightParen])
    (hk : t.kind = stop) (hl : left p = ts ++ (t :: rest))
    (hn : 24 * (ts ++ (t :: rest)).length + 15 ≤ n) :
    Yields (optional n stop) (Option.map Expr.erase) o (t :: rest) p := by
  have hstops : ∀ k ∈ [Token.Kind.semicolon, .rightParen],
      k ≠ .eof ∧ k ∉ Rank.assignment.continuers ∧ ∀ j ∈ starters, j ∉ [k] := by decide
  obtain ⟨hne, hend, hstart⟩ := hstops stop hstop
  subst hk
  rw [Parser.optional]
  cases h with
  | none => exact .sees hl hne (List.mem_singleton.2 rfl) (.pure hl rfl)
  | some he =>
    refine Yields.overlook hl ((Before.of_started he.started hstart).append _) ?_
    refine (he.yields hl (.cons hend) hn).bind fun c p₁ hc hl₁ => ?_
    exact .pure hl₁ (hc ▸ rfl)

theorem Effect.yields (h : Effect ts s) (hl : left p = ts ++ rest) (hr : rest ≠ [])
    (hn : 24 * (ts ++ rest).length + 15 ≤ n) :
    Yields (expressionStatement n) Stmt.erase s rest p := by
  cases h with
  | mk he hs =>
    rw [List.append_assoc] at hl hn
    rw [expressionStatement]
    refine (he.yields hl (.cons (by rw [hs]; decide)) hn).bind fun c p₁ hc hl₁ => ?_
    refine Yields.expect hl₁ hr hs (by decide) fun p₂ hl₂ => ?_
    exact .pure hl₂ (hc ▸ rfl)

theorem Variable.yields (h : Variable ts s) (hl : left p = ts ++ rest) (hr : rest ≠ [])
    (hn : 24 * (ts ++ rest).length + 15 ≤ n) :
    Yields (varDeclaration n) Stmt.erase s rest p := by
  rw [varDeclaration]
  cases h with
  | plain hx hs =>
    refine Yields.expect hl (List.cons_ne_nil _ _) hx (by decide) fun p₁ hl₁ => ?_
    refine Yields.pass hl₁ (.cons (by rw [hs]; decide)) ?_
    refine Yields.expect hl₁ hr hs (by decide) fun p₂ hl₂ => ?_
    exact .pure hl₂ rfl
  | initialized hx hk he hs =>
    simp only [List.cons_append, List.append_assoc, List.nil_append] at hl hn
    refine Yields.expect hl (List.cons_ne_nil _ _) hx (by decide) fun p₁ hl₁ => ?_
    refine Yields.accept hl₁ (by simp) (by rw [hk]; decide) (by rw [hk]; decide) fun p₂ hl₂ => ?_
    dsimp only
    rw [bind_map_left]
    rw [List.length_cons, List.length_cons] at hn
    refine (he.yields hl₂ (.cons (by rw [hs]; decide)) (by omega)).bind fun c p₃ hc hl₃ => ?_
    refine Yields.expect hl₃ hr hs (by decide) fun p₄ hl₄ => ?_
    exact .pure hl₄ (hc ▸ rfl)

theorem Names.yields (h : Names ts xs) (hl : left p = ts ++ rest) (hr : Before [.comma] rest)
    (hcount : count + xs.length ≤ limit) (hn : 24 * (ts ++ rest).length + 1 ≤ n) :
    Yields (parameters n count) id xs rest p := by
  induction h generalizing n p count with
  | one hx =>
    obtain ⟨n, rfl⟩ : ∃ m, n = m + 1 := ⟨n - 1, by omega⟩
    have hle : ¬ maxArguments ≤ count := by
      simp only [List.length_singleton, limit] at hcount
      simp only [maxArguments]
      omega
    rw [parameters, if_neg hle]
    refine Yields.expect hl hr.ne_nil hx (by decide) fun p₁ hl₁ => ?_
    exact .pass hl₁ hr (.pure hl₁ rfl)
  | more hx hk _ ih =>
    obtain ⟨n, rfl⟩ : ∃ m, n = m + 1 := ⟨n - 1, by omega⟩
    simp only [List.length_cons, limit] at hcount
    have hle : ¬ maxArguments ≤ count := by
      simp only [maxArguments]
      omega
    rw [parameters, if_neg hle]
    refine Yields.expect hl (List.cons_ne_nil _ _) hx (by decide) fun p₁ hl₁ => ?_
    refine Yields.accept hl₁ (by simp [hr.ne_nil]) (by rw [hk]; decide) (by rw [hk]; decide)
      fun p₂ hl₂ => ?_
    simp only [List.length_append, List.length_cons] at hn
    refine (ih hl₂ (by simp only [limit]; omega)
      (by simp only [List.length_append]; omega)).bind fun ys p₃ hys hl₃ => ?_
    exact .pure hl₃ (hys ▸ rfl)

theorem Parameters.yields (h : Parameters ts xs) (hk : rpar.kind = .rightParen)
    (hl : left p = ts ++ (rpar :: rest)) (hlimit : xs.length ≤ limit)
    (hn : 24 * (ts ++ (rpar :: rest)).length + 1 ≤ n) :
    Yields (sees [.rightParen] >>= fun b => if b then pure [] else parameters n 0) id xs
      (rpar :: rest) p := by
  cases h with
  | none => exact .sees hl (by rw [hk]; decide) (by rw [hk]; decide) (.pure hl rfl)
  | some hs =>
    have hb : Before [.rightParen] (ts ++ (rpar :: rest)) := by
      cases hs with
      | one hx | more hx => exact .cons (by rw [hx]; decide)
    exact .overlook hl hb (hs.yields hl (.cons (by rw [hk]; decide)) (by omega) hn)

end Grammar

namespace Parser
set_option autoImplicit true
open Grammar

def CompleteStatement (hanging : Bool) (ts : List Token) (s : Stmt Unit) : Prop :=
  ∀ n p rest, left p = ts ++ rest → rest ≠ [] → (hanging = true → Before [.else_] rest) →
    24 * (ts ++ rest).length + 16 ≤ n → Yields (statement n) Stmt.erase s rest p

def CompleteDeclaration (ts : List Token) (s : Stmt Unit) : Prop :=
  ∀ n p rest, left p = ts ++ rest → rest ≠ [] → (Statement true ts s → Before [.else_] rest) →
    24 * (ts ++ rest).length + 18 ≤ n →
    Yields (declaration n) (Option.map Stmt.erase) (some s) rest p

/-- The parser of blocks returns the trees of these tokens and takes the brace behind them. -/
def CompleteDeclarations (ts : List Token) (ss : List (Stmt Unit)) : Prop :=
  ∀ n p rb rest, left p = ts ++ (rb :: rest) → rb.kind = .rightBrace → rest ≠ [] →
    24 * (ts ++ (rb :: rest)).length + 19 ≤ n → Yields (block n) (List.map Stmt.erase) ss rest p

/-- The parser of programs returns the trees of these tokens before the end of input. -/
def CompleteProgram (ts : List Token) (ss : List (Stmt Unit)) : Prop :=
  ∀ n p eof, left p = ts ++ [eof] → eof.kind = .eof → 24 * (ts ++ [eof]).length + 19 ≤ n →
    Yields (program n) (List.map Stmt.erase) ss [eof] p

def CompleteCallable (ts : List Token) (f : Routine (Stmt Unit)) : Prop :=
  ∀ n role p rest, left p = ts ++ rest → rest ≠ [] → 24 * (ts ++ rest).length + 1 ≤ n →
    Yields (routine n role) Routine.erase f rest p

/-- The parser of methods returns the trees of these tokens and takes the brace behind them. -/
def CompleteMethods (ts : List Token) (fs : List (Routine (Stmt Unit))) : Prop :=
  ∀ n p rb rest, left p = ts ++ (rb :: rest) → rb.kind = .rightBrace → rest ≠ [] →
    24 * (ts ++ (rb :: rest)).length + 2 ≤ n →
    Yields (methods n) (List.map Routine.erase) fs rest p

theorem statement_word (hl : left p = t :: ts) (hn : ts ≠ [])
    (hk : t.kind ∈ [Token.Kind.for_, .if_, .print, .return_, .while_, .leftBrace]) :
    statement (n + 1) p =
      (match t.kind with
        | .for_ => forStatement n
        | .if_ => ifStatement n
        | .print => printStatement n
        | .return_ => returnStatement n t
        | .while_ => whileStatement n
        | _ => .block <$> block n) p.skip := by
  have hne : t.kind ≠ .eof := by
    intro h
    rw [h] at hk
    exact absurd hk (by decide)
  obtain ⟨u, us, rfl⟩ := List.exists_cons_of_ne_nil hn
  rw [statement]
  exact bind_ok (accept_some hl hne hk)

theorem CompleteStatement.effect (h : Effect ts s) : CompleteStatement false ts s := by
  intro n p rest hl hr _ hn
  obtain ⟨n, rfl⟩ : ∃ m, n = m + 1 := ⟨n - 1, by omega⟩
  rw [statement]
  exact .pass hl ((Before.of_started h.started (by decide)).append _) (h.yields hl hr (by omega))

theorem CompleteStatement.print (hk : word.kind = .print) (he : Derives .assignment ts e)
    (hs : semi.kind = .semicolon) :
    CompleteStatement false (word :: (ts ++ [semi])) (.print e) := by
  intro n p rest hl hr _ hn
  simp only [List.cons_append, List.append_assoc, List.nil_append] at hl hn
  rw [List.length_cons] at hn
  obtain ⟨n, rfl⟩ : ∃ m, n = m + 1 := ⟨n - 1, by omega⟩
  refine Yields.run (statement_word hl (by simp) (by rw [hk]; decide)) rfl ?_
  have hl₁ := left_skip_of hl (by rw [hk]; decide) (by simp)
  simp only [hk]
  rw [printStatement]
  refine (he.yields hl₁ (.cons (by rw [hs]; decide)) (by omega)).bind fun c p₂ hc hl₂ => ?_
  refine Yields.expect hl₂ hr hs (by decide) fun p₃ hl₃ => ?_
  exact .pure hl₃ (hc ▸ rfl)

theorem CompleteStatement.ret (hk : word.kind = .return_) (ho : Grammar.Optional ts value)
    (hs : semi.kind = .semicolon) :
    CompleteStatement false (word :: (ts ++ [semi])) (.ret word value) := by
  intro n p rest hl hr _ hn
  simp only [List.cons_append, List.append_assoc, List.nil_append] at hl hn
  rw [List.length_cons] at hn
  obtain ⟨n, rfl⟩ : ∃ m, n = m + 1 := ⟨n - 1, by omega⟩
  refine Yields.run (statement_word hl (by simp) (by rw [hk]; decide)) rfl ?_
  have hl₁ := left_skip_of hl (by rw [hk]; decide) (by simp)
  simp only [hk]
  rw [returnStatement]
  refine (ho.yields (by decide) hs hl₁ (by omega)).bind fun c p₂ hc hl₂ => ?_
  refine Yields.expect hl₂ hr hs (by decide) fun p₃ hl₃ => ?_
  exact .pure hl₃ (hc ▸ rfl)

theorem CompleteStatement.block (hk : lb.kind = .leftBrace) (hd : CompleteDeclarations ts body)
    (hr : rb.kind = .rightBrace) :
    CompleteStatement false (lb :: (ts ++ [rb])) (.block body) := by
  intro n p rest hl hrest _ hn
  simp only [List.cons_append, List.append_assoc, List.nil_append] at hl hn
  rw [List.length_cons] at hn
  obtain ⟨n, rfl⟩ : ∃ m, n = m + 1 := ⟨n - 1, by omega⟩
  refine Yields.run (statement_word hl (by simp) (by rw [hk]; decide)) rfl ?_
  have hl₁ := left_skip_of hl (by rw [hk]; decide) (by simp)
  simp only [hk]
  obtain ⟨c, p₂, hrun, hc, hl₂, hd₂⟩ := hd n p.skip rb rest hl₁ hr hrest (by omega)
  exact Yields.map ⟨c, p₂, hrun, (Stmt.erase_block c).trans (hc ▸ rfl), hl₂, hd₂⟩

theorem CompleteStatement.guarded {Q : Expr Mark → Parse (Stmt Mark)} (hlp : lpar.kind = .leftParen)
    (hc : Derives .assignment cs c) (hrp : rpar.kind = .rightParen)
    (hl : left p = lpar :: (cs ++ rpar :: ts)) (hts : ts ≠ [])
    (hn : 24 * (lpar :: (cs ++ rpar :: ts)).length ≤ n + 8)
    (hQ : ∀ d p', Expr.erase d = c → p'.left = ts → Yields (Q d) Stmt.erase s rest p') :
    Yields (expect .leftParen m₁ >>= fun _ => assignment n >>= fun d =>
      expect .rightParen m₂ >>= fun _ => Q d) Stmt.erase s rest p := by
  rw [List.length_cons] at hn
  refine Yields.expect hl (by simp) hlp (by decide) fun p₁ hl₁ => ?_
  refine (hc.yields hl₁ (.cons (by rw [hrp]; decide)) (by omega)).bind fun d p₂ hd hl₂ => ?_
  exact Yields.expect hl₂ hts hrp (by decide) fun p₃ hl₃ => hQ d p₃ hd hl₃

theorem CompleteStatement.while_ (hk : word.kind = .while_) (hlp : lpar.kind = .leftParen)
    (hc : Derives .assignment cs c) (hrp : rpar.kind = .rightParen)
    (hs : CompleteStatement hanging ts s) :
    CompleteStatement hanging (word :: lpar :: (cs ++ rpar :: ts)) (.loop c s) := by
  intro n p rest hl hr hb hn
  simp only [List.cons_append, List.append_assoc] at hl hn
  rw [List.length_cons] at hn
  obtain ⟨n, rfl⟩ : ∃ m, n = m + 1 := ⟨n - 1, by omega⟩
  refine Yields.run (statement_word hl (by simp) (by rw [hk]; decide)) rfl ?_
  have hl₁ := left_skip_of hl (by rw [hk]; decide) (by simp)
  simp only [hk]
  obtain ⟨n, rfl⟩ : ∃ m, n = m + 1 := ⟨n - 1, by omega⟩
  rw [whileStatement]
  refine guarded hlp hc hrp hl₁ (by simp [hr]) (by omega) fun d p₂ hd hl₂ => ?_
  simp only [List.length_append, List.length_cons] at hn
  refine (hs n p₂ rest hl₂ hr hb (by simp only [List.length_append]; omega)).bind
    fun body p₃ hbody hl₃ => ?_
  exact .pure hl₃ (hd ▸ hbody ▸ rfl)

theorem CompleteStatement.ifThen (hk : word.kind = .if_) (hlp : lpar.kind = .leftParen)
    (hc : Derives .assignment cs c) (hrp : rpar.kind = .rightParen)
    (hs : CompleteStatement hanging ts s) :
    CompleteStatement true (word :: lpar :: (cs ++ rpar :: ts)) (.ifThen c s) := by
  intro n p rest hl hr hb hn
  simp only [List.cons_append, List.append_assoc] at hl hn
  rw [List.length_cons] at hn
  obtain ⟨n, rfl⟩ : ∃ m, n = m + 1 := ⟨n - 1, by omega⟩
  refine Yields.run (statement_word hl (by simp) (by rw [hk]; decide)) rfl ?_
  have hl₁ := left_skip_of hl (by rw [hk]; decide) (by simp)
  simp only [hk]
  obtain ⟨n, rfl⟩ : ∃ m, n = m + 1 := ⟨n - 1, by omega⟩
  rw [ifStatement]
  refine guarded hlp hc hrp hl₁ (by simp [hr]) (by omega) fun d p₂ hd hl₂ => ?_
  simp only [List.length_append, List.length_cons] at hn
  refine (hs n p₂ rest hl₂ hr (fun _ => hb rfl)
    (by simp only [List.length_append]; omega)).bind fun yes p₃ hyes hl₃ => ?_
  exact .pass hl₃ (hb rfl) (.pure hl₃ (hd ▸ hyes ▸ rfl))

theorem CompleteStatement.ifElse (hk : word.kind = .if_) (hlp : lpar.kind = .leftParen)
    (hc : Derives .assignment cs c) (hrp : rpar.kind = .rightParen)
    (hs : CompleteStatement false ts s) (he : other.kind = .else_)
    (ht : CompleteStatement hanging us t) :
    CompleteStatement hanging (word :: lpar :: (cs ++ rpar :: (ts ++ other :: us)))
      (.ifElse c s t) := by
  intro n p rest hl hr hb hn
  simp only [List.cons_append, List.append_assoc] at hl hn
  rw [List.length_cons] at hn
  obtain ⟨n, rfl⟩ : ∃ m, n = m + 1 := ⟨n - 1, by omega⟩
  refine Yields.run (statement_word hl (by simp) (by rw [hk]; decide)) rfl ?_
  have hl₁ := left_skip_of hl (by rw [hk]; decide) (by simp)
  simp only [hk]
  obtain ⟨n, rfl⟩ : ∃ m, n = m + 1 := ⟨n - 1, by omega⟩
  rw [ifStatement]
  refine guarded hlp hc hrp hl₁ (by simp) (by omega) fun d p₂ hd hl₂ => ?_
  simp only [List.length_append, List.length_cons] at hn
  refine (hs n p₂ _ hl₂ (by simp) (fun h => Bool.noConfusion h)
    (by simp only [List.length_append, List.length_cons]; omega)).bind fun yes p₃ hyes hl₃ => ?_
  refine Yields.accept hl₃ (by simp [hr]) (by rw [he]; decide) (by rw [he]; decide)
    fun p₄ hl₄ => ?_
  refine (ht n p₄ rest hl₄ hr hb (by simp only [List.length_append]; omega)).bind
    fun no p₅ hno hl₅ => ?_
  exact .pure hl₅ (hd ▸ hyes ▸ hno ▸ rfl)

theorem CompleteStatement.clauses {init' : Option (Stmt Mark)}
    (hcond : Grammar.Optional cs condition) (hsemi : semi.kind = .semicolon)
    (hstep : Grammar.Optional xs step) (hrp : rpar.kind = .rightParen)
    (hs : CompleteStatement hanging ts body)
    (hinit : init'.map Stmt.erase = init)
    (hl : left p = cs ++ semi :: (xs ++ rpar :: (ts ++ rest))) (hr : rest ≠ [])
    (hb : hanging = true → Before [.else_] rest)
    (hn : 24 * (cs ++ semi :: (xs ++ rpar :: (ts ++ rest))).length + 16 ≤ n) :
    Yields (optional n .semicolon >>= fun condition => expect .semicolon m₁ >>= fun _ =>
      optional n .rightParen >>= fun increment => expect .rightParen m₂ >>= fun _ =>
      statement n >>= fun body => pure (forLoop init' condition increment body)) Stmt.erase
      (loop init condition step body) rest p := by
  refine (hcond.yields (by decide) hsemi hl (by omega)).bind fun c p₁ hc hl₁ => ?_
  refine Yields.expect hl₁ (by simp) hsemi (by decide) fun p₂ hl₂ => ?_
  rw [List.length_append, List.length_cons] at hn
  refine (hstep.yields (by decide) hrp hl₂ (by omega)).bind fun x p₃ hx hl₃ => ?_
  refine Yields.expect hl₃ (by simp [hr]) hrp (by decide) fun p₄ hl₄ => ?_
  rw [List.length_append, List.length_cons] at hn
  refine (hs n p₄ rest hl₄ hr hb (by omega)).bind fun b p₅ hbody hl₅ => ?_
  refine .pure hl₅ ?_
  rw [erase_forLoop, hinit, hc, hx, hbody]

theorem CompleteStatement.for_ (hk : word.kind = .for_) (hlp : lpar.kind = .leftParen)
    (hi : Initial is init) (hcond : Grammar.Optional cs condition) (hsemi : semi.kind = .semicolon)
    (hstep : Grammar.Optional xs step) (hrp : rpar.kind = .rightParen)
    (hs : CompleteStatement hanging ts body) :
    CompleteStatement hanging (word :: lpar :: (is ++ (cs ++ semi :: (xs ++ rpar :: ts))))
      (loop init condition step body) := by
  intro n p rest hl hr hb hn
  simp only [List.cons_append, List.append_assoc] at hl hn
  rw [List.length_cons, List.length_cons, List.length_append] at hn
  obtain ⟨n, rfl⟩ : ∃ m, n = m + 1 := ⟨n - 1, by omega⟩
  refine Yields.run (statement_word hl (by simp) (by rw [hk]; decide)) rfl ?_
  have hl₁ := left_skip_of hl (by rw [hk]; decide) (by simp)
  simp only [hk]
  obtain ⟨n, rfl⟩ : ∃ m, n = m + 1 := ⟨n - 1, by omega⟩
  rw [forStatement]
  refine Yields.expect hl₁ (by simp) hlp (by decide) fun p₂ hl₂ => ?_
  cases hi with
  | none hfirst =>
    refine Yields.accept hl₂ (by simp) (by rw [hfirst]; decide) (by rw [hfirst]; decide)
      fun p₃ hl₃ => ?_
    dsimp only
    rw [if_neg (by rw [hfirst]; decide)]
    exact clauses hcond hsemi hstep hrp hs rfl hl₃ hr hb (by omega)
  | var hvar hv =>
    refine Yields.accept hl₂ (by simp) (by rw [hvar]; decide) (by rw [hvar]; decide)
      fun p₃ hl₃ => ?_
    dsimp only
    rw [if_pos hvar, bind_map_left]
    rw [List.length_cons] at hn
    refine (hv.yields hl₃ (by simp) (by rw [List.length_append]; omega)).bind
      fun v p₄ hv' hl₄ => ?_
    exact clauses hcond hsemi hstep hrp hs (hv' ▸ rfl) hl₄ hr hb (by omega)
  | effect he =>
    refine Yields.pass hl₂ ((Before.of_started he.started (by decide)).append _) ?_
    dsimp only
    rw [bind_map_left]
    refine (he.yields hl₂ (by simp) (by rw [List.length_append]; omega)).bind
      fun v p₃ hv hl₃ => ?_
    exact clauses hcond hsemi hstep hrp hs (hv ▸ rfl) hl₃ hr hb (by omega)

theorem CompleteCallable.mk {x lpar rpar lb rb : Token} {ps ts params : List Token}
    {body : List (Stmt Unit)} (hx : x.kind = .identifier) (hlp : lpar.kind = .leftParen)
    (hps : Parameters ps params) (hlimit : params.length ≤ limit) (hrp : rpar.kind = .rightParen)
    (hlb : lb.kind = .leftBrace) (hd : CompleteDeclarations ts body)
    (hrb : rb.kind = .rightBrace) :
    CompleteCallable (x :: lpar :: (ps ++ rpar :: lb :: (ts ++ [rb]))) ⟨x, params, body⟩ := by
  intro n role p rest hl hr hn
  simp only [List.cons_append, List.append_assoc, List.nil_append] at hl hn
  rw [List.length_cons, List.length_cons] at hn
  obtain ⟨n, rfl⟩ : ∃ m, n = m + 1 := ⟨n - 1, by omega⟩
  rw [routine]
  refine Yields.expect hl (by simp) hx (by decide) fun p₁ hl₁ => ?_
  refine Yields.expect hl₁ (by simp) hlp (by decide) fun p₂ hl₂ => ?_
  dsimp only
  rw [sees_join]
  refine (hps.yields hrp hl₂ hlimit (by omega)).bind fun ys p₃ hys hl₃ => ?_
  rw [List.length_append, List.length_cons, List.length_cons] at hn
  refine Yields.expect hl₃ (by simp) hrp (by decide) fun p₄ hl₄ => ?_
  refine Yields.expect hl₄ (by simp) hlb (by decide) fun p₅ hl₅ => ?_
  refine (hd n p₅ rb rest hl₅ hrb hr (by omega)).bind fun b p₆ hb hl₆ => ?_
  refine .pure hl₆ ?_
  rw [Routine.erase_mk, hb]
  exact hys ▸ rfl

theorem CompleteMethods.none : CompleteMethods [] [] := by
  intro n p rb rest hl hrb hr hn
  obtain ⟨n, rfl⟩ : ∃ m, n = m + 1 := ⟨n - 1, by omega⟩
  rw [methods]
  refine Yields.peek hl ?_
  rw [if_pos (.inl hrb)]
  exact Yields.expect hl hr hrb (by decide) fun p₁ hl₁ => .pure hl₁ rfl

theorem CompleteMethods.more (hhead : Before [.rightBrace, .eof] ts) (hf : CompleteCallable ts f)
    (hfs : CompleteMethods us fs) : CompleteMethods (ts ++ us) (f :: fs) := by
  intro n p rb rest hl hrb hr hn
  rw [List.append_assoc] at hl hn
  obtain ⟨t, vs, rfl, ht⟩ := hhead
  simp only [List.mem_cons, List.not_mem_nil, or_false] at ht
  obtain ⟨n, rfl⟩ : ∃ m, n = m + 1 := ⟨n - 1, by omega⟩
  rw [methods]
  refine Yields.peek hl ?_
  rw [if_neg ht]
  refine (hf n .method p _ hl (by simp) (by omega)).bind fun g p₁ hg hl₁ => ?_
  rw [List.cons_append, List.length_cons, List.length_append] at hn
  refine (hfs n p₁ rb rest hl₁ hrb hr (by omega)).bind fun gs p₂ hgs hl₂ => ?_
  exact .pure hl₂ (by rw [List.map_cons, hg, hgs])

theorem CompleteDeclarations.nil : CompleteDeclarations [] [] := by
  intro n p rb rest hl hrb hr hn
  obtain ⟨n, rfl⟩ : ∃ m, n = m + 1 := ⟨n - 1, by omega⟩
  rw [Parser.block]
  refine Yields.peek hl ?_
  rw [if_pos (.inl hrb)]
  exact Yields.expect hl hr hrb (by decide) fun p₁ hl₁ => .pure hl₁ rfl

theorem CompleteDeclarations.cons (hhead : Before [.else_, .rightBrace, .eof] ts)
    (hs : CompleteDeclaration ts s)
    (hnext : ∀ rest, Before [.else_] rest → Before [.else_] (us ++ rest))
    (hss : CompleteDeclarations us ss) : CompleteDeclarations (ts ++ us) (s :: ss) := by
  intro n p rb rest hl hrb hr hn
  rw [List.append_assoc] at hl hn
  obtain ⟨t, vs, rfl, ht⟩ := hhead
  simp only [List.mem_cons, List.not_mem_nil, or_false, not_or] at ht
  obtain ⟨n, rfl⟩ : ∃ m, n = m + 1 := ⟨n - 1, by omega⟩
  rw [Parser.block]
  refine Yields.peek hl ?_
  rw [if_neg (not_or.2 ht.2)]
  have hrest := hnext (rb :: rest) (.cons (by rw [hrb]; decide))
  refine (hs n p _ hl hrest.ne_nil (fun _ => hrest) (by omega)).bind fun o p₁ ho hl₁ => ?_
  rw [List.cons_append, List.length_cons, List.length_append] at hn
  obtain ⟨c, rfl, hc⟩ := Option.map_eq_some_iff.1 ho
  refine (hss n p₁ rb rest hl₁ hrb hr (by omega)).bind fun cs p₂ hcs hl₂ => ?_
  exact .pure hl₂ (by rw [List.map_cons, hc, hcs])

theorem CompleteProgram.nil : CompleteProgram [] [] := by
  intro n p eof hl he hn
  obtain ⟨n, rfl⟩ : ∃ m, n = m + 1 := ⟨n - 1, by omega⟩
  rw [program]
  refine Yields.peek hl ?_
  rw [if_pos he]
  exact .pure hl rfl

theorem CompleteProgram.cons (hhead : Before [.else_, .rightBrace, .eof] ts)
    (hs : CompleteDeclaration ts s)
    (hnext : ∀ rest, Before [.else_] rest → Before [.else_] (us ++ rest))
    (hss : CompleteProgram us ss) : CompleteProgram (ts ++ us) (s :: ss) := by
  intro n p eof hl he hn
  rw [List.append_assoc] at hl hn
  obtain ⟨t, vs, rfl, ht⟩ := hhead
  simp only [List.mem_cons, List.not_mem_nil, or_false, not_or] at ht
  obtain ⟨n, rfl⟩ : ∃ m, n = m + 1 := ⟨n - 1, by omega⟩
  rw [program]
  refine Yields.peek hl ?_
  rw [if_neg ht.2.2]
  have hrest := hnext [eof] (.cons (by rw [he]; decide))
  refine (hs n p _ hl hrest.ne_nil (fun _ => hrest) (by omega)).bind fun o p₁ ho hl₁ => ?_
  rw [List.cons_append, List.length_cons, List.length_append] at hn
  obtain ⟨c, rfl, hc⟩ := Option.map_eq_some_iff.1 ho
  refine (hss n p₁ eof hl₁ he (by omega)).bind fun cs p₂ hcs hl₂ => ?_
  exact .pure hl₂ (by rw [List.map_cons, hc, hcs])

theorem Yields.declaration (h : Yields (declare n) Stmt.erase s rest p) :
    Yields (declaration (n + 1)) (Option.map Stmt.erase) (some s) rest p := by
  obtain ⟨c, p', hrun, hc, hl, hd⟩ := h
  refine ⟨some c, p', ?_, congrArg some hc, hl, hd⟩
  rw [Parser.declaration, tryCatch_run, map_run, hrun]

/-- The word that begins a declaration leads to the parser of the declaration's kind. -/
theorem declare_word (hl : left p = t :: ts) (hn : ts ≠ [])
    (hk : t.kind ∈ [Token.Kind.class_, .fun_, .var]) :
    declare (n + 1) p =
      (if t.kind = .class_ then classDeclaration n
        else if t.kind = .fun_ then .funDecl <$> routine n .function
        else varDeclaration n) p.skip := by
  have hne : t.kind ≠ .eof := by
    intro h
    rw [h] at hk
    exact absurd hk (by decide)
  obtain ⟨u, us, rfl⟩ := List.exists_cons_of_ne_nil hn
  rw [declare, bind_ok (accept_some hl hne hk)]

theorem CompleteStatement.declaration (h : CompleteStatement hanging ts s)
    (hs : Statement hanging ts s) : CompleteDeclaration ts s := by
  intro n p rest hl hr helse hn
  obtain ⟨n, rfl⟩ : ∃ m, n = m + 1 + 1 := ⟨n - 2, by omega⟩
  refine Yields.declaration ?_
  rw [declare]
  have hhead : Before [.class_, .fun_, .var] ts := hs.head.mono (by decide)
  exact .pass hl (hhead.append _) (h n p rest hl hr (fun hh => helse (hh ▸ hs)) (by omega))

theorem CompleteDeclaration.var (hk : word.kind = .var) (hv : Variable ts s) :
    CompleteDeclaration (word :: ts) s := by
  intro n p rest hl hr _ hn
  rw [List.cons_append] at hl hn
  rw [List.length_cons] at hn
  have hne : ts ++ rest ≠ [] := by simp [hr]
  obtain ⟨n, rfl⟩ : ∃ m, n = m + 1 + 1 := ⟨n - 2, by omega⟩
  refine Yields.declaration (Yields.run (declare_word hl hne (by rw [hk]; decide)) rfl ?_)
  simp only [hk, reduceCtorEq, ↓reduceIte]
  exact hv.yields (left_skip_of hl (by rw [hk]; decide) hne) hr (by omega)

theorem CompleteDeclaration.fun_ (hk : word.kind = .fun_) (hf : CompleteCallable ts f) :
    CompleteDeclaration (word :: ts) (.funDecl f) := by
  intro n p rest hl hr _ hn
  rw [List.cons_append] at hl hn
  rw [List.length_cons] at hn
  have hne : ts ++ rest ≠ [] := by simp [hr]
  obtain ⟨n, rfl⟩ : ∃ m, n = m + 1 + 1 := ⟨n - 2, by omega⟩
  refine Yields.declaration (Yields.run (declare_word hl hne (by rw [hk]; decide)) rfl ?_)
  simp only [hk, reduceCtorEq, ↓reduceIte]
  have hl₁ := left_skip_of hl (by rw [hk]; decide) hne
  obtain ⟨c, p₂, hrun, hc, hl₂, hd₂⟩ := hf n .function p.skip rest hl₁ hr (by omega)
  exact Yields.map ⟨c, p₂, hrun, congrArg Stmt.funDecl hc, hl₂, hd₂⟩

theorem CompleteDeclaration.class_ {word x lb rb : Token} {ps ts : List Token}
    {sup : Option (Reference Unit)} {fs : List (Routine (Stmt Unit))} (hk : word.kind = .class_)
    (hx : x.kind = .identifier) (hp : Parent ps sup) (hlb : lb.kind = .leftBrace)
    (hm : CompleteMethods ts fs) (hrb : rb.kind = .rightBrace) :
    CompleteDeclaration (word :: x :: (ps ++ lb :: (ts ++ [rb]))) (.classDecl x sup fs) := by
  intro n p rest hl hr _ hn
  simp only [List.cons_append, List.append_assoc, List.nil_append] at hl hn
  rw [List.length_cons, List.length_cons, List.length_append, List.length_cons] at hn
  obtain ⟨n, rfl⟩ : ∃ m, n = m + 1 + 1 := ⟨n - 2, by omega⟩
  refine Yields.declaration (Yields.run (declare_word hl (by simp) (by rw [hk]; decide)) rfl ?_)
  simp only [hk, ↓reduceIte]
  have hl₁ := left_skip_of hl (by rw [hk]; decide) (by simp)
  obtain ⟨n, rfl⟩ : ∃ m, n = m + 1 := ⟨n - 1, by omega⟩
  have hbody (sup' : Option (Reference Mark)) (p' : Parser)
      (hsup : sup'.map (Reference.map (fun _ => ()) id) = sup)
      (hl' : p'.left = lb :: (ts ++ rb :: rest)) :
      Yields (Parser.expect .leftBrace "Expect '\x7b' before class body." >>= fun _ =>
        Parser.methods n >>= fun gs => Pure.pure (Stmt.classDecl x sup' gs)) Stmt.erase
        (.classDecl x sup fs) rest p' := by
    refine Yields.expect hl' (by simp) hlb (by decide) fun p₃ hl₃ => ?_
    refine (hm n p₃ rb rest hl₃ hrb hr (by omega)).bind fun gs p₄ hgs hl₄ => ?_
    refine .pure hl₄ ?_
    rw [Stmt.erase_classDecl, hsup, hgs]
  rw [classDeclaration]
  refine Yields.expect hl₁ (by simp) hx (by decide) fun p₂ hl₂ => ?_
  cases hp with
  | none =>
    refine Yields.pass hl₂ (.cons (by rw [hlb]; decide)) ?_
    exact hbody none p₂ rfl hl₂
  | some hless hname =>
    refine Yields.accept hl₂ (by simp) (by rw [hless]; decide) (by rw [hless]; decide)
      fun p₃ hl₃ => ?_
    refine Yields.expect hl₃ (by simp) hname (by decide) fun p₄ hl₄ => ?_
    rw [bind_map_left]
    refine Yields.refer hl₄ fun mark p₅ hl₅ => ?_
    exact hbody (some ⟨_, mark⟩) p₅ rfl hl₅

end Parser

namespace Grammar
set_option autoImplicit true
open LoxLang.Parser

mutual
theorem Statement.complete : Statement hanging ts s → CompleteStatement hanging ts s
  | .effect h => .effect h
  | .print hk he hs => .print hk he hs
  | .ret hk ho hs => .ret hk ho hs
  | .block hk hd hr => .block hk hd.complete.1 hr
  | .ifThen hk hlp hc hrp hs => .ifThen hk hlp hc hrp hs.complete
  | .ifElse hk hlp hc hrp hs he ht => .ifElse hk hlp hc hrp hs.complete he ht.complete
  | .while_ hk hlp hc hrp hs => .while_ hk hlp hc hrp hs.complete
  | .for_ hk hlp hi hcond hsemi hstep hrp hs =>
    .for_ hk hlp hi hcond hsemi hstep hrp hs.complete

theorem Declaration.complete : Declaration ts s → CompleteDeclaration ts s
  | .class_ hk hx hp hlb hm hrb => .class_ hk hx hp hlb hm.complete hrb
  | .fun_ hk hf => .fun_ hk hf.complete
  | .var hk hv => .var hk hv
  | .statement hs => hs.complete.declaration hs

/-- The parser returns the trees of all declarations that the grammar derives, inside a block and as
a program. -/
theorem Declarations.complete : Declarations ts ss → CompleteDeclarations ts ss ∧ CompleteProgram ts ss
  | .nil => ⟨.nil, .nil⟩
  | .cons hs hss =>
    ⟨.cons hs.head hs.complete (fun _ hr => hss.no_else hr) hss.complete.1,
      .cons hs.head hs.complete (fun _ hr => hss.no_else hr) hss.complete.2⟩

theorem Callable.complete : Callable ts f → CompleteCallable ts f
  | .mk hx hlp hps hlimit hrp hlb hd hrb => .mk hx hlp hps hlimit hrp hlb hd.complete.1 hrb

theorem Methods.complete : Methods ts fs → CompleteMethods ts fs
  | .none => .none
  | .more hf hfs => .more hf.head hf.complete hfs.complete
end

end Grammar

end LoxLang
