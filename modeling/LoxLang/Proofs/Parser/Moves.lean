import Mathlib.Logic.Relation
import LoxLang.Proofs.Parser.Run

namespace LoxLang

namespace Parser
set_option autoImplicit true

def fault (p : Parser) (e : SyntaxError) : Parser :=
  { p with diagnostics := p.diagnostics ++ [e.diagnostic] }

inductive Move : Parser → Parser → Prop where
  | skip : Move p p.skip
  | fault : Move p (p.fault e)
  | refer : Move p { p with fresh := p.fresh + 1 }

abbrev Moves : Parser → Parser → Prop := Relation.ReflTransGen Move

/-- A run from `p` that ends like this is made of elementary moves. If it is rejected, then the last
of them reports the error, at the token it stands on. -/
inductive Ends (p : Parser) : EStateM.Result Stop Parser α → Prop where
  | ok : Moves p q → Ends p (.ok a q)
  | rejected : Moves p q → e.token = q.cursor.current → Ends p (.error (.rejected e) (q.fault e))
  | exhausted : Moves p q → Ends p (.error .exhausted q)

/-- The run from `p` is made of elementary moves. -/
def Treads (P : Parse α) (p : Parser) : Prop := Ends p (P p)

theorem Ends.after {r : EStateM.Result Stop Parser α} (hp : Moves p q) (h : Ends q r) :
    Ends p r := by
  cases h with
  | ok hm => exact .ok (hp.trans hm)
  | rejected hm he => exact .rejected (hp.trans hm) he
  | exhausted hm => exact .exhausted (hp.trans hm)

theorem Treads.returns {P : Parse α} (h : Treads P p) (hr : P p = .ok a q) : Moves p q := by
  rw [Treads, hr] at h
  cases h with
  | ok hm => exact hm

theorem Treads.rejects {P : Parse α} (h : Treads P p) (hr : P p = .error (.rejected e) q) :
    ∃ q', Moves p q' ∧ e.token = q'.cursor.current ∧ q = q'.fault e := by
  rw [Treads, hr] at h
  cases h with
  | rejected hm he => exact ⟨_, hm, he, rfl⟩

theorem Treads.fails {P : Parse α} (h : Treads P p) (hr : P p = .error e q) : Moves p q := by
  rw [Treads, hr] at h
  cases h with
  | rejected hm _ => exact hm.tail .fault
  | exhausted hm => exact hm

theorem Treads.pure (a : α) (p : Parser) : Treads (Pure.pure a) p := Ends.ok .refl

theorem Treads.stop (p : Parser) : Treads (throw .exhausted : Parse α) p := Ends.exhausted .refl

theorem Treads.bind {P : Parse α} {Q : α → Parse β} (hP : Treads P p)
    (hQ : ∀ a q, Treads (Q a) q) : Treads (P >>= Q) p := by
  unfold Treads at hP ⊢
  cases hr : P p with
  | ok a q =>
    rw [hr] at hP
    rw [bind_ok hr]
    cases hP with
    | ok hm => exact (hQ a q).after hm
  | error e q =>
    rw [hr] at hP
    rw [bind_error hr]
    cases hP with
    | rejected hm he => exact .rejected hm he
    | exhausted hm => exact .exhausted hm

theorem Treads.map {P : Parse α} (f : α → β) (hP : Treads P p) : Treads (f <$> P) p :=
  hP.bind fun a => .pure (f a)

theorem Treads.report (t : Token) (message : Text) (p : Parser) : Treads (report t message) p :=
  Ends.ok (.single (.fault (e := ⟨t, message⟩)))

theorem Treads.reject (message : Text) (p : Parser) :
    Treads (reject p.cursor.current message : Parse α) p :=
  Ends.rejected (e := ⟨p.cursor.current, message⟩) .refl rfl

theorem Treads.peek {Q : Token → Parse β} (hQ : Treads (Q p.cursor.current) p) :
    Treads (peek >>= Q) p := hQ

theorem Treads.advance (p : Parser) : Treads advance p := Ends.ok (.single .skip)

theorem Treads.sees (kinds : List Token.Kind) (p : Parser) : Treads (sees kinds) p := Ends.ok .refl

theorem Treads.accept (kinds : List Token.Kind) (p : Parser) : Treads (accept kinds) p := by
  rw [Treads, accept_run]
  split
  · exact .ok (.single .skip)
  · exact .ok .refl

theorem Treads.expect (kind : Token.Kind) (message : Text) (p : Parser) :
    Treads (expect kind message) p := by
  rw [Treads, expect_run]
  split
  · exact .ok (.single .skip)
  · exact Treads.reject message p

theorem Treads.refer (name : Token) (p : Parser) : Treads (refer name) p :=
  Ends.ok (.single .refer)

theorem Treads.ite {c : Prop} [Decidable c] {P Q : Parse α} (hP : Treads P p)
    (hQ : Treads Q p) : Treads (if c then P else Q) p := by
  split
  · exact hP
  · exact hQ

mutual
theorem assignment_treads (n : Nat) (p : Parser) : Treads (assignment n) p := by
  match n with
  | 0 => exact .stop p
  | n + 1 =>
    rw [assignment]
    refine (climb_treads n .or p).bind fun target p₁ => (Treads.accept _ p₁).bind fun o p₂ => ?_
    cases o with
    | none => exact .pure _ p₂
    | some equals =>
      refine (assignment_treads n p₂).bind fun value p₃ => ?_
      split
      · exact .pure _ p₃
      · exact .pure _ p₃
      · exact (Treads.report _ _ p₃).bind fun _ => .pure _

theorem climb_treads (n : Nat) (level : Level) (p : Parser) : Treads (climb n level) p := by
  match n with
  | 0 => exact .stop p
  | n + 1 =>
    rw [climb]
    exact (operand_treads n level p).bind fun e => chain_treads n level e

theorem operand_treads (n : Nat) (level : Level) (p : Parser) : Treads (operand n level) p := by
  match n with
  | 0 => exact .stop p
  | n + 1 =>
    rw [operand]
    split
    · exact climb_treads n _ p
    · exact unary_treads n p

theorem chain_treads (n : Nat) (level : Level) (e : Expr Mark) (p : Parser) :
    Treads (chain n level e) p := by
  match n with
  | 0 => exact .stop p
  | n + 1 =>
    rw [chain]
    refine (Treads.accept _ p).bind fun o p₁ => ?_
    cases o with
    | none => exact .pure _ p₁
    | some op => exact (operand_treads n level p₁).bind fun right => chain_treads n level _

theorem unary_treads (n : Nat) (p : Parser) : Treads (unary n) p := by
  match n with
  | 0 => exact .stop p
  | n + 1 =>
    rw [unary]
    refine (Treads.accept _ p).bind fun o p₁ => ?_
    cases o with
    | some op => exact (unary_treads n p₁).bind fun e => .pure _
    | none => exact (primary_treads n p₁).bind fun e => suffixes_treads n e

theorem suffixes_treads (n : Nat) (e : Expr Mark) (p : Parser) : Treads (suffixes n e) p := by
  match n with
  | 0 => exact .stop p
  | n + 1 =>
    rw [suffixes]
    refine (Treads.accept _ p).bind fun o p₁ => ?_
    cases o with
    | none => exact .pure _ p₁
    | some t =>
      refine .ite ?_ ?_
      · refine (Treads.sees _ p₁).bind fun b p₂ => ?_
        refine .ite ((Treads.pure _ p₂).bind fun args p₃ => ?_)
          ((arguments_treads n 0 p₂).bind fun args p₃ => ?_)
        all_goals exact (Treads.expect _ _ p₃).bind fun paren => suffixes_treads n _
      · exact (Treads.expect _ _ p₁).bind fun name => suffixes_treads n _

theorem arguments_treads (n count : Nat) (p : Parser) : Treads (arguments n count) p := by
  match n with
  | 0 => exact .stop p
  | n + 1 =>
    have hrest (p : Parser) : Treads (do
        let arg ← assignment n
        match ← accept [.comma] with
        | some _ => return arg :: (← arguments n (count + 1))
        | none => return [arg]) p := by
      refine (assignment_treads n p).bind fun arg p₁ => (Treads.accept _ p₁).bind fun o p₂ => ?_
      cases o with
      | none => exact .pure _ p₂
      | some t => exact (arguments_treads n _ p₂).bind fun args => .pure _
    rw [arguments]
    exact .ite (.peek ((Treads.report _ _ p).bind fun _ => hrest)) (hrest p)

theorem primary_treads (n : Nat) (p : Parser) : Treads (primary n) p := by
  match n with
  | 0 => exact .stop p
  | n + 1 =>
    rw [primary]
    refine .peek ?_
    split
    · exact (Treads.advance p).bind fun _ => .pure _
    · exact (Treads.advance p).bind fun _ => .pure _
    · exact (Treads.advance p).bind fun _ => .pure _
    · exact (Treads.advance p).bind fun _ => .pure _
    · exact (Treads.advance p).bind fun _ => .pure _
    · exact (Treads.advance p).bind fun _ p₁ => (Treads.refer _ p₁).bind fun _ => .pure _
    · exact (Treads.advance p).bind fun _ p₁ => (Treads.refer _ p₁).bind fun _ => .pure _
    · refine (Treads.advance p).bind fun _ p₁ => (Treads.expect _ _ p₁).bind fun _ p₂ => ?_
      exact (Treads.expect _ _ p₂).bind fun _ p₃ => (Treads.refer _ p₃).bind fun _ => .pure _
    · refine (Treads.advance p).bind fun _ p₁ => (assignment_treads n p₁).bind fun e p₂ => ?_
      exact (Treads.expect _ _ p₂).bind fun _ => .pure _
    · exact .reject _ p
end

theorem optional_treads (n : Nat) (stop : Token.Kind) (p : Parser) :
    Treads (optional n stop) p := by
  refine (Treads.sees _ p).bind fun b p₁ => .ite (.pure _ p₁) ?_
  exact (assignment_treads n p₁).bind fun e => .pure _

theorem expressionStatement_treads (n : Nat) (p : Parser) :
    Treads (expressionStatement n) p :=
  (assignment_treads n p).bind fun _ p₁ => (Treads.expect _ _ p₁).bind fun _ => .pure _

theorem varDeclaration_treads (n : Nat) (p : Parser) : Treads (varDeclaration n) p := by
  refine (Treads.expect _ _ p).bind fun name p₁ => (Treads.accept _ p₁).bind fun o p₂ => ?_
  cases o with
  | none =>
    exact (Treads.pure _ p₂).bind fun init p₃ => (Treads.expect _ _ p₃).bind fun _ => .pure _
  | some t =>
    refine ((assignment_treads n p₂).map _).bind fun init p₃ => ?_
    exact (Treads.expect _ _ p₃).bind fun _ => .pure _

theorem printStatement_treads (n : Nat) (p : Parser) : Treads (printStatement n) p :=
  (assignment_treads n p).bind fun _ p₁ => (Treads.expect _ _ p₁).bind fun _ => .pure _

theorem returnStatement_treads (n : Nat) (keyword : Token) (p : Parser) :
    Treads (returnStatement n keyword) p :=
  (optional_treads n _ p).bind fun _ p₁ => (Treads.expect _ _ p₁).bind fun _ => .pure _

theorem parameters_treads (n count : Nat) (p : Parser) : Treads (parameters n count) p := by
  induction n generalizing count p with
  | zero => exact .stop p
  | succ n ih =>
    have hrest (p : Parser) : Treads (do
        let param ← expect .identifier "Expect parameter name."
        match ← accept [.comma] with
        | some _ => return param :: (← parameters n (count + 1))
        | none => return [param]) p := by
      refine (Treads.expect _ _ p).bind fun param p₁ => (Treads.accept _ p₁).bind fun o p₂ => ?_
      cases o with
      | none => exact .pure _ p₂
      | some t => exact (ih _ p₂).bind fun params => .pure _
    rw [parameters]
    exact .ite (.peek ((Treads.report _ _ p).bind fun _ => hrest)) (hrest p)

theorem boundary_moves (previous current : Token) (rest : List Token) (ds : List Diagnostic)
    (mark : Mark) :
    Moves ⟨⟨previous, current, rest⟩, ds, mark⟩
      ⟨Cursor.boundary previous current rest, ds, mark⟩ := by
  induction rest generalizing previous current with
  | nil => exact .refl
  | cons t rest ih =>
    rw [Cursor.boundary]
    split
    · exact .refl
    · rename_i hgo
      have hskip : Parser.skip ⟨⟨previous, current, t :: rest⟩, ds, mark⟩ =
          ⟨⟨current, t, rest⟩, ds, mark⟩ := by
        have hne : current.kind ≠ .eof := fun he => hgo (.inl he)
        simp [Parser.skip, Cursor.advance, Cursor.atEnd, hne]
      exact .head (hskip ▸ .skip) (ih current t)

theorem resume_moves (p : Parser) : Moves p p.resume :=
  .head .skip (boundary_moves _ _ _ p.diagnostics p.fresh)

mutual
theorem declaration_treads (n : Nat) (p : Parser) : Treads (declaration n) p := by
  match n with
  | 0 => exact .stop p
  | n + 1 =>
    have h := (declare_treads n p).map some
    rw [declaration]
    unfold Treads at h ⊢
    rw [tryCatch_run]
    generalize (some <$> declare n) p = r at h
    cases h with
    | ok hm => exact .ok hm
    | rejected hm _ => exact .ok ((hm.tail .fault).trans (resume_moves _))
    | exhausted hm => exact .exhausted hm

theorem declare_treads (n : Nat) (p : Parser) : Treads (declare n) p := by
  match n with
  | 0 => exact .stop p
  | n + 1 =>
    rw [declare]
    refine (Treads.accept _ p).bind fun o p₁ => ?_
    cases o with
    | none => exact statement_treads n p₁
    | some t =>
      exact .ite (classDeclaration_treads n p₁)
        (.ite ((routine_treads n _ p₁).map _) (varDeclaration_treads n p₁))

theorem classDeclaration_treads (n : Nat) (p : Parser) : Treads (classDeclaration n) p := by
  match n with
  | 0 => exact .stop p
  | n + 1 =>
    have hbody (name : Token) (superclass : Option (Reference Mark)) (p : Parser) :
        Treads (do
          let _ ← expect .leftBrace "Expect '\x7b' before class body."
          let methods ← methods n
          return Stmt.classDecl name superclass methods) p :=
      (Treads.expect _ _ p).bind fun _ p₁ => (methods_treads n p₁).bind fun _ => .pure _
    rw [classDeclaration]
    refine (Treads.expect _ _ p).bind fun name p₁ => (Treads.accept _ p₁).bind fun o p₂ => ?_
    cases o with
    | none => exact (Treads.pure _ p₂).bind (hbody name)
    | some t =>
      refine (Treads.expect _ _ p₂).bind fun parent p₃ => ?_
      exact ((Treads.refer parent p₃).map _).bind (hbody name)

theorem methods_treads (n : Nat) (p : Parser) : Treads (methods n) p := by
  match n with
  | 0 => exact .stop p
  | n + 1 =>
    rw [methods]
    refine .peek (.ite ((Treads.expect _ _ p).bind fun _ => .pure _) ?_)
    exact (routine_treads n _ p).bind fun m p₁ => (methods_treads n p₁).bind fun _ => .pure _

theorem routine_treads (n : Nat) (role : Role) (p : Parser) : Treads (routine n role) p := by
  match n with
  | 0 => exact .stop p
  | n + 1 =>
    rw [routine]
    refine (Treads.expect _ _ p).bind fun name p₁ => (Treads.expect _ _ p₁).bind fun _ p₂ => ?_
    refine (Treads.sees _ p₂).bind fun b p₃ => ?_
    refine .ite ((Treads.pure _ p₃).bind fun params p₄ => ?_)
      ((parameters_treads n 0 p₃).bind fun params p₄ => ?_)
    all_goals
      refine (Treads.expect _ _ p₄).bind fun _ p₅ => (Treads.expect _ _ p₅).bind fun _ p₆ => ?_
      exact (block_treads n p₆).bind fun body => .pure _

theorem block_treads (n : Nat) (p : Parser) : Treads (block n) p := by
  match n with
  | 0 => exact .stop p
  | n + 1 =>
    rw [block]
    refine .peek (.ite ((Treads.expect _ _ p).bind fun _ => .pure _) ?_)
    refine (declaration_treads n p).bind fun o p₁ => ?_
    cases o with
    | none => exact block_treads n p₁
    | some s => exact (block_treads n p₁).bind fun ss => .pure _

theorem statement_treads (n : Nat) (p : Parser) : Treads (statement n) p := by
  match n with
  | 0 => exact .stop p
  | n + 1 =>
    rw [statement]
    refine (Treads.accept _ p).bind fun o p₁ => ?_
    cases o with
    | none => exact expressionStatement_treads n p₁
    | some t =>
      dsimp only
      split
      · exact forStatement_treads n p₁
      · exact ifStatement_treads n p₁
      · exact printStatement_treads n p₁
      · exact returnStatement_treads n t p₁
      · exact whileStatement_treads n p₁
      · exact (block_treads n p₁).map _

theorem forStatement_treads (n : Nat) (p : Parser) : Treads (forStatement n) p := by
  match n with
  | 0 => exact .stop p
  | n + 1 =>
    have hrest (init : Option (Stmt Mark)) (p : Parser) :
        Treads (do
          let condition ← optional n .semicolon
          let _ ← expect .semicolon "Expect ';' after loop condition."
          let increment ← optional n .rightParen
          let _ ← expect .rightParen "Expect ')' after for clauses."
          let body ← statement n
          return forLoop init condition increment body) p := by
      refine (optional_treads n _ p).bind fun condition p₁ => ?_
      refine (Treads.expect _ _ p₁).bind fun _ p₂ => ?_
      refine (optional_treads n _ p₂).bind fun increment p₃ => ?_
      refine (Treads.expect _ _ p₃).bind fun _ p₄ => ?_
      exact (statement_treads n p₄).bind fun body => .pure _
    rw [forStatement]
    refine (Treads.expect _ _ p).bind fun _ p₁ => (Treads.accept _ p₁).bind fun o p₂ => ?_
    cases o with
    | none => exact ((expressionStatement_treads n p₂).map _).bind hrest
    | some t =>
      exact .ite (((varDeclaration_treads n p₂).map _).bind hrest)
        ((Treads.pure _ p₂).bind hrest)

theorem ifStatement_treads (n : Nat) (p : Parser) : Treads (ifStatement n) p := by
  match n with
  | 0 => exact .stop p
  | n + 1 =>
    rw [ifStatement]
    refine (Treads.expect _ _ p).bind fun _ p₁ => (assignment_treads n p₁).bind fun _ p₂ => ?_
    refine (Treads.expect _ _ p₂).bind fun _ p₃ => (statement_treads n p₃).bind fun yes p₄ => ?_
    refine (Treads.accept _ p₄).bind fun o p₅ => ?_
    cases o with
    | none => exact .pure _ p₅
    | some t => exact (statement_treads n p₅).bind fun no => .pure _

theorem whileStatement_treads (n : Nat) (p : Parser) : Treads (whileStatement n) p := by
  match n with
  | 0 => exact .stop p
  | n + 1 =>
    rw [whileStatement]
    refine (Treads.expect _ _ p).bind fun _ p₁ => (assignment_treads n p₁).bind fun _ p₂ => ?_
    refine (Treads.expect _ _ p₂).bind fun _ p₃ => ?_
    exact (statement_treads n p₃).bind fun body => .pure _
end

theorem program_treads (n : Nat) (p : Parser) : Treads (program n) p := by
  induction n generalizing p with
  | zero => exact .stop p
  | succ n ih =>
    rw [program]
    refine .peek (.ite (.pure _ p) ?_)
    refine (declaration_treads n p).bind fun o p₁ => ?_
    cases o with
    | none => exact ih p₁
    | some s => exact (ih p₁).bind fun ss => .pure _

theorem Moves.diagnostics (h : Moves p q) :
    ∃ ds, q.diagnostics = p.diagnostics ++ ds ∧ ∀ d ∈ ds, d.stage = .parsing := by
  induction h with
  | refl => exact ⟨[], (List.append_nil _).symm, nofun⟩
  | tail _ hm ih =>
    obtain ⟨ds, hd, hs⟩ := ih
    cases hm with
    | skip | refer => exact ⟨ds, hd, hs⟩
    | @fault e =>
      refine ⟨ds ++ [e.diagnostic], ?_, fun d hmem => ?_⟩
      · rw [← List.append_assoc, ← hd]
        rfl
      · rcases List.mem_append.1 hmem with hmem | hmem
        · exact hs d hmem
        · rw [List.mem_singleton.1 hmem]
          rfl

end Parser

theorem Parsed.ofTokens_stage (tokens : List Token) :
    ∀ d ∈ (ofTokens tokens).diagnostics, d.stage = .parsing := by
  have htreads := Parser.program_treads (Parser.steps tokens) (Parser.start tokens)
  unfold ofTokens EStateM.run
  split
  · rename_i hr
    obtain ⟨ds, hd, hs⟩ := (htreads.returns hr).diagnostics
    exact hd ▸ hs
  · rename_i hr
    obtain ⟨ds, hd, hs⟩ := (htreads.fails hr).diagnostics
    exact hd ▸ hs

end LoxLang
