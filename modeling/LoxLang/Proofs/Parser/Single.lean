import LoxLang.Proofs.Parser.Maker

namespace LoxLang

namespace Maker
set_option autoImplicit true
open LoxLang.Parser (accept expect report advance Level Role forLoop Treads)

theorem target_along (equals : Token) (ht : Fits Expr.nodes m₀ target t m)
    (hv : Fits Expr.nodes m value v m') : Along
      (match target.tree with
      | .var ref => make (.assign ref value.tree) value.places
      | .get object name => make (.set object name value.tree) (target.places.tail ++ value.places)
      | _ => do
        Maker.lift (report equals "Invalid assignment target.")
        return target)
      (match t with
      | .var ref => return .assign ref v
      | .get object name => return .set object name v
      | _ => do
        report equals "Invalid assignment target."
        return t) m' (Fits Expr.nodes m₀) := by
  have hinvalid {m₁ : Maker} (hl : Later m m₁) : Along
      (do
        Maker.lift (report equals "Invalid assignment target.")
        return target)
      (do
        report equals "Invalid assignment target."
        return t) m₁ (Fits Expr.nodes m₀) := by
    apply Along.step (Treads.report _ _)
    intro _ m₂ h₂
    exact .pure ((ht.widen hl).widen h₂)
  obtain rfl := ht.tree
  obtain rfl := hv.tree
  cases htree : target.tree with
  | var ref =>
    rw [htree] at ht
    exact .make (ht.assign hv)
  | get o x =>
    rw [htree] at ht
    exact .make (ht.set hv)
  | _ =>
    rw [htree] at hinvalid
    exact hinvalid hv.within.later

mutual
theorem assignment_along (n : Nat) (m : Maker) :
    Along (assignment n) (Parser.assignment n) m (Fits Expr.nodes m) := by
  match n with
  | 0 => exact .stop m
  | n + 1 =>
    rw [assignment, Parser.assignment]
    apply (climb_along n .or m).bind
    intro target e m₁ h₁ ht
    apply Along.step (Treads.accept _)
    intro o m₂ h₂
    cases o with
    | none => exact .pure (ht.widen h₂)
    | some equals =>
      apply (assignment_along n m₂).bind
      intro value v m₃ h₃ hv
      exact target_along equals (ht.widen h₂) hv

theorem climb_along (n : Nat) (level : Level) (m : Maker) :
    Along (climb n level) (Parser.climb n level) m (Fits Expr.nodes m) := by
  match n with
  | 0 => exact .stop m
  | n + 1 =>
    rw [climb, Parser.climb]
    apply (operand_along n level m).bind
    intro left e m₁ _ hleft
    exact chain_along n level hleft

theorem operand_along (n : Nat) (level : Level) (m : Maker) :
    Along (operand n level) (Parser.operand n level) m (Fits Expr.nodes m) := by
  match n with
  | 0 => exact .stop m
  | n + 1 =>
    rw [operand, Parser.operand]
    cases level.tighter with
    | none => exact unary_along n m
    | some next => exact climb_along n next m

theorem chain_along (n : Nat) (level : Level) {m₀ : Maker} (hleft : Fits Expr.nodes m₀ left e m) :
    Along (chain n level left) (Parser.chain n level e) m (Fits Expr.nodes m₀) := by
  match n with
  | 0 => exact .stop m
  | n + 1 =>
    rw [chain, Parser.chain]
    apply Along.step (Treads.accept _)
    intro o m₁ h₁
    cases o with
    | none => exact .pure (hleft.widen h₁)
    | some op =>
      apply (operand_along n level m₁).bind
      intro right b m₂ h₂ hright
      have hboth := (hleft.widen h₁).append hright
      obtain ⟨rfl, -, -⟩ := hleft
      obtain ⟨rfl, -, -⟩ := hright
      apply Along.making
      apply chain_along
      apply hboth.make
      · cases level <;> rfl
      · cases level <;> rfl

theorem unary_along (n : Nat) (m : Maker) :
    Along (unary n) (Parser.unary n) m (Fits Expr.nodes m) := by
  match n with
  | 0 => exact .stop m
  | n + 1 =>
    rw [unary, Parser.unary]
    apply Along.step (Treads.accept _)
    intro o m₁ h₁
    cases o with
    | some op =>
      apply Along.since h₁
      apply (unary_along n m₁).bind
      intro x e m₂ h₂ hx
      obtain rfl := hx.tree
      exact .make (hx.make rfl rfl)
    | none =>
      apply Along.since h₁
      apply (primary_along n m₁).bind
      intro callee e m₂ h₂ hcallee
      exact suffixes_along n hcallee

theorem suffixes_along (n : Nat) (hx : Fits Expr.nodes m₀ x e m) :
    Along (suffixes n x) (Parser.suffixes n e) m (Fits Expr.nodes m₀) := by
  match n with
  | 0 => exact .stop m
  | n + 1 =>
    obtain rfl := hx.tree
    have hcall {m m' : Maker} {args : Made (List (Expr Mark))} {es : List (Expr Mark)}
        (hx : Fits Expr.nodes m₀ x x.tree m) (hargs : Fits Expr.nodesAll m args es m') : Along
        (do
          let paren ← Maker.lift (expect .rightParen "Expect ')' after arguments.")
          let call ← Maker.make (.call x.tree paren args.tree) (x.places ++ args.places)
          suffixes n call)
        (do
          let paren ← expect .rightParen "Expect ')' after arguments."
          Parser.suffixes n (.call x.tree paren es)) m' (Fits Expr.nodes m₀) := by
      obtain rfl := hargs.tree
      apply Along.step (Treads.expect _ _)
      intro paren m₁ h₁
      exact .making (suffixes_along n (((hx.append hargs).widen h₁).make rfl rfl))
    rw [suffixes, Parser.suffixes]
    apply Along.step (Treads.accept _)
    intro o m₁ h₁
    cases o with
    | none => exact .pure (hx.widen h₁)
    | some t =>
      apply Along.ite
      · apply Along.step (Treads.sees _)
        intro b m₂ h₂
        have hx₂ := hx.widen (h₁.trans h₂)
        apply Along.ite
        · have hnone : Fits Expr.nodesAll m₂ ⟨[], []⟩ [] m₂ := .empty rfl (.refl m₂)
          apply (Along.pure hnone).bind
          intro args es m₃ h₃ hargs
          exact hcall hx₂ hargs
        · apply (arguments_along n 0 m₂).bind
          intro args es m₃ h₃ hargs
          exact hcall hx₂ hargs
      · apply Along.step (Treads.expect _ _)
        intro name m₂ h₂
        exact .making (suffixes_along n ((hx.widen (h₁.trans h₂)).make rfl rfl))

theorem arguments_along (n count : Nat) (m : Maker) :
    Along (arguments n count) (Parser.arguments n count) m (Fits Expr.nodesAll m) := by
  match n with
  | 0 => exact .stop m
  | n + 1 =>
    have hrest (m : Maker) : Along
        (do
          let arg ← assignment n
          match ← Maker.lift (accept [.comma]) with
          | some _ => return arg.join .cons (← arguments n (count + 1))
          | none => return arg.map fun e => [e])
        (do
          let arg ← Parser.assignment n
          match ← accept [.comma] with
          | some _ => return arg :: (← Parser.arguments n (count + 1))
          | none => return [arg]) m (Fits Expr.nodesAll m) := by
      apply (assignment_along n m).bind
      intro x e m₁ h₁ hx
      apply Along.step (Treads.accept _)
      intro o m₂ h₂
      cases o with
      | none => exact .pure ((hx.widen h₂).map (List.append_nil _))
      | some t =>
        apply (arguments_along n _ m₂).map
        intro xs es m₃ h₃ hxs
        exact (hx.widen h₂).join hxs rfl
    rw [arguments, Parser.arguments]
    apply Along.ite
    · apply Along.step (fun _ => .peek (.pure _ _))
      intro t m₁ h₁
      apply Along.since h₁
      apply Along.step (Treads.report _ _)
      intro _ m₂ h₂
      exact .since h₂ (hrest m₂)
    · exact hrest m

theorem primary_along (n : Nat) (m : Maker) :
    Along (primary n) (Parser.primary n) m (Fits Expr.nodes m) := by
  match n with
  | 0 => exact .stop m
  | n + 1 =>
    have hliteral (v : Option Literal) (m : Maker) : Along
        (do
          Maker.lift advance
          Maker.make (.literal v) [])
        (do
          advance
          return .literal v) m (Fits Expr.nodes m) := by
      apply Along.step Treads.advance
      intro _ m₁ h₁
      exact .make (.literal v h₁)
    rw [primary, Parser.primary]
    apply Along.step (fun _ => .peek (.pure _ _))
    intro t m₁ h₁
    apply Along.since h₁
    cases t.kind with
    | false_ | true_ | nil | number | string => exact hliteral _ m₁
    | this | identifier =>
      apply Along.step Treads.advance
      intro _ m₂ h₂
      exact .since h₂ (.refer t m₂ (fun _ => rfl) fun _ => rfl)
    | super =>
      apply Along.step Treads.advance
      intro _ m₂ h₂
      apply Along.step (Treads.expect _ _)
      intro _ m₃ h₃
      apply Along.step (Treads.expect _ _)
      intro method m₄ h₄
      exact .since ((h₂.trans h₃).trans h₄) (.refer t m₄ (fun _ => rfl) fun _ => rfl)
    | leftParen =>
      apply Along.step Treads.advance
      intro _ m₂ h₂
      apply Along.since h₂
      apply (assignment_along n m₂).bind
      intro x e m₃ h₃ hx
      obtain rfl := hx.tree
      apply Along.step (Treads.expect _ _)
      intro _ m₄ h₄
      exact .make ((hx.widen h₄).make rfl rfl)
    | _ => exact .reject t _ m₁
end

theorem optional_along (n : Nat) (stop : Token.Kind) (m : Maker) :
    Along (optional n stop) (Parser.optional n stop) m (Fits Expr.nodes? m) := by
  apply Along.step (Treads.sees _)
  intro b m₁ h₁
  apply Along.ite
  · exact .pure (.empty rfl h₁)
  · apply Along.since h₁
    apply (assignment_along n m₁).map
    intro x e m₂ h₂ hx
    exact hx.map rfl

theorem expressionStatement_along (n : Nat) (m : Maker) :
    Along (expressionStatement n) (Parser.expressionStatement n) m (Fits Stmt.nodes m) := by
  apply (assignment_along n m).bind
  intro x e m₁ h₁ hx
  apply Along.step (Treads.expect _ _)
  intro _ m₂ h₂
  exact .pure ((hx.widen h₂).map rfl)

theorem printStatement_along (n : Nat) (m : Maker) :
    Along (printStatement n) (Parser.printStatement n) m (Fits Stmt.nodes m) := by
  apply (assignment_along n m).bind
  intro x e m₁ h₁ hx
  apply Along.step (Treads.expect _ _)
  intro _ m₂ h₂
  exact .pure ((hx.widen h₂).map rfl)

theorem returnStatement_along (n : Nat) (keyword : Token) (m : Maker) :
    Along (returnStatement n keyword) (Parser.returnStatement n keyword) m
      (Fits Stmt.nodes m) := by
  apply (optional_along n _ m).bind
  intro x e m₁ h₁ hx
  apply Along.step (Treads.expect _ _)
  intro _ m₂ h₂
  exact .pure ((hx.widen h₂).map rfl)

theorem varDeclaration_along (n : Nat) (m : Maker) :
    Along (varDeclaration n) (Parser.varDeclaration n) m (Fits Stmt.nodes m) := by
  have hrest (name : Token) {x : Made (Option (Expr Mark))} {o : Option (Expr Mark)} {m₁ : Maker}
      (hx : Fits Expr.nodes? m x o m₁) : Along
      (do
        let _ ← Maker.lift (expect .semicolon "Expect ';' after variable declaration.")
        return x.map (Stmt.varDecl name))
      (do
        let _ ← expect .semicolon "Expect ';' after variable declaration."
        return Stmt.varDecl name o) m₁ (Fits Stmt.nodes m) := by
    apply Along.step (Treads.expect _ _)
    intro _ m₂ h₂
    exact .pure ((hx.widen h₂).map rfl)
  apply Along.step (Treads.expect _ _)
  intro name m₁ h₁
  apply Along.step (Treads.accept _)
  intro o m₂ h₂
  cases o with
  | none =>
    have hnone : Fits Expr.nodes? m ⟨none, []⟩ none m₂ := .empty rfl (h₁.trans h₂)
    apply (Along.pure hnone).bind
    intro x o m₃ h₃ hx
    exact hrest name hx
  | some t =>
    have hsome : Along (Made.map some <$> assignment n) (some <$> Parser.assignment n) m₂
        (Fits Expr.nodes? m) := ((assignment_along n m₂).since (h₁.trans h₂)).recast fun _ => rfl
    apply hsome.bind
    intro x o m₃ h₃ hx
    exact hrest name hx

theorem nodes_forLoop (o : Option (Stmt Mark)) (c : Expr Mark) (step : Option (Expr Mark))
    (s : Stmt Mark) : (forLoop o (some c) step s).nodes =
      Stmt.nodes? o ++ (c.nodes ++ (s.nodes ++ Expr.nodes? step)) := by
  cases o <;> cases step <;>
    simp [forLoop, Stmt.nodes, Stmt.nodesAll, Stmt.nodes?, Expr.nodes?]

theorem forLoop_fits {x : Made (Option (Stmt Mark))} {c : Made (Expr Mark)}
    {y : Made (Option (Expr Mark))} {z : Made (Stmt Mark)}
    (hx : x.places.map Prod.fst = Stmt.nodes? x.tree) (hc : c.places.map Prod.fst = c.tree.nodes)
    (hy : y.places.map Prod.fst = Expr.nodes? y.tree) (hz : z.places.map Prod.fst = z.tree.nodes)
    (hw : Within m m' (x.places ++ (c.places ++ (y.places ++ z.places)))) :
    Fits Stmt.nodes m ⟨forLoop x.tree (some c.tree) y.tree z.tree,
      x.places ++ (c.places ++ (z.places ++ y.places))⟩
      (forLoop x.tree (some c.tree) y.tree z.tree) m' := by
  refine ⟨rfl, ?_, hw.perm ((List.perm_append_comm.append_left _).append_left _)⟩
  simp only [List.map_append, hx, hc, hy, hz, nodes_forLoop]

mutual
theorem declaration_along (n : Nat) (m : Maker) :
    Along (declaration n) (Parser.declaration n) m
      fun x o m' => Option.Rel (fun x s => Fits Stmt.nodes m x s m') x o := by
  match n with
  | 0 => exact .stop m
  | n + 1 =>
    have hdeclare : Along (some <$> declare n) (some <$> Parser.declare n) m
        fun x o m' => Option.Rel (fun x s => Fits Stmt.nodes m x s m') x o :=
      (declare_along n m).map fun _ _ _ _ hx => .some hx
    rw [declaration, Parser.declaration]
    apply hdeclare.tryCatch
    intro e m₁
    cases e with
    | exhausted => exact .stop m₁
    | rejected e =>
      apply Along.step (fun p => Parser.Ends.ok (Parser.resume_moves p))
      intro _ m₂ _
      exact .pure .none

theorem declare_along (n : Nat) (m : Maker) :
    Along (declare n) (Parser.declare n) m (Fits Stmt.nodes m) := by
  match n with
  | 0 => exact .stop m
  | n + 1 =>
    rw [declare, Parser.declare]
    apply Along.step (Treads.accept _)
    intro o m₁ h₁
    apply Along.since h₁
    cases o with
    | none => exact statement_along n m₁
    | some t =>
      apply Along.ite
      · exact classDeclaration_along n m₁
      · apply Along.ite
        · exact (routine_along n .function m₁).recast fun _ => rfl
        · exact varDeclaration_along n m₁

theorem classDeclaration_along (n : Nat) (m : Maker) :
    Along (classDeclaration n) (Parser.classDeclaration n) m (Fits Stmt.nodes m) := by
  match n with
  | 0 => exact .stop m
  | n + 1 =>
    have hbody (name : Token) {x : Made (Option (Reference Mark))} {o : Option (Reference Mark)}
        {m₁ : Maker} (hx : Fits Reference.nodes? m x o m₁) : Along
        (do
          let _ ← Maker.lift (expect .leftBrace "Expect '\x7b' before class body.")
          let methods ← methods n
          return x.join (Stmt.classDecl name) methods)
        (do
          let _ ← expect .leftBrace "Expect '\x7b' before class body."
          let methods ← Parser.methods n
          return Stmt.classDecl name o methods) m₁ (Fits Stmt.nodes m) := by
      apply Along.step (Treads.expect _ _)
      intro _ m₂ h₂
      apply (methods_along n m₂).map
      intro xs fs m₃ h₃ hxs
      exact (hx.widen h₂).join hxs rfl
    rw [classDeclaration, Parser.classDeclaration]
    apply Along.step (Treads.expect _ _)
    intro name m₁ h₁
    apply Along.step (Treads.accept _)
    intro o m₂ h₂
    cases o with
    | none =>
      have hnone : Fits Reference.nodes? m ⟨none, []⟩ none m₂ := .empty rfl (h₁.trans h₂)
      apply (Along.pure hnone).bind
      intro x o m₃ h₃ hx
      exact hbody name hx
    | some t =>
      apply Along.step (Treads.expect _ _)
      intro parent m₃ h₃
      let ref : Reference Mark := ⟨parent, m₃.parser.fresh⟩
      have hnew : Fits Expr.nodes m₃ ⟨.var ref, [(.var ref, m₃.next)]⟩ (.var ref)
          m₃.referred.succ := .refer rfl rfl
      have hparent : Fits Reference.nodes? m₃ ⟨some ref, [(.var ref, m₃.next)]⟩ (some ref)
          m₃.referred.succ := hnew.map (f := fun _ => some ref) rfl
      have hl := (h₁.trans h₂).trans h₃
      exact Meets.after hparent.within.later (hbody name (hparent.since hl))

theorem methods_along (n : Nat) (m : Maker) :
    Along (methods n) (Parser.methods n) m (Fits Stmt.routinesNodes m) := by
  match n with
  | 0 => exact .stop m
  | n + 1 =>
    rw [methods, Parser.methods]
    apply Along.step (fun _ => .peek (.pure _ _))
    intro t m₁ h₁
    apply Along.since h₁
    apply Along.ite
    · apply Along.step (Treads.expect _ _)
      intro _ m₂ h₂
      exact .pure (.empty rfl h₂)
    · apply (routine_along n .method m₁).bind
      intro x f m₂ h₂ hx
      apply (methods_along n m₂).map
      intro xs fs m₃ h₃ hxs
      exact hx.join hxs rfl

theorem routine_along (n : Nat) (role : Role) (m : Maker) :
    Along (routine n role) (Parser.routine n role) m (Fits Stmt.routineNodes m) := by
  match n with
  | 0 => exact .stop m
  | n + 1 =>
    have hbody (name : Token) (params : List Token) (m : Maker) : Along
        (do
          let _ ← Maker.lift (expect .rightParen "Expect ')' after parameters.")
          let _ ← Maker.lift (expect .leftBrace ("Expect '\x7b' before " ++ role.word ++ " body."))
          let body ← block n
          return body.map (Routine.mk name params))
        (do
          let _ ← expect .rightParen "Expect ')' after parameters."
          let _ ← expect .leftBrace ("Expect '\x7b' before " ++ role.word ++ " body.")
          let body ← Parser.block n
          return Routine.mk name params body) m (Fits Stmt.routineNodes m) := by
      apply Along.step (Treads.expect _ _)
      intro _ m₁ h₁
      apply Along.step (Treads.expect _ _)
      intro _ m₂ h₂
      apply Along.since (h₁.trans h₂)
      apply (block_along n m₂).map
      intro x ss m₃ h₃ hx
      exact hx.map rfl
    rw [routine, Parser.routine]
    apply Along.step (Treads.expect _ _)
    intro name m₁ h₁
    apply Along.step (Treads.expect _ _)
    intro _ m₂ h₂
    apply Along.step (Treads.sees _)
    intro b m₃ h₃
    apply Along.since ((h₁.trans h₂).trans h₃)
    apply Along.ite
    · exact hbody name [] m₃
    · apply Along.step (Parser.parameters_treads n 0)
      intro params m₄ h₄
      exact .since h₄ (hbody name params m₄)

theorem block_along (n : Nat) (m : Maker) :
    Along (block n) (Parser.block n) m (Fits Stmt.nodesAll m) := by
  match n with
  | 0 => exact .stop m
  | n + 1 =>
    rw [block, Parser.block]
    apply Along.step (fun _ => .peek (.pure _ _))
    intro t m₁ h₁
    apply Along.since h₁
    apply Along.ite
    · apply Along.step (Treads.expect _ _)
      intro _ m₂ h₂
      exact .pure (.empty rfl h₂)
    · apply (declaration_along n m₁).bind
      intro x o m₂ h₂ hx
      cases hx with
      | none => exact .since h₂ (block_along n m₂)
      | some hx =>
        apply (block_along n m₂).map
        intro xs ss m₃ h₃ hxs
        exact hx.join hxs rfl

theorem statement_along (n : Nat) (m : Maker) :
    Along (statement n) (Parser.statement n) m (Fits Stmt.nodes m) := by
  match n with
  | 0 => exact .stop m
  | n + 1 =>
    rw [statement, Parser.statement]
    apply Along.step (Treads.accept _)
    intro o m₁ h₁
    apply Along.since h₁
    cases o with
    | none => exact expressionStatement_along n m₁
    | some t =>
      dsimp only
      cases t.kind with
      | for_ => exact forStatement_along n m₁
      | if_ => exact ifStatement_along n m₁
      | print => exact printStatement_along n m₁
      | return_ => exact returnStatement_along n t m₁
      | while_ => exact whileStatement_along n m₁
      | _ => exact (block_along n m₁).recast fun _ => rfl

theorem forStatement_along (n : Nat) (m : Maker) :
    Along (forStatement n) (Parser.forStatement n) m (Fits Stmt.nodes m) := by
  match n with
  | 0 => exact .stop m
  | n + 1 =>
    have hrest {x : Made (Option (Stmt Mark))} {o : Option (Stmt Mark)} {m₁ : Maker}
        (hx : Fits Stmt.nodes? m x o m₁) : Along
        (do
          let cond ← optional n .semicolon
          let _ ← Maker.lift (expect .semicolon "Expect ';' after loop condition.")
          let increment ← optional n .rightParen
          let _ ← Maker.lift (expect .rightParen "Expect ')' after for clauses.")
          let body ← statement n
          let c ← condition cond
          return ⟨forLoop x.tree (some c.tree) increment.tree body.tree,
            x.places ++ (c.places ++ (body.places ++ increment.places))⟩)
        (do
          let condition ← Parser.optional n .semicolon
          let _ ← expect .semicolon "Expect ';' after loop condition."
          let increment ← Parser.optional n .rightParen
          let _ ← expect .rightParen "Expect ')' after for clauses."
          let body ← Parser.statement n
          return forLoop o condition increment body) m₁ (Fits Stmt.nodes m) := by
      apply (optional_along n _ m₁).bind
      intro c e m₂ h₂ hc
      apply Along.step (Treads.expect _ _)
      intro _ m₃ h₃
      apply (optional_along n _ m₃).bind
      intro y step m₄ h₄ hy
      apply Along.step (Treads.expect _ _)
      intro _ m₅ h₅
      apply (statement_along n m₅).bind
      intro z s m₆ h₆ hz
      have hrest := (hy.widen h₅).within.append hz.within
      have hparts := hx.within.append ((hc.widen h₃).within.append hrest)
      obtain ⟨c, places⟩ := c
      obtain ⟨rfl, hx, -⟩ := hx
      obtain ⟨rfl, hc, -⟩ := hc
      obtain ⟨rfl, hy, -⟩ := hy
      obtain ⟨rfl, hz, -⟩ := hz
      cases c with
      | some e => exact Meets.ok (.refl m₆) (forLoop_fits (c := ⟨e, places⟩) hx hc hy hz hparts)
      | none =>
        obtain rfl : places = [] := List.map_eq_nil_iff.1 hc
        have hwhole : Within m m₆.succ
            (x.places ++ ((.literal (some (.bool true)), m₆.next) :: (y.places ++ z.places))) :=
          (hparts.make (.refl _) rfl).perm List.perm_middle.symm
        exact Meets.ok (later_succ m₆) (forLoop_fits (c := ⟨_, [(_, m₆.next)]⟩) hx rfl hy hz hwhole)
    rw [forStatement, Parser.forStatement]
    apply Along.step (Treads.expect _ _)
    intro _ m₁ h₁
    apply Along.step (Treads.accept _)
    intro o m₂ h₂
    have hl := h₁.trans h₂
    cases o with
    | none =>
      have hsome : Along (Made.map some <$> expressionStatement n)
          (some <$> Parser.expressionStatement n) m₂ (Fits Stmt.nodes? m) :=
        ((expressionStatement_along n m₂).since hl).recast fun _ => rfl
      apply hsome.bind
      intro x o m₃ h₃ hx
      exact hrest hx
    | some t =>
      apply Along.ite
      · have hsome : Along (Made.map some <$> varDeclaration n)
            (some <$> Parser.varDeclaration n) m₂ (Fits Stmt.nodes? m) :=
          ((varDeclaration_along n m₂).since hl).recast fun _ => rfl
        apply hsome.bind
        intro x o m₃ h₃ hx
        exact hrest hx
      · have hnone : Fits Stmt.nodes? m ⟨none, []⟩ none m₂ := .empty rfl hl
        exact hrest hnone

theorem ifStatement_along (n : Nat) (m : Maker) :
    Along (ifStatement n) (Parser.ifStatement n) m (Fits Stmt.nodes m) := by
  match n with
  | 0 => exact .stop m
  | n + 1 =>
    rw [ifStatement, Parser.ifStatement]
    apply Along.step (Treads.expect _ _)
    intro _ m₁ h₁
    apply Along.since h₁
    apply (assignment_along n m₁).bind
    intro c e m₂ h₂ hc
    apply Along.step (Treads.expect _ _)
    intro _ m₃ h₃
    apply (statement_along n m₃).bind
    intro yes s m₄ h₄ hyes
    apply Along.step (Treads.accept _)
    intro o m₅ h₅
    cases o with
    | none => exact .pure ((hc.widen h₃).join (hyes.widen h₅) rfl)
    | some t =>
      apply (statement_along n m₅).map
      intro no s' m₆ h₆ hno
      have hboth := (hyes.widen h₅).append hno
      have hall : Fits Stmt.nodes m₁ (c.join (fun e p => .ifElse e p.1 p.2) (yes.join Prod.mk no))
          (.ifElse e s s') m₆ := (hc.widen h₃).join hboth rfl
      exact hall

theorem whileStatement_along (n : Nat) (m : Maker) :
    Along (whileStatement n) (Parser.whileStatement n) m (Fits Stmt.nodes m) := by
  match n with
  | 0 => exact .stop m
  | n + 1 =>
    rw [whileStatement, Parser.whileStatement]
    apply Along.step (Treads.expect _ _)
    intro _ m₁ h₁
    apply Along.since h₁
    apply (assignment_along n m₁).bind
    intro c e m₂ h₂ hc
    apply Along.step (Treads.expect _ _)
    intro _ m₃ h₃
    apply (statement_along n m₃).map
    intro body s m₄ h₄ hbody
    exact (hc.widen h₃).join hbody rfl
end

theorem program_along (n : Nat) (m : Maker) :
    Along (program n) (Parser.program n) m (Fits Stmt.nodesAll m) := by
  induction n generalizing m with
  | zero => exact .stop m
  | succ n ih =>
    rw [program, Parser.program]
    apply Along.step (fun _ => .peek (.pure _ _))
    intro t m₁ h₁
    apply Along.since h₁
    apply Along.ite
    · exact .pure (.empty rfl (.refl m₁))
    · apply (declaration_along n m₁).bind
      intro x o m₂ h₂ hx
      cases hx with
      | none => exact .since h₂ (ih m₂)
      | some hx =>
        apply (ih m₂).map
        intro xs ss m₃ h₃ hxs
        exact hx.join hxs rfl

end Maker

/-- The parser that makes nodes at addresses returns what the parser returns. No two of its nodes have
one address, and no two have one mark. -/
theorem Made.ofTokens_fits (tokens : List Token) :
    (ofTokens tokens).tree = (Parsed.ofTokens tokens).statements ∧
      (ofTokens tokens).places.map Prod.fst = Stmt.nodesAll (Parsed.ofTokens tokens).statements ∧
      (Maker.addresses (ofTokens tokens).places).Nodup ∧
      (Maker.marks (ofTokens tokens).places).Nodup := by
  have hruns := Maker.program_along (Parser.steps tokens) ⟨Parser.start tokens, 0⟩
  unfold Maker.Along at hruns
  unfold ofTokens Parsed.ofTokens EStateM.run
  generalize Maker.program _ _ = r, Parser.program _ _ = r' at hruns ⊢
  cases hruns with
  | ok _ hx => exact ⟨hx.tree, hx.nodes, hx.within.addresses.nodup, hx.within.marks.nodup⟩
  | error _ => exact ⟨rfl, rfl, List.nodup_nil, List.nodup_nil⟩

end LoxLang
