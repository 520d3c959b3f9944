import LoxLang.Proofs.Parser.Exact
import LoxLang.Proofs.Resolver.Marks
import LoxLang.Source.Run

namespace LoxLang
set_option autoImplicit true
open Grammar LoxLang.Parser

/-- Whether a statement can be the first clause of a `for`. -/
def Stmt.opensLoop : Stmt μ → Bool
  | .varDecl _ _ | .expression _ => true
  | _ => false

/-- Whether a statement binds a name around it, so that it cannot be the body of a loop. -/
def Stmt.isDeclaration : Stmt μ → Bool
  | .varDecl _ _ | .funDecl _ | .classDecl _ _ _ => true
  | _ => false

/-- The tokens are parsed without fault as a program of this statement only. -/
def Stmt.Sole (ts : List Token) (s : Stmt Unit) : Prop :=
  (∀ t ∈ ts, t.kind ≠ .eof) ∧ ∃ eof, eof.kind = .eof ∧
    (Parsed.ofTokens (ts ++ [eof])).diagnostics = [] ∧
    (Parsed.ofTokens (ts ++ [eof])).statements.map Stmt.erase = [s]

def Expr.Sole (ts : List Token) (e : Expr Unit) : Prop :=
  (∀ t ∈ ts, t.kind ≠ .eof) ∧ ∃ eof e', eof.kind = .eof ∧
    Expr.ofTokens (ts ++ [eof]) = (.ok e', []) ∧ e'.erase = e

theorem Stmt.Sole.declaration (h : Stmt.Sole ts s) : Declaration ts s := by
  obtain ⟨hts, eof, he, hd, hs⟩ := h
  have hall := Parsed.derives he hts hd
  rw [hs] at hall
  cases hall with
  | cons hone hnone =>
    cases hnone with
    | nil => rwa [List.append_nil]

theorem Stmt.Sole.statement (h : Stmt.Sole ts s) (hs : s.isDeclaration = false) :
    ∃ hanging, Statement hanging ts s := by
  cases h.declaration with
  | class_ | fun_ => cases hs
  | var _ hv => cases hv <;> cases hs
  | statement h => exact ⟨_, h⟩

theorem Stmt.Sole.initial (h : Stmt.Sole ts s) (hs : s.opensLoop) : Initial ts (some s) := by
  cases h.declaration with
  | class_ | fun_ => cases hs
  | var hw hv => exact .var hw hv
  | statement h =>
    cases h with
    | effect h => exact .effect h
    | for_ _ _ hi =>
      -- The tree of a loop is a `while` or a block.
      cases hi <;> cases hs
    | print | ret | block | ifThen | ifElse | while_ => cases hs

theorem Expr.ofTokens_ok {tokens : List Token} {e : Expr Mark}
    (h : Expr.ofTokens tokens = (.ok e, [])) :
    ∃ p, assignment (steps tokens) (start tokens) = .ok e p ∧ p.cursor.current.kind = .eof ∧
      p.diagnostics = [] := by
  unfold Expr.ofTokens EStateM.run at h
  dsimp only at h
  split at h
  · rename_i e' p hr
    obtain ⟨rfl, hd⟩ : e' = e ∧ p.diagnostics = [] := by simpa using h
    obtain ⟨a, q, ha, hr⟩ := ok_of_bind hr
    rw [bind_ok (peek_run q)] at hr
    split at hr
    · rename_i hk
      cases hr
      exact ⟨_, ha, hk, hd⟩
    · cases hr
  · cases h
  · cases h

theorem Expr.Sole.derives (h : Expr.Sole ts e) : Derives .assignment ts e := by
  obtain ⟨hts, eof, e', he, hrun, rfl⟩ := h
  obtain ⟨p, ha, hend, hd⟩ := Expr.ofTokens_ok hrun
  have hl := left_start ts he
  have hparse := assignment_parses (steps (ts ++ [eof])) (start (ts ++ [eof])) ⟨ts, eof, hl, he⟩
    (by rw [hl, steps]; omega)
  unfold Parses at hparse
  rw [ha] at hparse
  obtain ⟨-, us, ds, hl', -, hds, hr⟩ := hparse
  have hnone : ds = [] := (List.append_eq_nil_iff.1 (hds.symm.trans hd)).2
  have hall : us = ts := before_eof (hl.symm.trans hl') hend hts
  exact hall ▸ hr hnone

/-- The parts of a loop, of which all but the body can be left out. The first clause includes its
semicolon. -/
structure Clauses where
  initial : Option (List Token)
  condition : Option (List Token)
  step : Option (List Token)
  body : List Token

namespace Clauses

/-- Each part is parsed as the given tree, and the tree can stand in its place. -/
structure Reads (c : Clauses) (init : Option (Stmt Unit)) (condition step : Option (Expr Unit))
    (body : Stmt Unit) : Prop where
  initial : Option.Rel (fun ts s => Stmt.Sole ts s ∧ s.opensLoop) c.initial init
  condition : Option.Rel Expr.Sole c.condition condition
  step : Option.Rel Expr.Sole c.step step
  body : Stmt.Sole c.body body ∧ body.isDeclaration = false

inductive Given (k : Token.Kind) : Option (List Token) → List Token → Prop where
  | part : Given k (some ts) ts
  | token : t.kind = k → Given k none [t]

/-- The clauses in the parentheses of a `for`. -/
inductive AsFor (c : Clauses) : List Token → Prop where
  | mk {word lpar semi rpar : Token} {is : List Token} : word.kind = .for_ →
      lpar.kind = .leftParen → Given .semicolon c.initial is → semi.kind = .semicolon →
      rpar.kind = .rightParen →
      AsFor c (word :: lpar ::
        (is ++ (c.condition.getD [] ++ semi :: (c.step.getD [] ++ rpar :: c.body))))

/-- The body of the `while`: a step follows in a block. -/
inductive Stepped (body : List Token) : Option (List Token) → List Token → Prop where
  | none : Stepped body none body
  | some {lb semi rb : Token} {xs : List Token} : lb.kind = .leftBrace → semi.kind = .semicolon →
      rb.kind = .rightBrace → Stepped body (some xs) (lb :: (body ++ (xs ++ [semi]) ++ [rb]))

/-- What is around the `while`: a first clause comes before in a block. -/
inductive Opened (repeated : List Token) : Option (List Token) → List Token → Prop where
  | none : Opened repeated none repeated
  | some {lb rb : Token} {is : List Token} : lb.kind = .leftBrace → rb.kind = .rightBrace →
      Opened repeated (some is) (lb :: (is ++ repeated ++ [rb]))

/-- The same clauses around a `while`. -/
inductive AsWhile (c : Clauses) : List Token → Prop where
  | mk {word lpar rpar : Token} {cs bs ts : List Token} : word.kind = .while_ →
      lpar.kind = .leftParen → Given .true_ c.condition cs → rpar.kind = .rightParen →
      Stepped c.body c.step bs →
      Opened (word :: lpar :: (cs ++ rpar :: bs)) c.initial ts → AsWhile c ts

theorem synthetic_kind (k : Token.Kind) : (Token.synthetic k []).kind = k := rfl

theorem exists_forms (c : Clauses) : ∃ fs ws, c.AsFor fs ∧ c.AsWhile ws := by
  have hgiven (k : Token.Kind) (o : Option (List Token)) : ∃ ts, Given k o ts := by
    cases o with
    | none => exact ⟨_, .token (synthetic_kind k)⟩
    | some ts => exact ⟨ts, .part⟩
  have hstepped : ∃ bs, Stepped c.body c.step bs := by
    cases c.step with
    | none => exact ⟨_, .none⟩
    | some xs => exact ⟨_, .some (synthetic_kind _) (synthetic_kind _) (synthetic_kind _)⟩
  have hopened (ts : List Token) : ∃ us, Opened ts c.initial us := by
    cases c.initial with
    | none => exact ⟨_, .none⟩
    | some is => exact ⟨_, .some (synthetic_kind _) (synthetic_kind _)⟩
  obtain ⟨is, hi⟩ := hgiven .semicolon c.initial
  obtain ⟨cs, hc⟩ := hgiven .true_ c.condition
  obtain ⟨bs, hb⟩ := hstepped
  obtain ⟨ws, hw⟩ := hopened (.synthetic .while_ [] :: .synthetic .leftParen [] ::
    (cs ++ .synthetic .rightParen [] :: bs))
  exact ⟨_, ws, .mk (synthetic_kind _) (synthetic_kind _) hi (synthetic_kind _) (synthetic_kind _),
    .mk rfl rfl hc rfl hb hw⟩

variable {c : Clauses} {init : Option (Stmt Unit)} {condition step : Option (Expr Unit)}
  {body : Stmt Unit}

theorem Reads.initial_derives (h : Reads c init condition step body)
    (hi : Given .semicolon c.initial is) : Initial is init := by
  obtain ⟨is₀, cs₀, xs₀, bs₀⟩ := c
  cases h.initial with
  | none =>
    cases hi with
    | token hk => exact .none hk
  | some hs =>
    cases hi with
    | part => exact hs.1.initial hs.2

theorem Reads.optional (h : Option.Rel Expr.Sole o o') : Grammar.Optional (o.getD []) o' := by
  cases h with
  | none => exact .none
  | some he => exact .some he.derives

theorem AsFor.declarations (hf : AsFor c ts) (h : Reads c init condition step body) :
    Declarations ts [loop init condition step body] := by
  obtain ⟨hw, hl, hi, hs, hr⟩ := hf
  obtain ⟨hanging, hbody⟩ := h.body.1.statement h.body.2
  have hfor := Statement.for_ hw hl (h.initial_derives hi) (Reads.optional h.condition) hs
    (Reads.optional h.step) hr hbody
  rw [← List.append_nil (_ :: _)]
  exact .cons (.statement hfor) .nil

theorem Reads.condition_derives (h : Reads c init condition step body)
    (hc : Given .true_ c.condition cs) :
    Derives .assignment cs (condition.getD (.literal (some (.bool true)))) := by
  obtain ⟨is₀, cs₀, xs₀, bs₀⟩ := c
  cases h.condition with
  | none =>
    cases hc with
    | token hk =>
      exact .noAssignment (.noOr (.noAnd (.noEquality (.noComparison (.noTerm (.noFactor
        (.noUnary (.noCall (.true_ hk)))))))))
  | some he =>
    cases hc with
    | part => exact he.derives

theorem Reads.stepped (h : Reads c init condition step body)
    (hb : Stepped c.body c.step bs) : ∃ hanging, Statement hanging bs (stepped body step) := by
  obtain ⟨is₀, cs₀, xs₀, bs₀⟩ := c
  obtain ⟨hanging, hbody⟩ := h.body.1.statement h.body.2
  cases h.step with
  | none =>
    cases hb with
    | none => exact ⟨hanging, hbody⟩
  | some he =>
    cases hb with
    | some hl hs hr =>
      have hstep := Declarations.cons (.statement (.effect (.mk he.derives hs))) .nil
      rw [List.append_nil] at hstep
      exact ⟨false, .block hl (.cons (.statement hbody) hstep) hr⟩

theorem AsWhile.declarations (hw : AsWhile c ts) (h : Reads c init condition step body) :
    Declarations ts [loop init condition step body] := by
  obtain ⟨is₀, cs₀, xs₀, bs₀⟩ := c
  obtain ⟨hw, hl, hc, hr, hb, ho⟩ := hw
  obtain ⟨hanging, hbody⟩ := h.stepped hb
  have hwhile := Statement.while_ hw hl (h.condition_derives hc) hr hbody
  have hrepeated := Declarations.cons (.statement hwhile) .nil
  cases h.initial with
  | none =>
    cases ho with
    | none =>
      rw [← List.append_nil (_ :: _)]
      exact hrepeated
  | some hs =>
    cases ho with
    | some hl hr =>
      rw [List.append_nil] at hrepeated
      rw [← List.append_nil (_ :: _)]
      exact .cons (.statement (.block hl (.cons hs.1.declaration hrepeated) hr)) .nil

/-- The parts of `for (var i = a; i < b; i = c) if (i) print i;`. -/
def dangling : Clauses where
  initial := some [.synthetic .var [], .synthetic .identifier "i", .synthetic .equal [],
    .synthetic .identifier "a", .synthetic .semicolon []]
  condition := some [.synthetic .identifier "i", .synthetic .less [], .synthetic .identifier "b"]
  step := some [.synthetic .identifier "i", .synthetic .equal [], .synthetic .identifier "c"]
  body := [.synthetic .if_ [], .synthetic .leftParen [], .synthetic .identifier "i",
    .synthetic .rightParen [], .synthetic .print [], .synthetic .identifier "i",
    .synthetic .semicolon []]

theorem dangling_reads :
    dangling.Reads
      (some (.varDecl (.synthetic .identifier "i")
        (some (.var ⟨.synthetic .identifier "a", ()⟩))))
      (some (.binary (.var ⟨.synthetic .identifier "i", ()⟩) (.synthetic .less [])
        (.var ⟨.synthetic .identifier "b", ()⟩)))
      (some (.assign ⟨.synthetic .identifier "i", ()⟩ (.var ⟨.synthetic .identifier "c", ()⟩)))
      (.ifThen (.var ⟨.synthetic .identifier "i", ()⟩)
        (.print (.var ⟨.synthetic .identifier "i", ()⟩))) where
  initial := .some ⟨⟨by decide, .synthetic .eof [], rfl, by decide +kernel, rfl⟩, rfl⟩
  condition := .some ⟨by decide, .synthetic .eof [], _, rfl, rfl, rfl⟩
  step := .some ⟨by decide, .synthetic .eof [], _, rfl, rfl, rfl⟩
  body := ⟨⟨by decide, .synthetic .eof [], rfl, by decide +kernel, rfl⟩, rfl⟩

end Clauses

/-- Sources with the same faults and the same program, but for its marks, run alike. -/
theorem Source.execute_erase {s s' : Source} (hd : s'.diagnostics = s.diagnostics)
    (hp : s'.program.map Stmt.erase = s.program.map Stmt.erase) (o : Options) (m : Machine) :
    s'.execute o m = s.execute o m := by
  obtain ⟨htree, hfaults⟩ := Resolved.ofProgram_eq hp
  have hlength : s'.program.length = s.program.length := by
    simpa using congrArg List.length hp
  unfold Source.execute Source.error?
  dsimp only
  rw [hd, htree, hfaults, hlength]

namespace Parsed

/-- A `for` loop is its `while` form. Whatever the parts of a loop are read as alone, and whichever
of them are left out, both forms are parsed without fault, to the same statement but for its marks.
They are resolved to the same distances, with the same faults, and they run alike. -/
theorem ofTokens_loop {c : Clauses} {init : Option (Stmt Unit)}
    {condition step : Option (Expr Unit)} {body : Stmt Unit} {fs ws : List Token}
    {eof eof' : Token} (h : c.Reads init condition step body) (hf : c.AsFor fs)
    (hw : c.AsWhile ws) (he : eof.kind = .eof) (he' : eof'.kind = .eof) :
    ((ofTokens (fs ++ [eof])).diagnostics = [] ∧ (ofTokens (ws ++ [eof'])).diagnostics = []) ∧
    ((ofTokens (fs ++ [eof])).statements.map Stmt.erase = [loop init condition step body] ∧
      (ofTokens (ws ++ [eof'])).statements.map Stmt.erase =
        [loop init condition step body]) ∧
    ((Resolved.ofProgram (ofTokens (fs ++ [eof])).statements).tree =
        (Resolved.ofProgram (ofTokens (ws ++ [eof'])).statements).tree ∧
      (Resolved.ofProgram (ofTokens (fs ++ [eof])).statements).diagnostics =
        (Resolved.ofProgram (ofTokens (ws ++ [eof'])).statements).diagnostics) ∧
    ∀ s s' : Source, s.program = (ofTokens (fs ++ [eof])).statements →
      s'.program = (ofTokens (ws ++ [eof'])).statements → s.diagnostics = s'.diagnostics →
      ∀ o m, s.execute o m = s'.execute o m := by
  obtain ⟨hdf, hsf⟩ := of_derives he (hf.declarations h)
  obtain ⟨hdw, hsw⟩ := of_derives he' (hw.declarations h)
  have hsame := hsf.trans hsw.symm
  refine ⟨⟨hdf, hdw⟩, ⟨hsf, hsw⟩, Resolved.ofProgram_eq hsame, ?_⟩
  intro s s' hs hs' hd o m
  rw [← hs, ← hs'] at hsame
  exact Source.execute_erase hd hsame o m

/-- The loop has an `if` without `else` as its body, which its step follows in the `while` form. -/
theorem ofTokens_loop_dangling :
    ∃ fs ws : List Token, Clauses.dangling.AsFor fs ∧ Clauses.dangling.AsWhile ws ∧
      ((ofTokens (fs ++ [Token.synthetic .eof []])).diagnostics = [] ∧
        (ofTokens (ws ++ [Token.synthetic .eof []])).diagnostics = []) ∧
      (ofTokens (fs ++ [Token.synthetic .eof []])).statements.map Stmt.erase =
        (ofTokens (ws ++ [Token.synthetic .eof []])).statements.map Stmt.erase := by
  obtain ⟨fs, ws, hf, hw⟩ := Clauses.dangling.exists_forms
  have heof : (Token.synthetic .eof []).kind = .eof := rfl
  have hloop := ofTokens_loop Clauses.dangling_reads hf hw heof heof
  exact ⟨fs, ws, hf, hw, hloop.1, hloop.2.1.1.trans hloop.2.1.2.symm⟩

end Parsed

end LoxLang
