import LoxLang.Proofs.Parser.ExpressionSound

namespace LoxLang

namespace Grammar
set_option autoImplicit true

def starters : List Token.Kind :=
  [.false_, .true_, .nil, .number, .string, .this, .identifier, .super, .leftParen, .bang, .minus]

def Started (ts : List Token) : Prop := ∃ t us, ts = t :: us ∧ t.kind ∈ starters

theorem Started.append (h : Started ts) (us : List Token) : Started (ts ++ us) := by
  obtain ⟨t, vs, rfl, ht⟩ := h
  exact ⟨t, vs ++ us, rfl, ht⟩

theorem Started.of_kind (h : t.kind = k) (hk : k ∈ starters) : Started (t :: ts) :=
  ⟨t, ts, rfl, h ▸ hk⟩

theorem Derives.started (h : Derives r ts e) : Started ts := by
  induction h using Derives.rec (motive_2 := fun _ _ _ => True)
      (motive_3 := fun ts _ _ => Started ts) with
  | assignName hx => exact .of_kind hx (by decide)
  | noAssignment _ ih | noOr _ ih | noAnd _ ih | noEquality _ ih | noComparison _ ih | noTerm _ ih
  | noFactor _ ih | noUnary _ ih | noCall _ ih => exact ih
  | assignField _ _ _ _ _ ih | or _ _ _ ih | and _ _ _ ih | equality _ _ _ ih
  | comparison _ _ _ ih | term _ _ _ ih | factor _ _ _ ih | call _ _ _ _ _ ih
  | property _ _ _ ih => exact ih.append _
  | unary ho =>
    rcases ho with ho | ho
    · exact .of_kind ho (by decide)
    · exact .of_kind ho (by decide)
  | constant hk =>
    rcases hk with hk | hk
    · exact .of_kind hk (by decide)
    · exact .of_kind hk (by decide)
  | false_ hk | true_ hk | nil hk | this hk | name hk | super hk | grouping hk =>
    exact .of_kind hk (by decide)
  | none | some => trivial
  | one _ ih => exact ih
  | more _ _ _ ih => exact ih.append _

theorem Items.started (h : Items ts es) : Started ts := by
  cases h with
  | one he => exact he.started
  | more he => exact he.started.append _

def Rank.continuers : Rank → List Token.Kind
  | primary => []
  | call | unary => [.leftParen, .dot]
  | factor => [.slash, .star, .leftParen, .dot]
  | term => [.minus, .plus, .slash, .star, .leftParen, .dot]
  | comparison =>
    [.greater, .greaterEqual, .less, .lessEqual, .minus, .plus, .slash, .star, .leftParen, .dot]
  | equality =>
    [.bangEqual, .equalEqual, .greater, .greaterEqual, .less, .lessEqual, .minus, .plus, .slash,
      .star, .leftParen, .dot]
  | logicAnd =>
    [.and, .bangEqual, .equalEqual, .greater, .greaterEqual, .less, .lessEqual, .minus, .plus,
      .slash, .star, .leftParen, .dot]
  | logicOr =>
    [.or, .and, .bangEqual, .equalEqual, .greater, .greaterEqual, .less, .lessEqual, .minus, .plus,
      .slash, .star, .leftParen, .dot]
  | assignment =>
    [.equal, .or, .and, .bangEqual, .equalEqual, .greater, .greaterEqual, .less, .lessEqual, .minus,
      .plus, .slash, .star, .leftParen, .dot]

end Grammar

namespace Parser
set_option autoImplicit true
open Grammar

theorem Level.continuers_rank (level : Level) :
    level.rank.continuers = level.operators ++ level.operandRank.continuers := by
  cases level <;> rfl

theorem Level.operator_ends_operand {level : Level} (h : k ∈ level.operators) :
    k ∉ level.operandRank.continuers := by
  cases level <;> revert k <;> decide

theorem Before.of_started (h : Started ts) (hk : ∀ k ∈ starters, k ∉ kinds) : Before kinds ts := by
  obtain ⟨t, us, rfl, ht⟩ := h
  exact .cons (hk _ ht)

theorem Before.append (h : Before kinds ts) (us : List Token) : Before kinds (ts ++ us) := by
  obtain ⟨t, vs, rfl, ht⟩ := h
  exact .cons ht

/-- A run has come to a loop with a tree behind it and these tokens before it. -/
def Reaches (P : Parse α) (loop : Nat → Expr Mark → Parse α) (e : Expr Unit) (rest : List Token)
    (p : Parser) : Prop :=
  ∃ m c p', P p = loop m c p' ∧ Expr.erase c = e ∧ p'.left = rest ∧
    p'.diagnostics = p.diagnostics ∧ 24 * rest.length + 1 ≤ m

def CompletePrimary (ts : List Token) (e : Expr Unit) : Prop :=
  ∀ n p rest, left p = ts ++ rest → rest ≠ [] → 24 * (ts ++ rest).length + 1 ≤ n →
    Yields (primary n) Expr.erase e rest p

/-- The parser of calls comes to the end of these tokens with their tree. -/
def CompleteCall (ts : List Token) (e : Expr Unit) : Prop :=
  ∀ n p rest, left p = ts ++ rest → rest ≠ [] → 24 * (ts ++ rest).length + 1 ≤ n →
    Reaches (primary n >>= suffixes n) suffixes e rest p

def CompleteUnary (ts : List Token) (e : Expr Unit) : Prop :=
  ∀ n p rest, left p = ts ++ rest → Before Rank.unary.continuers rest →
    24 * (ts ++ rest).length + 2 ≤ n → Yields (unary n) Expr.erase e rest p

def CompleteOperand (level : Level) (ts : List Token) (e : Expr Unit) : Prop :=
  ∀ n p rest, left p = ts ++ rest → Before level.operandRank.continuers rest →
    24 * (ts ++ rest).length + 2 * level.depth + 3 ≤ n →
    Yields (operand n level) Expr.erase e rest p

/-- The parser of chains at a level comes to the end of these tokens with their tree. -/
def CompleteChain (level : Level) (ts : List Token) (e : Expr Unit) : Prop :=
  ∀ n p rest, left p = ts ++ rest → Before level.operandRank.continuers rest →
    24 * (ts ++ rest).length + 2 * level.depth + 4 ≤ n →
    Reaches (climb n level) (fun m c => chain m level c) e rest p

def CompleteAssignment (ts : List Token) (e : Expr Unit) : Prop :=
  ∀ n p rest, left p = ts ++ rest → Before Rank.assignment.continuers rest →
    24 * (ts ++ rest).length + 15 ≤ n → Yields (assignment n) Expr.erase e rest p

theorem CompletePrimary.call (h : CompletePrimary ts e) : CompleteCall ts e := by
  intro n p rest hl hr hn
  obtain ⟨c, p', hc, he, hl', hd⟩ := h n p rest hl hr hn
  refine ⟨n, c, p', bind_ok hc, he, hl', hd, ?_⟩
  rw [List.length_append] at hn
  omega

theorem CompleteCall.unary (h : CompleteCall ts e) (hnot : Before [.bang, .minus] ts) :
    CompleteUnary ts e := by
  intro n p rest hl hr hn
  obtain ⟨n, rfl⟩ : ∃ m, n = m + 1 := ⟨n - 1, by omega⟩
  obtain ⟨m, c, p', hc, he, hl', hd, hm⟩ := h n p rest hl hr.ne_nil (by omega)
  rw [Parser.unary]
  refine Yields.pass hl (hnot.append rest) ?_
  · refine Yields.run hc hd ?_
    obtain ⟨m, rfl⟩ : ∃ j, m = j + 1 := ⟨m - 1, by omega⟩
    rw [Parser.suffixes]
    exact .pass hl' hr (.pure hl' he)

theorem CompleteUnary.operand (h : CompleteUnary ts e) : CompleteOperand .factor ts e := by
  intro n p rest hl hr hn
  obtain ⟨n, rfl⟩ : ∃ m, n = m + 1 := ⟨n - 1, by omega⟩
  rw [Parser.operand]
  exact h n p rest hl hr (by simp only [Level.depth] at hn; omega)

theorem CompleteOperand.chain {level : Level} (h : CompleteOperand level ts e) :
    CompleteChain level ts e := by
  intro n p rest hl hr hn
  obtain ⟨n, rfl⟩ : ∃ m, n = m + 1 := ⟨n - 1, by omega⟩
  obtain ⟨c, p', hc, he, hl', hd⟩ := h n p rest hl hr (by omega)
  rw [climb]
  refine ⟨n, c, p', bind_ok hc, he, hl', hd, ?_⟩
  rw [List.length_append] at hn
  omega

theorem CompleteChain.yields {level : Level} (h : CompleteChain level ts e)
    (hl : left p = ts ++ rest) (hr : Before level.rank.continuers rest)
    (hn : 24 * (ts ++ rest).length + 2 * level.depth + 4 ≤ n) :
    Yields (climb n level) Expr.erase e rest p := by
  rw [Level.continuers_rank] at hr
  obtain ⟨m, c, p', hc, he, hl', hd, hm⟩ :=
    h n p rest hl (hr.mono fun k hk => List.mem_append_right _ hk) hn
  refine Yields.run hc hd ?_
  obtain ⟨m, rfl⟩ : ∃ j, m = j + 1 := ⟨m - 1, by omega⟩
  rw [Parser.chain]
  exact .pass hl' (hr.mono fun k hk => List.mem_append_left _ hk) (.pure hl' he)

theorem CompleteChain.operand {level next : Level} (h : CompleteChain next ts e)
    (hnext : level.tighter = some next) : CompleteOperand level ts e := by
  intro n p rest hl hr hn
  obtain ⟨hrank, hdepth⟩ := Level.tighter_some hnext
  obtain ⟨n, rfl⟩ : ∃ m, n = m + 1 := ⟨n - 1, by omega⟩
  rw [Parser.operand, hnext]
  rw [hrank] at hr
  exact h.yields hl hr (by omega)

theorem CompleteChain.join {level : Level} (hl : CompleteChain level ls l)
    (ho : op.kind ∈ level.operators) (hr : CompleteOperand level rs r)
    (he : ∀ l' r', Expr.erase l' = l → Expr.erase r' = r → (level.join l' op r').erase = e) :
    CompleteChain level (ls ++ op :: rs) e := by
  intro n p rest hp hrest hn
  have hp' : left p = ls ++ (op :: (rs ++ rest)) := by simp [hp]
  have hlen : (ls ++ op :: rs ++ rest).length = (ls ++ op :: (rs ++ rest)).length := by simp
  rw [hlen] at hn
  obtain ⟨m, c, p₁, hc, hel, hl₁, hd₁, hm⟩ :=
    hl n p _ hp' (.cons (Level.operator_ends_operand ho)) hn
  obtain ⟨m, rfl⟩ : ∃ j, m = j + 1 := ⟨m - 1, by omega⟩
  have hne : rs ++ rest ≠ [] := List.append_ne_nil_of_right_ne_nil _ hrest.ne_nil
  have hdepth : level.depth ≤ 5 := by cases level <;> decide
  have hneof : op.kind ≠ .eof := by
    intro h
    rw [h] at ho
    cases level <;> simp [Level.operators] at ho
  rw [List.length_cons] at hm
  obtain ⟨d, p₂, hd, her, hl₂, hd₂⟩ :=
    hr m p₁.skip rest (left_skip_of hl₁ hneof hne) hrest (by omega)
  have hrun : Parser.chain (m + 1) level c p₁ = Parser.chain m level (level.join c op d) p₂ := by
    have ha : accept level.operators p₁ = .ok (some op) p₁.skip := by
      have hcur := current_eq hl₁
      subst hcur
      rw [accept_run, if_pos ⟨hneof, ho⟩]
    rw [Parser.chain, bind_ok ha]
    exact bind_ok hd
  refine ⟨m, _, p₂, hc.trans hrun, he c d hel her, hl₂, hd₂.trans hd₁, ?_⟩
  rw [List.length_append] at hm
  omega

theorem CompleteUnary.chain (h : CompleteUnary ts e) : CompleteChain .or ts e := by
  have hfactor : CompleteChain .factor ts e := h.operand.chain
  have hterm : CompleteChain .term ts e := (hfactor.operand rfl).chain
  have hcomparison : CompleteChain .comparison ts e := (hterm.operand rfl).chain
  have hequality : CompleteChain .equality ts e := (hcomparison.operand rfl).chain
  have hand : CompleteChain .and ts e := (hequality.operand rfl).chain
  exact (hand.operand rfl).chain

theorem CompleteChain.assignment (h : CompleteChain .or ts e) : CompleteAssignment ts e := by
  intro n p rest hl hr hn
  obtain ⟨n, rfl⟩ : ∃ m, n = m + 1 := ⟨n - 1, by omega⟩
  rw [Parser.assignment]
  have hor : Before Rank.logicOr.continuers rest := hr.mono (by decide)
  refine (h.yields hl hor (by simp only [Level.depth]; omega)).bind fun c p₁ he hl₁ => ?_
  exact .pass hl₁ (hr.mono (by decide)) (.pure hl₁ he)

def assigned? (target value : Expr Unit) : Option (Expr Unit) :=
  match target with
  | .var ref => some (.assign ref value)
  | .get o x => some (.set o x value)
  | _ => none

theorem CompleteChain.assign (ht : CompleteChain .or ts t) (hk : equals.kind = .equal)
    (hv : CompleteAssignment us v) (he : assigned? t v = some e) :
    CompleteAssignment (ts ++ equals :: us) e := by
  intro n p rest hl hr hn
  have hl' : left p = ts ++ (equals :: (us ++ rest)) := by simp [hl]
  have hlen : (ts ++ equals :: us ++ rest).length = (ts ++ equals :: (us ++ rest)).length := by simp
  rw [hlen] at hn
  obtain ⟨n, rfl⟩ : ∃ m, n = m + 1 := ⟨n - 1, by omega⟩
  rw [Parser.assignment]
  have hor : Before Rank.logicOr.continuers (equals :: (us ++ rest)) :=
    .cons (by rw [hk]; decide)
  refine (ht.yields hl' hor (by simp only [Level.depth]; omega)).bind fun c p₁ hc hl₁ => ?_
  have hne : us ++ rest ≠ [] := List.append_ne_nil_of_right_ne_nil _ hr.ne_nil
  refine Yields.accept hl₁ hne (by rw [hk]; decide) (by rw [hk]; decide) fun p₂ hl₂ => ?_
  rw [List.length_append, List.length_cons] at hn
  refine (hv n p₂ rest hl₂ hr (by omega)).bind fun d p₃ hd hl₃ => ?_
  subst hc hd
  cases c with
  | var ref => exact .pure hl₃ (Option.some.inj he)
  | get o x => exact .pure hl₃ (Option.some.inj he)
  | _ => cases he

theorem CompleteUnary.unary (ho : op.kind = .bang ∨ op.kind = .minus) (h : CompleteUnary ts e) :
    CompleteUnary (op :: ts) (.unary op e) := by
  intro n p rest hl hr hn
  obtain ⟨n, rfl⟩ : ∃ m, n = m + 1 := ⟨n - 1, by omega⟩
  rw [Parser.unary]
  have hne : ts ++ rest ≠ [] := List.append_ne_nil_of_right_ne_nil _ hr.ne_nil
  have hk : op.kind ∈ [Token.Kind.bang, .minus] := by simpa using ho
  have hneof : op.kind ≠ .eof := by
    intro h
    rw [h] at hk
    exact absurd hk (by decide)
  refine Yields.accept hl hne hneof hk fun p₁ hl₁ => ?_
  rw [List.cons_append, List.length_cons] at hn
  refine (h n p₁ rest hl₁ hr (by omega)).bind fun c p₂ hc hl₂ => ?_
  exact .pure hl₂ (hc ▸ rfl)

theorem CompleteCall.property (h : CompleteCall os o) (hd : dot.kind = .dot)
    (hx : x.kind = .identifier) : CompleteCall (os ++ [dot, x]) (.get o x) := by
  intro n p rest hl hr hn
  have hl' : left p = os ++ (dot :: x :: rest) := by simp [hl]
  have hlen : (os ++ [dot, x] ++ rest).length = (os ++ (dot :: x :: rest)).length := by simp
  rw [hlen] at hn
  obtain ⟨m, c, p₁, hc, he, hl₁, hd₁, hm⟩ := h n p _ hl' (List.cons_ne_nil _ _) hn
  obtain ⟨m, rfl⟩ : ∃ j, m = j + 1 := ⟨m - 1, by omega⟩
  have hrun : suffixes (m + 1) c p₁ = suffixes m (.get c x) p₁.skip.skip := by
    have ha : accept [.leftParen, .dot] p₁ = .ok (some dot) p₁.skip :=
      accept_some hl₁ (by rw [hd]; decide) (by rw [hd]; decide)
    have hl₂ : p₁.skip.left = x :: rest := left_skip hl₁ (by rw [hd]; decide)
    obtain ⟨u, us, rfl⟩ := List.exists_cons_of_ne_nil hr
    rw [suffixes, bind_ok ha]
    simp only [hd]
    exact bind_ok (expect_ok hl₂ (by rw [hx]; decide) hx)
  refine ⟨m, .get c x, p₁.skip.skip, hc.trans hrun, he ▸ rfl, ?_, hd₁, ?_⟩
  · have hl₂ : p₁.skip.left = x :: rest := left_skip hl₁ (by rw [hd]; decide)
    exact left_skip_of hl₂ (by rw [hx]; decide) hr
  · rw [List.length_cons, List.length_cons] at hm
    omega

def CompleteItems (ts : List Token) (es : List (Expr Unit)) : Prop :=
  ∀ n count p rest, left p = ts ++ rest → Before (.comma :: Rank.assignment.continuers) rest →
    count + es.length ≤ limit → 24 * (ts ++ rest).length + 16 ≤ n →
    Yields (arguments n count) (List.map Expr.erase) es rest p

theorem CompleteAssignment.item (h : CompleteAssignment ts e) : CompleteItems ts [e] := by
  intro n count p rest hl hr hcount hn
  obtain ⟨n, rfl⟩ : ∃ m, n = m + 1 := ⟨n - 1, by omega⟩
  have hle : ¬ maxArguments ≤ count := by
    simp only [List.length_singleton, limit] at hcount
    simp only [maxArguments]
    omega
  rw [arguments, if_neg hle]
  have hexpr : Before Rank.assignment.continuers rest :=
    hr.mono fun k hk => List.mem_cons_of_mem _ hk
  refine (h n p rest hl hexpr (by omega)).bind fun c p₁ hc hl₁ => ?_
  exact .pass hl₁ (hr.mono (by decide)) (.pure hl₁ (hc ▸ rfl))

theorem CompleteAssignment.items (h : CompleteAssignment ts e) (hk : comma.kind = .comma)
    (hes : CompleteItems us es) : CompleteItems (ts ++ comma :: us) (e :: es) := by
  intro n count p rest hl hr hcount hn
  have hl' : left p = ts ++ (comma :: (us ++ rest)) := by simp [hl]
  have hlen : (ts ++ comma :: us ++ rest).length = (ts ++ comma :: (us ++ rest)).length := by simp
  rw [hlen] at hn
  rw [List.length_cons] at hcount
  obtain ⟨n, rfl⟩ : ∃ m, n = m + 1 := ⟨n - 1, by omega⟩
  have hle : ¬ maxArguments ≤ count := by
    simp only [limit] at hcount
    simp only [maxArguments]
    omega
  rw [arguments, if_neg hle]
  have hexpr : Before Rank.assignment.continuers (comma :: (us ++ rest)) :=
    .cons (by rw [hk]; decide)
  refine (h n p _ hl' hexpr (by omega)).bind fun c p₁ hc hl₁ => ?_
  have hne : us ++ rest ≠ [] := List.append_ne_nil_of_right_ne_nil _ hr.ne_nil
  refine Yields.accept hl₁ hne (by rw [hk]; decide) (by rw [hk]; decide) fun p₂ hl₂ => ?_
  rw [List.length_append, List.length_cons] at hn
  refine (hes n (count + 1) p₂ rest hl₂ hr (by omega) (by omega)).bind fun cs p₃ hcs hl₃ => ?_
  exact .pure hl₃ (by rw [List.map_cons, hc, hcs])

theorem sees_join (A B : Parse α) (J : α → Parse β) :
    (sees kinds >>= fun b => if b = true then A >>= J else B >>= J) =
      (sees kinds >>= fun b => if b = true then A else B) >>= J := by
  rw [bind_assoc]
  congr
  funext b
  cases b <;> rfl

def CompleteArguments (ts : List Token) (es : List (Expr Unit)) : Prop :=
  (ts = [] ∧ es = []) ∨ (Started ts ∧ CompleteItems ts es)

theorem CompleteArguments.run (h : CompleteArguments ts es) (hlimit : es.length ≤ limit)
    (hr : rpar.kind = .rightParen) (hl : left p = ts ++ (rpar :: rest))
    (hn : 24 * (ts ++ (rpar :: rest)).length + 16 ≤ n) :
    Yields (sees [.rightParen] >>= fun b => if b then Pure.pure [] else arguments n 0)
      (List.map Expr.erase) es (rpar :: rest) p := by
  rcases h with ⟨rfl, rfl⟩ | ⟨hs, hes⟩
  · exact .sees hl (by rw [hr]; decide) (by rw [hr]; decide) (.pure hl rfl)
  · have hb : Before [.rightParen] (ts ++ (rpar :: rest)) :=
      (Before.of_started hs (by decide)).append _
    refine Yields.overlook hl hb ?_
    exact hes n 0 p _ hl (.cons (by rw [hr]; decide)) (by omega) hn

theorem CompleteCall.call (h : CompleteCall fs f) (hlp : lpar.kind = .leftParen)
    (ha : CompleteArguments ts args) (hlimit : args.length ≤ limit) (hr : rpar.kind = .rightParen) :
    CompleteCall (fs ++ lpar :: (ts ++ [rpar])) (.call f rpar args) := by
  intro n p rest hl hrest hn
  have hl' : left p = fs ++ (lpar :: (ts ++ (rpar :: rest))) := by simp [hl]
  have hlen : (fs ++ lpar :: (ts ++ [rpar]) ++ rest).length =
      (fs ++ (lpar :: (ts ++ (rpar :: rest)))).length := by simp
  rw [hlen] at hn
  obtain ⟨m, c, p₁, hc, he, hl₁, hd₁, hm⟩ := h n p _ hl' (List.cons_ne_nil _ _) hn
  rw [List.length_cons] at hm
  obtain ⟨m, rfl⟩ : ∃ j, m = j + 1 := ⟨m - 1, by omega⟩
  have hne : ts ++ (rpar :: rest) ≠ [] := by simp
  have hl₂ : p₁.skip.left = ts ++ (rpar :: rest) := left_skip_of hl₁ (by rw [hlp]; decide) hne
  obtain ⟨cs, p₂, hargs, hcs, hl₃, hd₃⟩ := ha.run (n := m) hlimit hr hl₂ (by omega)
  obtain ⟨u, us, rfl⟩ := List.exists_cons_of_ne_nil hrest
  have hparen : expect .rightParen "Expect ')' after arguments." p₂ = .ok rpar p₂.skip :=
    expect_ok hl₃ (by rw [hr]; decide) hr
  have hrun : suffixes (m + 1) c p₁ = suffixes m (.call c rpar cs) p₂.skip := by
    have haccept : accept [.leftParen, .dot] p₁ = .ok (some lpar) p₁.skip := by
      have hcur := current_eq hl₁
      subst hcur
      rw [accept_run, if_pos ⟨by rw [hlp]; decide, by rw [hlp]; decide⟩]
    rw [suffixes, bind_ok haccept]
    simp only [hlp, ↓reduceIte]
    rw [sees_join, bind_ok hargs]
    exact bind_ok hparen
  refine ⟨m, .call c rpar cs, p₂.skip, hc.trans hrun, ?_, ?_, hd₃.trans hd₁, ?_⟩
  · rw [Expr.erase_call, he, hcs]
  · exact left_skip hl₃ (by rw [hr]; decide)
  · rw [List.length_append, List.length_cons] at hm
    omega

/-- A primary is told by its first token, behind which its own parser goes on. -/
theorem CompletePrimary.of_head {Q : Nat → Parse (Expr Mark)} (ht : t.kind ≠ .eof)
    (hrun : ∀ n p, p.cursor.current = t → primary (n + 1) p = (advance >>= fun _ => Q n) p)
    (hQ : ∀ n p rest, left p = us ++ rest → rest ≠ [] → 24 * (us ++ rest).length + 24 ≤ n →
      Yields (Q n) Expr.erase e rest p) : CompletePrimary (t :: us) e := by
  intro n p rest hl hr hn
  rw [List.cons_append, List.length_cons] at hn
  obtain ⟨n, rfl⟩ : ∃ m, n = m + 1 := ⟨n - 1, by omega⟩
  refine Yields.run (hrun n p (current_eq hl)) rfl ?_
  have hne : us ++ rest ≠ [] := List.append_ne_nil_of_right_ne_nil _ hr
  exact Yields.advance hl hne ht fun p₁ hl₁ => hQ n p₁ rest hl₁ hr (by omega)

theorem CompletePrimary.of_token {c : Expr Mark} (ht : t.kind ≠ .eof)
    (hrun : ∀ n p, p.cursor.current = t → primary (n + 1) p = (advance >>= fun _ => pure c) p) :
    CompletePrimary [t] c.erase :=
  .of_head ht hrun fun _ _ _ hl _ _ => .pure hl rfl

theorem CompletePrimary.constant (hk : t.kind = .number ∨ t.kind = .string) :
    CompletePrimary [t] (.literal t.literal) := by
  refine .of_token (c := .literal t.literal) ?_ fun n p hc => ?_
  · rcases hk with hk | hk <;> rw [hk] <;> decide
  · rw [primary, bind_ok (peek_run p), hc]
    rcases hk with hk | hk <;> simp only [hk]

theorem CompletePrimary.this (hk : t.kind = .this) : CompletePrimary [t] (.this ⟨t, ()⟩) := by
  refine .of_head (Q := fun _ => refer t >>= fun ref => pure (.this ref)) (by rw [hk]; decide)
    (fun n p hc => ?_) fun n p rest hl _ _ => ?_
  · rw [primary, bind_ok (peek_run p), hc]
    simp only [hk]
  · exact .refer hl fun mark p₁ hl₁ => .pure hl₁ rfl

theorem CompletePrimary.name (hk : t.kind = .identifier) :
    CompletePrimary [t] (.var ⟨t, ()⟩) := by
  refine .of_head (Q := fun _ => refer t >>= fun ref => pure (.var ref)) (by rw [hk]; decide)
    (fun n p hc => ?_) fun n p rest hl _ _ => ?_
  · rw [primary, bind_ok (peek_run p), hc]
    simp only [hk]
  · exact .refer hl fun mark p₁ hl₁ => .pure hl₁ rfl

theorem CompletePrimary.super (hk : t.kind = .super) (hd : dot.kind = .dot)
    (hx : x.kind = .identifier) : CompletePrimary [t, dot, x] (.super ⟨t, ()⟩ x) := by
  refine .of_head (Q := fun _ => expect .dot "Expect '.' after 'super'." >>= fun _ =>
      expect .identifier "Expect superclass method name." >>= fun method =>
      refer t >>= fun ref => pure (.super ref method)) (by rw [hk]; decide)
    (fun n p hc => ?_) fun n p rest hl hr _ => ?_
  · rw [primary, bind_ok (peek_run p), hc]
    simp only [hk]
  · refine Yields.expect hl (List.cons_ne_nil _ _) hd (by decide) fun p₁ hl₁ => ?_
    refine Yields.expect hl₁ hr hx (by decide) fun p₂ hl₂ => ?_
    exact .refer hl₂ fun mark p₃ hl₃ => .pure hl₃ rfl

theorem CompletePrimary.grouping {lpar rpar : Token} {ts : List Token} {e : Expr Unit}
    (hlp : lpar.kind = .leftParen) (h : CompleteAssignment ts e)
    (hr : rpar.kind = .rightParen) : CompletePrimary (lpar :: (ts ++ [rpar])) (.grouping e) := by
  refine .of_head (Q := fun n => Parser.assignment n >>= fun e =>
      expect .rightParen "Expect ')' after expression." >>= fun _ => pure (.grouping e))
    (by rw [hlp]; decide) (fun n p hc => ?_) fun n p rest hl hrest hn => ?_
  · rw [primary, bind_ok (peek_run p), hc]
    simp only [hlp]
  · have hl' : left p = ts ++ (rpar :: rest) := by simp [hl]
    have hlen : (ts ++ [rpar] ++ rest).length = (ts ++ (rpar :: rest)).length := by simp
    refine (h n p _ hl' (.cons (by rw [hr]; decide)) (by omega)).bind fun c p₁ hc hl₁ => ?_
    refine Yields.expect hl₁ hrest hr (by decide) fun p₂ hl₂ => ?_
    exact .pure hl₂ (hc ▸ rfl)

def Complete : Rank → List Token → Expr Unit → Prop
  | .assignment => CompleteAssignment
  | .logicOr => CompleteChain .or
  | .logicAnd => CompleteChain .and
  | .equality => CompleteChain .equality
  | .comparison => CompleteChain .comparison
  | .term => CompleteChain .term
  | .factor => CompleteChain .factor
  | .unary => CompleteUnary
  | .call => CompleteCall
  | .primary => CompletePrimary

end Parser

namespace Grammar
set_option autoImplicit true
open LoxLang.Parser

theorem Derives.call_head (h : Derives r ts e) :
    r = .call ∨ r = .primary → Before [.bang, .minus] ts := by
  induction h using Derives.rec (motive_2 := fun _ _ _ => True) (motive_3 := fun _ _ _ => True) with
  | call _ _ _ _ _ ih | property _ _ _ ih => exact fun _ => (ih (.inl rfl)).append _
  | noCall _ ih => exact fun _ => ih (.inr rfl)
  | false_ hk | true_ hk | nil hk | this hk | name hk | super hk | grouping hk =>
    exact fun _ => .cons (by rw [hk]; decide)
  | constant hk => exact fun _ => .cons (by rcases hk with hk | hk <;> rw [hk] <;> decide)
  | none | some | one | more => trivial
  | _ =>
    intro h
    cases h with
    | inl h => cases h
    | inr h => cases h

theorem Derives.complete (h : Derives r ts e) : Complete r ts e := by
  induction h using Derives.rec (motive_2 := fun ts es _ => CompleteArguments ts es)
      (motive_3 := fun ts es _ => CompleteItems ts es) with
  | assignName hx hk _ ihv =>
    have hname : CompleteCall [_] _ := (CompletePrimary.name hx).call
    exact (hname.unary (.cons (by rw [hx]; decide))).chain.assign hk ihv rfl
  | assignField ho hd hx hk _ iho ihv =>
    have htarget := iho.property hd hx
    have h := (htarget.unary ((ho.call_head (.inl rfl)).append _)).chain.assign hk ihv rfl
    rw [List.append_assoc] at h
    exact h
  | noAssignment _ ih => exact ih.assignment
  | or _ ho _ ihl ihr =>
    exact ihl.join (List.mem_singleton.2 ho) (ihr.operand rfl) fun _ _ hl hr => hl ▸ hr ▸ rfl
  | noOr _ ih => exact (ih.operand rfl).chain
  | and _ ho _ ihl ihr =>
    exact ihl.join (List.mem_singleton.2 ho) (ihr.operand rfl) fun _ _ hl hr => hl ▸ hr ▸ rfl
  | noAnd _ ih => exact (ih.operand rfl).chain
  | equality _ ho _ ihl ihr =>
    exact ihl.join (by simpa [Level.operators] using ho) (ihr.operand rfl)
      fun _ _ hl hr => hl ▸ hr ▸ rfl
  | noEquality _ ih => exact (ih.operand rfl).chain
  | comparison _ ho _ ihl ihr =>
    exact ihl.join (by simpa [Level.operators] using ho) (ihr.operand rfl)
      fun _ _ hl hr => hl ▸ hr ▸ rfl
  | noComparison _ ih => exact (ih.operand rfl).chain
  | term _ ho _ ihl ihr =>
    exact ihl.join (by simpa [Level.operators] using ho) (ihr.operand rfl)
      fun _ _ hl hr => hl ▸ hr ▸ rfl
  | noTerm _ ih => exact (ih.operand rfl).chain
  | factor _ ho _ ihl ihr =>
    exact ihl.join (by simpa [Level.operators] using ho) ihr.operand fun _ _ hl hr => hl ▸ hr ▸ rfl
  | noFactor _ ih => exact ih.operand.chain
  | unary ho _ ih => exact ih.unary ho
  | noUnary h ih => exact ih.unary (h.call_head (.inl rfl))
  | call _ hlp _ hlimit hr ihf iha => exact ihf.call hlp iha hlimit hr
  | property _ hd hx ih => exact ih.property hd hx
  | noCall _ ih => exact ih.call
  | false_ hk =>
    refine CompletePrimary.of_token (c := .literal (some (.bool false))) (by rw [hk]; decide)
      fun n p hc => ?_
    rw [primary, bind_ok (peek_run p), hc]
    simp only [hk]
  | true_ hk =>
    refine CompletePrimary.of_token (c := .literal (some (.bool true))) (by rw [hk]; decide)
      fun n p hc => ?_
    rw [primary, bind_ok (peek_run p), hc]
    simp only [hk]
  | nil hk =>
    refine CompletePrimary.of_token (c := .literal none) (by rw [hk]; decide) fun n p hc => ?_
    rw [primary, bind_ok (peek_run p), hc]
    simp only [hk]
  | constant hk => exact .constant hk
  | this hk => exact .this hk
  | name hk => exact .name hk
  | super hk hd hx => exact .super hk hd hx
  | grouping hlp _ hr ih => exact .grouping hlp ih hr
  | none => exact .inl ⟨rfl, rfl⟩
  | some h ih => exact .inr ⟨h.started, ih⟩
  | one _ ih => exact ih.item
  | more _ hk _ ihe ihes => exact ihe.items hk ihes

theorem Derives.yields (h : Derives .assignment ts e) (hl : left p = ts ++ rest)
    (hr : Before Rank.assignment.continuers rest) (hn : 24 * (ts ++ rest).length + 15 ≤ n) :
    Yields (Parser.assignment n) Expr.erase e rest p :=
  h.complete n p rest hl hr hn

end Grammar

end LoxLang
