import LoxLang.Proofs.Parser.Exact
import LoxLang.Proofs.Scan.Joined

namespace LoxLang

namespace Grammar
set_option autoImplicit true

/-- A tree whose tokens stand further down. -/
def laterExpr (k : Nat) : Expr Unit → Expr Unit := Expr.map id (Token.later k)

def laterStmt (k : Nat) : Stmt Unit → Stmt Unit := Stmt.map id (Token.later k)

theorem Derives.later (k : Nat) (h : Derives r ts e) :
    Derives r (ts.map (Token.later k)) (laterExpr k e) := by
  induction h using Derives.rec
      (motive_2 := fun ts es _ => Arguments (ts.map (Token.later k)) (es.map (laterExpr k)))
      (motive_3 := fun ts es _ => Items (ts.map (Token.later k)) (es.map (laterExpr k))) with
  | assignName hx he _ ih => exact .assignName hx he ih
  | assignField _ hd hx he _ iho ihv =>
    rw [List.map_append]
    exact .assignField iho hd hx he ihv
  | noAssignment _ ih => exact .noAssignment ih
  | or _ ho _ ihl ihr =>
    rw [List.map_append]
    exact .or ihl ho ihr
  | noOr _ ih => exact .noOr ih
  | and _ ho _ ihl ihr =>
    rw [List.map_append]
    exact .and ihl ho ihr
  | noAnd _ ih => exact .noAnd ih
  | equality _ ho _ ihl ihr =>
    rw [List.map_append]
    exact .equality ihl ho ihr
  | noEquality _ ih => exact .noEquality ih
  | comparison _ ho _ ihl ihr =>
    rw [List.map_append]
    exact .comparison ihl ho ihr
  | noComparison _ ih => exact .noComparison ih
  | term _ ho _ ihl ihr =>
    rw [List.map_append]
    exact .term ihl ho ihr
  | noTerm _ ih => exact .noTerm ih
  | factor _ ho _ ihl ihr =>
    rw [List.map_append]
    exact .factor ihl ho ihr
  | noFactor _ ih => exact .noFactor ih
  | unary ho _ ih => exact .unary ho ih
  | noUnary _ ih => exact .noUnary ih
  | call _ hl _ hn hr ihf iha =>
    rw [List.map_append, List.map_cons, List.map_append, laterExpr, Expr.map, Expr.mapAll_eq]
    exact .call ihf hl iha (by rwa [List.length_map]) hr
  | property _ hd hx ih =>
    rw [List.map_append]
    exact .property ih hd hx
  | noCall _ ih => exact .noCall ih
  | false_ ht => exact .false_ ht
  | true_ ht => exact .true_ ht
  | nil ht => exact .nil ht
  | constant ht => exact .constant ht
  | this ht => exact .this ht
  | name ht => exact .name ht
  | super ht hd hx => exact .super ht hd hx
  | grouping hl _ hr ih =>
    rw [List.map_cons, List.map_append]
    exact .grouping hl ih hr
  | none => exact .none
  | some _ ih => exact .some ih
  | one _ ih => exact .one ih
  | more _ hc _ ihe ihes =>
    rw [List.map_append]
    exact .more ihe hc ihes

theorem Optional.later (k : Nat) (h : Grammar.Optional ts o) :
    Grammar.Optional (ts.map (Token.later k)) (o.map (laterExpr k)) := by
  cases h with
  | none => exact .none
  | some he => exact .some (he.later k)

theorem Effect.later (k : Nat) (h : Effect ts s) :
    Effect (ts.map (Token.later k)) (laterStmt k s) := by
  cases h with
  | mk he hs =>
    rw [List.map_append]
    exact .mk (he.later k) hs

theorem Variable.later (k : Nat) (h : Variable ts s) :
    Variable (ts.map (Token.later k)) (laterStmt k s) := by
  cases h with
  | plain hx hs => exact .plain hx hs
  | initialized hx he hd hs =>
    rw [List.map_cons, List.map_cons, List.map_append]
    exact .initialized hx he (hd.later k) hs

theorem Initial.later (k : Nat) (h : Initial ts init) :
    Initial (ts.map (Token.later k)) (init.map (laterStmt k)) := by
  cases h with
  | none hs => exact .none hs
  | var hv hd => exact .var hv (hd.later k)
  | effect he => exact .effect (he.later k)

theorem Names.later (k : Nat) (h : Names ts xs) :
    Names (ts.map (Token.later k)) (xs.map (Token.later k)) := by
  induction h with
  | one hx => exact .one hx
  | more hx hc _ ih => exact .more hx hc ih

theorem Parameters.later (k : Nat) (h : Parameters ts xs) :
    Parameters (ts.map (Token.later k)) (xs.map (Token.later k)) := by
  cases h with
  | none => exact .none
  | some hs => exact .some (hs.later k)

theorem Parent.later (k : Nat) (h : Parent ts sup) :
    Parent (ts.map (Token.later k)) (sup.map (Reference.map id (Token.later k))) := by
  cases h with
  | none => exact .none
  | some hl hx => exact .some hl hx

theorem loop_later (k : Nat) (init : Option (Stmt Unit)) (condition step : Option (Expr Unit))
    (body : Stmt Unit) :
    laterStmt k (loop init condition step body) =
      loop (init.map (laterStmt k)) (condition.map (laterExpr k)) (step.map (laterExpr k))
        (laterStmt k body) := by
  cases init <;> cases condition <;> cases step <;> rfl

theorem Declarations.later (k : Nat) (h : Declarations ts ss) :
    Declarations (ts.map (Token.later k)) (ss.map (laterStmt k)) := by
  induction h using Declarations.rec
      (motive_1 := fun b ts s _ => Statement b (ts.map (Token.later k)) (laterStmt k s))
      (motive_2 := fun ts s _ => Declaration (ts.map (Token.later k)) (laterStmt k s))
      (motive_4 := fun ts f _ =>
        Callable (ts.map (Token.later k)) (Stmt.mapRoutine id (Token.later k) f))
      (motive_5 := fun ts fs _ =>
        Methods (ts.map (Token.later k)) (fs.map (Stmt.mapRoutine id (Token.later k)))) with
  | effect h => exact .effect (h.later k)
  | print hw he hs =>
    rw [List.map_cons, List.map_append]
    exact .print hw (he.later k) hs
  | ret hw ho hs =>
    rw [List.map_cons, List.map_append]
    exact .ret hw (ho.later k) hs
  | block hl _ hr ih =>
    rw [List.map_cons, List.map_append, laterStmt, Stmt.map, Stmt.mapAll_eq]
    exact .block hl ih hr
  | ifThen hw hl hc hr _ ih =>
    rw [List.map_cons, List.map_cons, List.map_append]
    exact .ifThen hw hl (hc.later k) hr ih
  | ifElse hw hl hc hr _ he _ ihs iht =>
    rw [List.map_cons, List.map_cons, List.map_append, List.map_cons, List.map_append]
    exact .ifElse hw hl (hc.later k) hr ihs he iht
  | while_ hw hl hc hr _ ih =>
    rw [List.map_cons, List.map_cons, List.map_append]
    exact .while_ hw hl (hc.later k) hr ih
  | for_ hw hl hi hc hs hx hr _ ih =>
    rw [List.map_cons, List.map_cons, List.map_append, List.map_append, List.map_cons,
      List.map_append, List.map_cons, loop_later]
    exact .for_ hw hl (hi.later k) (hc.later k) hs (hx.later k) hr ih
  | class_ hw hx hp hl _ hr ih =>
    rw [List.map_cons, List.map_cons, List.map_append, List.map_cons, List.map_append, laterStmt,
      Stmt.map, Stmt.mapRoutines_eq]
    exact .class_ hw hx (hp.later k) hl ih hr
  | fun_ hw _ ih => exact .fun_ hw ih
  | var hw hv => exact .var hw (hv.later k)
  | statement _ ih => exact .statement ih
  | nil => exact .nil
  | cons _ _ ihs ihss =>
    rw [List.map_append]
    exact .cons ihs ihss
  | mk hx hl hp hn hr hb _ he ih =>
    rw [List.map_cons, List.map_cons, List.map_append, List.map_cons, List.map_cons,
      List.map_append, Stmt.mapRoutine, Stmt.mapAll_eq]
    exact .mk hx hl (hp.later k) (by rwa [List.length_map]) hr hb ih he
  | none => exact .none
  | more _ _ ihf ihfs =>
    rw [List.map_append]
    exact .more ihf ihfs

theorem Declarations.append (h : Declarations ts ss) (h' : Declarations us ss') :
    Declarations (ts ++ us) (ss ++ ss') := by
  induction ss generalizing ts with
  | nil =>
    cases h with
    | nil => exact h'
  | cons s ss ih =>
    cases h with
    | cons hs hss =>
      rw [List.append_assoc]
      exact .cons hs (ih hss)

end Grammar

namespace Parsed
set_option autoImplicit true
open Grammar

/-- Programs without faults that follow one another are parsed without one, and what was written is
what was written in each. -/
theorem ofTokens_joined (k : Nat) {ps qs : List Token} {eof eof' : Token} (he : eof.kind = .eof)
    (hps : ∀ t ∈ ps, t.kind ≠ .eof) (hqs : ∀ t ∈ qs, t.kind ≠ .eof)
    (hp : (ofTokens (ps ++ [eof])).diagnostics = [])
    (hq : (ofTokens (qs ++ [eof'])).diagnostics = []) (he' : eof'.kind = .eof) :
    (ofTokens (ps ++ (qs ++ [eof']).map (Token.later k))).diagnostics = [] ∧
      (ofTokens (ps ++ (qs ++ [eof']).map (Token.later k))).statements.map Stmt.erase =
        (ofTokens (ps ++ [eof])).statements.map Stmt.erase ++
          (ofTokens (qs ++ [eof'])).statements.map (Stmt.map (fun _ => ()) (Token.later k)) := by
  have hjoined := (derives he hps hp).append ((derives he' hqs hq).later k)
  have hend : (eof'.later k).kind = .eof := he'
  obtain ⟨hfaults, htrees⟩ := of_derives hend hjoined
  rw [List.append_assoc, ← List.map_singleton, ← List.map_append] at hfaults htrees
  refine ⟨hfaults, htrees.trans ?_⟩
  rw [List.map_map]
  exact congrArg _ (List.map_congr_left fun s _ => Stmt.erase_map (Token.later k) s)

end Parsed

end LoxLang
