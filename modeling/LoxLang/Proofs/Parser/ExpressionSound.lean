import LoxLang.Proofs.Grammar
import LoxLang.Proofs.Parser.Outcome

namespace LoxLang

namespace Parser

def Level.rank : Level → Grammar.Rank
  | or => .logicOr
  | and => .logicAnd
  | equality => .equality
  | comparison => .comparison
  | term => .term
  | factor => .factor

def Level.operandRank : Level → Grammar.Rank
  | or => .logicAnd
  | and => .equality
  | equality => .comparison
  | comparison => .term
  | term => .factor
  | factor => .unary

def Level.depth : Level → Nat
  | or => 5
  | and => 4
  | equality => 3
  | comparison => 2
  | term => 1
  | factor => 0

theorem Level.tighter_some {level next : Level} (h : level.tighter = some next) :
    level.operandRank = next.rank ∧ level.depth = next.depth + 1 := by
  cases level <;> cases h <;> exact ⟨rfl, rfl⟩

theorem Level.tighter_none {level : Level} (h : level.tighter = none) :
    level.operandRank = .unary := by
  cases level <;> cases h
  rfl

end Parser

namespace Grammar
set_option autoImplicit true
open LoxLang.Parser (Level)

theorem Derives.operand {level : Level} (h : Derives level.operandRank ts e) :
    Derives level.rank ts e := by
  cases level with
  | or => exact .noOr h
  | and => exact .noAnd h
  | equality => exact .noEquality h
  | comparison => exact .noComparison h
  | term => exact .noTerm h
  | factor => exact .noFactor h

theorem Derives.join {level : Level} {l r : Expr Mark} (hl : Derives level.rank ls l.erase)
    (ho : op.kind ∈ level.operators) (hr : Derives level.operandRank rs r.erase) :
    Derives level.rank (ls ++ op :: rs) (level.join l op r).erase := by
  cases level with
  | or => exact .or hl (by simpa [Level.operators] using ho) hr
  | and => exact .and hl (by simpa [Level.operators] using ho) hr
  | equality => exact .equality hl (by simpa [Level.operators] using ho) hr
  | comparison => exact .comparison hl (by simpa [Level.operators] using ho) hr
  | term => exact .term hl (by simpa [Level.operators] using ho) hr
  | factor => exact .factor hl (by simpa [Level.operators] using ho) hr

theorem Derives.name_inv (h : Derives r ts e) :
    ∀ ref, e = .var ref → ts = [ref.name] ∧ ref.name.kind = .identifier := by
  induction h using Derives.rec (motive_2 := fun _ _ _ => True) (motive_3 := fun _ _ _ => True) with
  | name hk =>
    intro ref he
    cases he
    exact ⟨rfl, hk⟩
  | noAssignment _ ih | noOr _ ih | noAnd _ ih | noEquality _ ih | noComparison _ ih | noTerm _ ih
  | noFactor _ ih | noUnary _ ih | noCall _ ih => exact ih
  | none | some | one | more => trivial
  | _ =>
    intro _ he
    cases he

theorem Derives.property_inv (h : Derives r ts e) :
    ∀ o x, e = .get o x → ∃ os dot, ts = os ++ [dot, x] ∧ Derives .call os o ∧
      dot.kind = .dot ∧ x.kind = .identifier := by
  induction h using Derives.rec (motive_2 := fun _ _ _ => True) (motive_3 := fun _ _ _ => True) with
  | property ho hd hx =>
    intro o x he
    cases he
    exact ⟨_, _, rfl, ho, hd, hx⟩
  | noAssignment _ ih | noOr _ ih | noAnd _ ih | noEquality _ ih | noComparison _ ih | noTerm _ ih
  | noFactor _ ih | noUnary _ ih | noCall _ ih => exact ih
  | none | some | one | more => trivial
  | _ =>
    intro _ _ he
    cases he

end Grammar

namespace Parser
set_option autoImplicit true
open Grammar

-- A step that takes no token goes down the ladder, so its cost is the way that is left to go; one
-- that takes a token may start over at the top, which costs fewer than 24 steps.
mutual
theorem assignment_parses (n : Nat) (p : Parser) (hc : p.Closed)
    (hn : 24 * p.left.length + 15 ≤ n) :
    Parses (assignment n) 1 (fun ts e _ => Derives .assignment ts e.erase) p := by
  match n with
  | n + 1 =>
    rw [assignment]
    refine (climb_parses n .or p hc (by simp only [Level.depth]; omega)).bind
      fun target p₁ ts hc₁ hl₁ => ?_
    refine Parses.accept hc₁ (fun equals _ hk hc₂ hl₂ => ?_) fun _ => ?_
    · refine (assignment_parses n _ hc₂ (by omega)).bind (k := 0) fun value p₃ us hc₃ _ => ?_
      have hk : equals.kind = .equal := List.mem_singleton.1 hk
      cases target with
      | var ref =>
        refine Parses.pure hc₃ fun hv ht => ?_
        obtain ⟨rfl, hx⟩ := ht.name_inv _ rfl
        rw [List.append_nil]
        exact .assignName hx hk hv
      | get o x =>
        refine Parses.pure hc₃ fun hv ht => ?_
        obtain ⟨os, dot, rfl, ho, hd, hx⟩ := ht.property_inv _ _ rfl
        rw [List.append_nil, List.append_assoc]
        exact .assignField ho hd hx hk hv
      | _ =>
      exact Parses.report hc₃ fun p₄ hc₄ _ => Parses.pure hc₄ (R := fun _ _ _ => True) trivial
    · refine Parses.pure hc₁ fun ht => ?_
      rw [List.append_nil]
      exact .noAssignment ht

theorem climb_parses (n : Nat) (level : Level) (p : Parser) (hc : p.Closed)
    (hn : 24 * p.left.length + 2 * level.depth + 4 ≤ n) :
    Parses (climb n level) 1 (fun ts e _ => Derives level.rank ts e.erase) p := by
  match n with
  | n + 1 =>
    rw [climb]
    refine (operand_parses n level p hc (by omega)).bind fun left p₁ ts hc₁ hl₁ => ?_
    refine (chain_parses n level left p₁ hc₁ (by omega)).mono (Nat.le_refl _)
      fun us e _ h ho => h ts ho.operand

theorem operand_parses (n : Nat) (level : Level) (p : Parser) (hc : p.Closed)
    (hn : 24 * p.left.length + 2 * level.depth + 3 ≤ n) :
    Parses (operand n level) 1 (fun ts e _ => Derives level.operandRank ts e.erase) p := by
  match n with
  | n + 1 =>
    rw [operand]
    split
    · rename_i next hnext
      obtain ⟨hr, hd⟩ := Level.tighter_some hnext
      rw [hr]
      exact climb_parses n next p hc (by omega)
    · rename_i hnone
      rw [Level.tighter_none hnone]
      exact unary_parses n p hc (by omega)

theorem chain_parses (n : Nat) (level : Level) (left : Expr Mark) (p : Parser) (hc : p.Closed)
    (hn : 24 * p.left.length + 1 ≤ n) :
    Parses (chain n level left) 0
      (fun ts e _ => ∀ ls, Derives level.rank ls left.erase → Derives level.rank (ls ++ ts) e.erase)
      p := by
  match n with
  | n + 1 =>
    rw [chain]
    refine Parses.accept hc (fun op _ hk hc₁ hl₁ => ?_) fun _ => ?_
    · have hd : level.depth ≤ 5 := by cases level <;> decide
      refine (operand_parses n level _ hc₁ (by omega)).bind fun right p₂ rs hc₂ hl₂ => ?_
      refine (chain_parses n level _ p₂ hc₂ (by omega)).mono (by omega) fun ts e _ h hr ls hl => ?_
      have hj := h (ls ++ op :: rs) (hl.join hk hr)
      rwa [List.append_assoc] at hj
    · refine Parses.pure hc fun ls hl => ?_
      rwa [List.append_nil]

theorem unary_parses (n : Nat) (p : Parser) (hc : p.Closed) (hn : 24 * p.left.length + 2 ≤ n) :
    Parses (unary n) 1 (fun ts e _ => Derives .unary ts e.erase) p := by
  match n with
  | n + 1 =>
    rw [unary]
    refine Parses.accept hc (fun op _ hk hc₁ hl₁ => ?_) fun _ => ?_
    · refine (unary_parses n _ hc₁ (by omega)).bind (k := 0) fun e p₂ ts hc₂ _ => ?_
      refine Parses.pure hc₂ fun he => ?_
      rw [List.append_nil]
      exact .unary (by simpa using hk) he
    · refine (primary_parses n p hc (by omega)).bind fun callee p₁ ts hc₁ hl₁ => ?_
      refine (suffixes_parses n callee p₁ hc₁ (by omega)).mono (by omega) fun us e _ h hp => ?_
      exact .noUnary (h ts (.noCall hp))

/-- The calls and properties that follow extend the call that came before. -/
theorem suffixes_parses (n : Nat) (callee : Expr Mark) (p : Parser) (hc : p.Closed)
    (hn : 24 * p.left.length + 1 ≤ n) :
    Parses (suffixes n callee) 0
      (fun ts e _ => ∀ fs, Derives .call fs callee.erase → Derives .call (fs ++ ts) e.erase) p := by
  match n with
  | n + 1 =>
    rw [suffixes]
    refine Parses.accept hc (fun t _ hk hc₁ hl₁ => ?_) fun _ => ?_
    · dsimp only
      split
      · rename_i ht
        -- the same steps follow the arguments whether there are any or not
        have hrest (args : List (Expr Mark)) (ts : List Token) (p₂ : Parser) (hc₂ : p₂.Closed)
            (hl₂ : p₂.left.length < p.left.length) :
            Parses (Parser.expect .rightParen "Expect ')' after arguments." >>= fun paren =>
                suffixes n (.call callee paren args)) 0
              (fun us e _ => Grammar.Arguments ts (args.map Expr.erase) ∧ args.length ≤ limit →
                ∀ fs, Derives .call fs callee.erase →
                  Derives .call (fs ++ t :: (ts ++ us)) e.erase) p₂ := by
          refine Parses.expect hc₂ fun paren hr hc₃ hl₃ => ?_
          refine (suffixes_parses n _ _ hc₃ (by omega)).mono (by omega) fun us e _ h ha fs hf => ?_
          have hlen : (args.map Expr.erase).length ≤ limit := by
            rw [List.length_map]
            exact ha.2
          have hcall := Derives.call hf ht ha.1 hlen hr
          rw [← Expr.erase_call] at hcall
          simpa using h _ hcall
        refine Parses.sees (fun _ _ => ?_) ?_
        · exact (hrest [] [] _ hc₁ hl₁).mono (by omega) fun us e _ h => h ⟨.none, Nat.zero_le _⟩
        · refine (arguments_parses n 0 _ hc₁ (by omega)).bind fun args p₂ ts hc₂ hl₂ => ?_
          refine (hrest args ts p₂ hc₂ (by omega)).mono (by omega) fun us e _ h ha => ?_
          exact h ⟨.some ha.1, by simpa using ha.2⟩
      · rename_i ht
        have hdot : t.kind = .dot := by simpa [ht] using hk
        refine Parses.expect hc₁ fun x hx hc₂ hl₂ => ?_
        refine (suffixes_parses n _ _ hc₂ (by omega)).mono (by omega) fun ts e _ h fs hf => ?_
        have hg := h (fs ++ [t, x]) (.property hf hdot hx)
        rwa [List.append_assoc] at hg
    · refine Parses.pure hc fun ls hl => ?_
      rwa [List.append_nil]

theorem arguments_parses (n count : Nat) (p : Parser) (hc : p.Closed)
    (hn : 24 * p.left.length + 16 ≤ n) :
    Parses (arguments n count) 1
      (fun ts es _ => Items ts (es.map Expr.erase) ∧ count + es.length ≤ limit) p := by
  match n with
  | n + 1 =>
    have hrest (p₁ : Parser) (hc₁ : p₁.Closed) (hl₁ : p₁.left = p.left) :
        Parses (assignment n >>= fun arg => accept [.comma] >>= fun o =>
            match o with
            | some _ => arguments n (count + 1) >>= fun args => Pure.pure (arg :: args)
            | none => Pure.pure [arg]) 1
          (fun ts es _ => count < limit →
            Items ts (es.map Expr.erase) ∧ count + es.length ≤ limit) p₁ := by
      refine (assignment_parses n p₁ hc₁ (by rw [hl₁]; omega)).bind fun arg p₂ ts hc₂ hl₂ => ?_
      rw [hl₁] at hl₂
      refine Parses.accept hc₂ (fun comma _ hk hc₃ hl₃ => ?_) fun _ => ?_
      · refine (arguments_parses n (count + 1) _ hc₃ (by omega)).bind (k := 0)
          fun args p₄ us hc₄ _ => ?_
        refine Parses.pure hc₄ fun ha he hlt => ?_
        rw [List.append_nil]
        refine ⟨.more he (List.mem_singleton.1 hk) ha.1, ?_⟩
        rw [List.length_cons]
        omega
      · refine Parses.pure hc₂ fun he hlt => ?_
        rw [List.append_nil]
        exact ⟨.one he, hlt⟩
    rw [arguments]
    split
    · exact Parses.peek (Parses.report hc hrest)
    · rename_i hcount
      exact (hrest p hc rfl).mono (Nat.le_refl _) fun ts es _ h => h (Nat.lt_of_not_le hcount)

theorem primary_parses (n : Nat) (p : Parser) (hc : p.Closed) (hn : 24 * p.left.length + 1 ≤ n) :
    Parses (primary n) 1 (fun ts e _ => Derives .primary ts e.erase) p := by
  match n with
  | n + 1 =>
    rw [primary]
    refine Parses.peek ?_
    split
    · rename_i hk
      exact Parses.advance hc (by rw [hk]; decide) fun hc₁ _ => Parses.pure hc₁ (.false_ hk)
    · rename_i hk
      exact Parses.advance hc (by rw [hk]; decide) fun hc₁ _ => Parses.pure hc₁ (.true_ hk)
    · rename_i hk
      exact Parses.advance hc (by rw [hk]; decide) fun hc₁ _ => Parses.pure hc₁ (.nil hk)
    · rename_i hk
      exact Parses.advance hc (by rw [hk]; decide) fun hc₁ _ =>
        Parses.pure hc₁ (.constant (.inl hk))
    · rename_i hk
      exact Parses.advance hc (by rw [hk]; decide) fun hc₁ _ =>
        Parses.pure hc₁ (.constant (.inr hk))
    · rename_i hk
      exact Parses.advance hc (by rw [hk]; decide) fun hc₁ _ =>
        Parses.refer hc₁ fun mark p₂ hc₂ _ => Parses.pure hc₂ (.this hk)
    · rename_i hk
      exact Parses.advance hc (by rw [hk]; decide) fun hc₁ _ =>
        Parses.refer hc₁ fun mark p₂ hc₂ _ => Parses.pure hc₂ (.name hk)
    · rename_i hk
      refine Parses.advance hc (by rw [hk]; decide) fun hc₁ _ => ?_
      refine Parses.expect hc₁ fun dot hdot hc₂ _ => ?_
      refine Parses.expect hc₂ fun x hx hc₃ _ => ?_
      exact Parses.refer hc₃ fun mark p₄ hc₄ _ => Parses.pure hc₄ (.super hk hdot hx)
    · rename_i hk
      refine Parses.advance hc (by rw [hk]; decide) fun hc₁ hl₁ => ?_
      refine (assignment_parses n _ hc₁ (by omega)).bind fun e p₂ ts hc₂ _ => ?_
      refine Parses.expect hc₂ fun rpar hr hc₃ _ => ?_
      exact Parses.pure hc₃ fun he => .grouping hk he hr
    · exact Parses.reject hc
end

end Parser

end LoxLang
