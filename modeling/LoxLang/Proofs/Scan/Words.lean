import LoxLang.Source

namespace LoxLang

namespace Token
set_option autoImplicit true

theorem Kind.mem_keywords_of_ofWord (h : ofWord word = k) (hk : k ≠ .identifier) :
    (word, k) ∈ keywords := by
  unfold ofWord at h
  cases hl : keywords.lookup word with
  | none =>
    rw [hl] at h
    exact absurd h.symm hk
  | some k' =>
    rw [hl] at h
    obtain ⟨before, after, he, -⟩ := List.lookup_eq_some_iff.1 hl
    rw [he, ← h]
    simp

theorem Kind.ofWord_ne_eof (word : Text) : ofWord word ≠ .eof := by
  intro h
  have hm : Kind.eof ∈ keywords.map Prod.snd :=
    List.mem_map_of_mem (mem_keywords_of_ofWord h (by decide))
  exact absurd hm (by decide)

def Lexical (t : Token) : Prop :=
  (t.kind = .identifier → t.lexeme ≠ "this" ∧ t.lexeme ≠ "super") ∧
    (t.kind = .this → t.lexeme = "this") ∧ (t.kind = .super → t.lexeme = "super")

theorem Lexical.of_word {t : Token}
    (h : t.kind ∈ [Kind.identifier, .this, .super] → Kind.ofWord t.lexeme = t.kind) :
    t.Lexical := by
  refine ⟨fun hk => ?_, fun hk => ?_, fun hk => ?_⟩
  · have hw : Kind.ofWord t.lexeme = .identifier := hk ▸ h (by simp [hk])
    constructor
    · intro ht
      rw [ht] at hw
      exact absurd hw (by decide)
    · intro ht
      rw [ht] at hw
      exact absurd hw (by decide)
  · have hm := Kind.mem_keywords_of_ofWord (h (by simp [hk])) (by simp [hk])
    rw [hk] at hm
    have hall : ∀ e ∈ Kind.keywords, e.2 = .this → e.1 = "this" := by decide
    exact hall _ hm rfl
  · have hm := Kind.mem_keywords_of_ofWord (h (by simp [hk])) (by simp [hk])
    rw [hk] at hm
    have hall : ∀ e ∈ Kind.keywords, e.2 = .super → e.1 = "super" := by decide
    exact hall _ hm rfl

end Token

namespace Scan
set_option autoImplicit true

theorem take_takeWhile (p : UInt8 → Bool) (t : Text) :
    t.take (t.takeWhile p).length = t.takeWhile p :=
  (List.prefix_iff_eq_take.1 (List.takeWhile_prefix p)).symm

/-- A token at the front is not the end of input, and a word has the kind that its text tells. -/
def Telling (b : UInt8) (rest : Text) (front : Class × Nat) : Prop :=
  ∀ k, front.1 = .token k → k ≠ .eof ∧
    (k ∈ [Token.Kind.identifier, .this, .super] →
      Token.Kind.ofWord (b :: rest.take front.2) = k)

theorem Telling.plain (hk : k ∉ [Token.Kind.identifier, .this, .super, .eof]) :
    Telling b rest (.token k, n) := by
  intro k' he
  cases he
  simp only [List.mem_cons, List.not_mem_nil, or_false, not_or] at hk ⊢
  grind

theorem Telling.other (hc : ∀ k, c ≠ .token k) : Telling b rest (c, n) :=
  fun k he => absurd he (hc k)

theorem Telling.operator (h₁ : one ∉ [Token.Kind.identifier, .this, .super, .eof])
    (h₂ : two ∉ [Token.Kind.identifier, .this, .super, .eof]) :
    Telling b rest (operator one two rest) := by
  unfold Scan.operator
  split
  · exact iteInduction (fun _ => .plain h₂) fun _ => .plain h₁
  · exact .plain h₁

theorem front_telling (b : UInt8) (rest : Text) : Telling b rest (front b rest) := by
  unfold front
  iterate 10 refine iteInduction (fun _ => .plain (by decide)) fun _ => ?_
  iterate 4 refine iteInduction (fun _ => .operator (by decide) (by decide)) fun _ => ?_
  refine iteInduction (fun _ => ?_) fun _ => ?_
  · exact iteInduction (fun _ => .other (by simp)) fun _ => .plain (by decide)
  refine iteInduction (fun _ => .other (by simp)) fun _ => ?_
  refine iteInduction (fun _ => ?_) fun _ => ?_
  · exact iteInduction (fun _ => .plain (by decide)) fun _ => .other (by simp)
  refine iteInduction (fun _ => .plain (by decide)) fun _ => ?_
  refine iteInduction (fun _ => ?_) fun _ => .other (by simp)
  intro k hk
  simp only [Class.token.injEq] at hk
  subst hk
  refine ⟨Token.Kind.ofWord_ne_eof _, fun _ => ?_⟩
  rw [take_takeWhile]

theorem piece_telling (hp : p ∈ pieces t) (hk : p.cls = .token k) :
    k ≠ .eof ∧ (k ∈ [Token.Kind.identifier, .this, .super] → Token.Kind.ofWord p.text = k) := by
  induction t using pieces.induct with
  | case1 =>
    rw [pieces] at hp
    exact absurd hp List.not_mem_nil
  | case2 b rest cls n hf ih =>
    rw [pieces] at hp
    simp only [hf, List.mem_cons] at hp
    rcases hp with rfl | hp
    · have htell := front_telling b rest k
      rw [hf] at htell
      exact htell hk
    · exact ih hp

theorem located_mem (h : (p, line) ∈ located start ps) : p ∈ ps := by
  induction ps generalizing start with
  | nil => exact absurd h List.not_mem_nil
  | cons q ps ih =>
    rw [located, List.mem_cons] at h
    rcases h with h | h
    · cases h
      exact List.mem_cons_self
    · exact List.mem_cons_of_mem q (ih h)

theorem ofText_tokens (t : Text) :
    ∃ body eof, (ofText t).tokens = body ++ [eof] ∧ eof.kind = .eof ∧
      ∀ u ∈ body, u.kind ≠ .eof ∧ u.Lexical := by
  refine ⟨_, _, rfl, rfl, fun u hu => ?_⟩
  obtain ⟨⟨p, line⟩, hp, he⟩ := List.mem_filterMap.1 hu
  unfold Piece.token? at he
  cases hc : p.cls with
  | token k =>
    simp only [hc, Option.some.injEq] at he
    subst he
    obtain ⟨heof, htell⟩ := piece_telling (located_mem hp) hc
    exact ⟨heof, .of_word htell⟩
  | _ => simp [hc] at he

end Scan

end LoxLang
