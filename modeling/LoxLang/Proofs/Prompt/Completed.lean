import LoxLang.Proofs.Prompt.Offered

namespace LoxLang

namespace Prompt
set_option autoImplicit true

namespace Field

/-- What precedes the word around the cursor has as many bytes as characters; or else nothing follows
the word, and not too much precedes it for the cursor to stand in the word as a position in bytes. -/
def InStep (f : Field) : Prop :=
  (Text.ofChars f.beforeWord).length = f.beforeWord.length ∨
    f.afterWord = [] ∧ (Text.ofChars f.beforeWord).length ≤ f.cursor

structure Aligned (f : Field) (start stop : Nat) (before word after : List Char) : Prop where
  marked : f.Marked start stop before word after
  whole : f.chars = before ++ word ++ after
  low : before.length ≤ f.cursor
  high : f.cursor ≤ (before ++ word).length
  step : (Text.ofChars before).length = before.length ∨ after = []

theorem Aligned.around {f : Field} (h : f.Aligned start stop before word after) :
    f.beforeWord = before ∧ f.afterWord = after :=
  Field.around h.marked.left h.marked.inside h.marked.right h.whole h.low h.high

theorem Aligned.complete {f : Field} (h : f.Aligned start stop before word after) (t : Text) :
    f.complete t = ⟨before ++ t.chars ++ after, before.length + t.chars.length⟩ := by
  obtain ⟨hbefore, hafter⟩ := h.around
  rw [Field.complete, hbefore, hafter]

/-- The word that the bounds enclose in bytes is the one around the cursor if bytes and characters
come to the same. -/
theorem Marked.aligned {f : Field} (h : f.Marked start stop before word after) (hlegal : f.Legal)
    (hstep : f.InStep) (hwhole : stop ≤ f.text.length) :
    ∃ rest, f.Aligned start stop before word rest := by
  obtain ⟨rest, hchars, hmarked⟩ := h.whole hwhole
  have hlast := hmarked.high
  rw [hmarked.last] at hlast
  have hlow : before.length ≤ f.cursor := by
    rcases hmarked.low with hfirst | hend
    · rw [hmarked.first] at hfirst
      exact Nat.le_trans (length_le_ofChars before) hfirst
    · rw [hend, hchars, List.length_append, List.length_append, Nat.add_assoc]
      exact Nat.le_add_right _ _
  have hhigh : f.cursor ≤ (before ++ word).length := by
    by_contra hbeyond
    -- The word around the cursor comes later, and what precedes it is longer in bytes than up to
    -- the cursor.
    obtain ⟨c, tail, hbefore⟩ :=
      around_beyond hmarked.right hchars (Nat.not_le.1 hbeyond) hlegal.cursor
    have hfirst := length_le_ofChars (before ++ word)
    have htail := length_le_ofChars (c :: tail)
    rw [List.length_cons] at htail
    rcases hstep with hsame | ⟨-, hlate⟩
    · rw [hbefore, Text.ofChars_append (before ++ word), List.length_append, List.length_append,
        List.length_cons] at hsame
      omega
    · rw [hbefore, Text.ofChars_append (before ++ word), List.length_append] at hlate
      omega
  obtain ⟨hbefore, hafter⟩ :=
    Field.around hmarked.left hmarked.inside hmarked.right hchars hlow hhigh
  refine ⟨rest, hmarked, hchars, hlow, hhigh, ?_⟩
  rcases hstep with hsame | ⟨hend, -⟩
  · rw [hbefore] at hsame
    exact .inl hsame
  · rw [hafter] at hend
    exact .inr hend

end Field

theorem replaceWord_aligned {p : Prompt}
    (h : p.field.Aligned p.wordStart p.wordEnd before word after) (hclean : p.field.Clean)
    (hc : Text.AllWord c) (hfits : (p.field.complete c).chars.length ≤ Field.limit) :
    p.replaceWord c = some { p with
        field := p.field.complete c
        wordEnd := p.wordStart + c.length } ∧
      (p.field.complete c).Aligned p.wordStart (p.wordStart + c.length) before c.chars after := by
  obtain ⟨⟨chars, cursor⟩, hreplace, -, hchars, hcursor, hmarked⟩ :=
    replaceWord_marked h.marked hclean h.whole hc
  have hlength : c.chars.length = c.length := (chars_allWord hc).2.1
  rw [h.complete] at hfits ⊢
  dsimp only at hfits hchars hcursor
  rw [List.take_of_length_le hfits] at hchars
  have hplace : cursor = before.length + c.chars.length := by
    rw [hcursor, hchars, h.marked.first, hlength]
    rcases h.step with hsame | rfl
    · rw [hsame, List.length_append, List.length_append, hlength]
      exact Nat.min_eq_left (Nat.le_add_right _ _)
    · rw [List.append_nil, List.length_append, hlength]
      exact Nat.min_eq_right (Nat.add_le_add_right (length_le_ofChars before) _)
  subst hchars hplace
  refine ⟨hreplace, hmarked, rfl, Nat.le_add_right _ _, ?_, h.step⟩
  exact Nat.le_of_eq List.length_append.symm

structure Trying (p : Prompt) (before after : List Char) : Prop where
  offering : p.Offering
  idle : p.running = none
  aligned : ∃ word, p.field.Aligned p.wordStart p.wordEnd before word after

/-- Each completion that one of the keys tries fits into the line. -/
def FitsAll (p : Prompt) : List Key → Prop
  | [] => True
  | k :: ks =>
    (∀ c ∈ p.tried? (k = .tab), (p.field.complete c).chars.length ≤ Field.limit) ∧
      ∀ q, p.receive (.key k) = some q → q.FitsAll ks

/-- The prompt with a completion put in place of the word around the cursor. -/
def completed (forward : Bool) (c : Text) (p : Prompt) : Prompt :=
  { p.choose forward with
    field := p.field.complete c
    wordEnd := p.wordStart + c.length }

theorem Trying.handle {p : Prompt} (h : p.Trying before after) (hk : k.Completes)
    (hfits : ∀ c ∈ p.tried? (k = .tab), (p.field.complete c).chars.length ≤ Field.limit) :
    p.found = [] ∧ p.handle k = some (p, []) ∨
      ∃ c, p.tried? (k = .tab) = some c ∧
        p.handle k = some (p.completed (k = .tab) c, []) ∧
        (p.completed (k = .tab) c).Trying before after := by
  rw [handle_completes h.idle hk]
  by_cases hfound : p.found = []
  · rw [cycle_none hfound]
    exact .inl ⟨hfound, rfl⟩
  · obtain ⟨c, htried⟩ := exists_tried? hfound (k = .tab)
    obtain ⟨word, haligned⟩ := h.aligned
    obtain ⟨hreplace, hnew⟩ := replaceWord_aligned haligned h.offering.legal.clean
      (h.offering.words c (tried?_mem htried)) (hfits c htried)
    have hcycle : p.cycle (k = .tab) = some (p.completed (k = .tab) c) := by
      rw [cycle_tried h.offering.chosen htried, replaceWord_choose, hreplace]
      rfl
    obtain ⟨hrunning, hstart, -⟩ := choose_leaves (k = .tab) p
    refine .inr ⟨c, htried, by rw [hcycle]; rfl, cycle_offering h.offering hcycle,
      hrunning.trans h.idle, c.chars, ?_⟩
    change (p.field.complete c).Aligned (p.choose _).wordStart _ before _ after
    rw [hstart]
    exact hnew

theorem Trying.receiveAll {p : Prompt} (h : p.Trying before after)
    (hks : ∀ k ∈ ks, Key.Completes k) (hfits : p.FitsAll (ks ++ ks')) :
    ∃ r, p.receiveAll (ks.map .key) = some r ∧ r.Trying before after ∧ r.FitsAll ks' ∧
      (r.found = [] ∨ r.found = p.found) := by
  induction ks generalizing p with
  | nil => exact ⟨p, rfl, h, hfits, .inr rfl⟩
  | cons k ks ih =>
    obtain ⟨hk, hrest⟩ := List.forall_mem_cons.1 hks
    obtain ⟨hfirst, hlater⟩ := hfits
    rcases h.handle hk hfirst with ⟨-, hq⟩ | ⟨c, -, hq, hnew⟩
    · rw [List.map_cons, Prompt.receiveAll, receive_key hq]
      exact ih h hrest (hlater p (receive_key hq))
    · rw [List.map_cons, Prompt.receiveAll, receive_key hq]
      obtain ⟨r, hr, htrying, hrfits, hfound⟩ := ih hnew hrest (hlater _ (receive_key hq))
      refine ⟨r, hr, htrying, hrfits, ?_⟩
      obtain ⟨-, -, hleft⟩ := choose_leaves (k = .tab) p
      rcases hfound with hfound | hfound
      · exact .inl hfound
      · rw [hfound]
        exact hleft

end Prompt

end LoxLang
