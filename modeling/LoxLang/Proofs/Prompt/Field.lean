import LoxLang.Prompt.Field
import LoxLang.Proofs.Prompt.Word

namespace LoxLang.Prompt
set_option autoImplicit true

namespace Field

/-- A character that a field takes as it is. -/
def Plain (c : Char) : Prop := clean [c] = [c]

theorem clean_cons (c : Char) (cs : List Char) : clean (c :: cs) = clean [c] ++ clean cs := by
  rw [← List.singleton_append, clean, List.filterMap_append]
  rfl

theorem clean_of_plain {cs : List Char} (h : ∀ c ∈ cs, Plain c) : clean cs = cs := by
  induction cs with
  | nil => rfl
  | cons c cs ih =>
    obtain ⟨hc, hcs⟩ := List.forall_mem_cons.1 h
    rw [clean_cons, hc, ih hcs]
    rfl

theorem plain_of_mem_clean {cs : List Char} (h : c ∈ clean cs) : Plain c := by
  obtain ⟨d, -, hd⟩ := List.mem_filterMap.1 h
  split at hd
  · cases hd
  · split at hd
    · cases hd
      exact show clean [' '] = [' '] by decide
    · split at hd
      · cases hd
      · rename_i hr ht hc
        cases hd
        simp [Plain, clean, hr, ht, hc]

def Clean (f : Field) : Prop := ∀ c ∈ f.chars, Plain c

theorem empty_clean : empty.Clean := fun _ h => absurd h List.not_mem_nil

theorem put_clean {cs : List Char} (h : ∀ c ∈ cs, Plain c) (f : Field) : (f.put cs).Clean :=
  fun c hc => h c (List.mem_of_mem_take hc)

theorem set_clean (t : Text) (f : Field) : (f.set t).Clean :=
  put_clean (fun _ => plain_of_mem_clean) f

theorem insert_clean (h : Clean f) (cs : List Char) : (f.insert cs).Clean := by
  unfold insert
  dsimp only
  split
  · exact h
  · rw [List.splitAt_eq]
    refine put_clean (fun c hc => ?_) _
    rcases List.mem_append.1 hc with hc | hc
    · rcases List.mem_append.1 hc with hc | hc
      · exact h c (List.mem_of_mem_take hc)
      · exact plain_of_mem_clean (List.mem_of_mem_take hc)
    · exact h c (List.mem_of_mem_drop hc)

theorem deleteFrom_clean (h : Clean f) (start : Nat) : (f.deleteFrom start).Clean := by
  intro c hc
  rcases List.mem_append.1 hc with hc | hc
  · exact h c (List.mem_of_mem_take hc)
  · exact h c (List.mem_of_mem_drop hc)

theorem delete_clean (h : Clean f) : f.delete.Clean := fun c hc => h c (List.mem_of_mem_eraseIdx hc)

theorem deleteAfter_clean (h : Clean f) : f.deleteAfter.Clean :=
  fun c hc => h c (List.mem_of_mem_take hc)

theorem deleteWord_clean (h : Clean f) : f.deleteWord.Clean := by
  unfold deleteWord
  split
  · exact h
  · exact deleteFrom_clean h _

structure Legal (f : Field) : Prop where
  clean : f.Clean
  length : f.chars.length ≤ limit
  cursor : f.cursor ≤ f.chars.length

theorem empty_legal : empty.Legal := ⟨empty_clean, Nat.zero_le _, Nat.le_refl _⟩

theorem put_legal {cs : List Char} (h : ∀ c ∈ cs, Plain c) (f : Field) : (f.put cs).Legal := by
  refine ⟨put_clean h f, List.length_take_le _ _, ?_⟩
  unfold put
  dsimp only
  split
  · exact Nat.le_refl _
  · rename_i hjump
    simp only [Bool.or_eq_true, decide_eq_true_eq, not_or, Nat.not_lt] at hjump
    exact hjump.2

theorem set_legal (t : Text) (f : Field) : (f.set t).Legal :=
  put_legal (fun _ => plain_of_mem_clean) f

theorem moveTo_legal (h : Legal f) (n : Nat) : (f.moveTo n).Legal :=
  ⟨h.clean, h.length, Nat.min_le_right _ _⟩

theorem insert_legal (h : Legal f) (cs : List Char) : (f.insert cs).Legal := by
  unfold insert
  dsimp only
  split
  · exact h
  · rw [List.splitAt_eq]
    apply put_legal
    intro c hc
    rcases List.mem_append.1 hc with hc | hc
    · rcases List.mem_append.1 hc with hc | hc
      · exact h.clean c (List.mem_of_mem_take hc)
      · exact plain_of_mem_clean (List.mem_of_mem_take hc)
    · exact h.clean c (List.mem_of_mem_drop hc)

theorem left_legal (h : Legal f) : f.left.Legal :=
  ⟨h.clean, h.length, Nat.le_trans (Nat.sub_le _ _) h.cursor⟩

theorem home_legal (h : Legal f) : f.home.Legal := ⟨h.clean, h.length, Nat.zero_le _⟩

theorem toEnd_legal (h : Legal f) : f.toEnd.Legal := ⟨h.clean, h.length, Nat.le_refl _⟩

theorem deleteFrom_legal (h : Legal f) (hs : s ≤ f.cursor) : (f.deleteFrom s).Legal := by
  have hcursor := h.cursor
  have hlength := h.length
  refine ⟨deleteFrom_clean h.clean s, ?_, ?_⟩
  · change (f.chars.take s ++ f.chars.drop f.cursor).length ≤ limit
    rw [List.length_append, List.length_take, List.length_drop]
    omega
  · change s ≤ (f.chars.take s ++ f.chars.drop f.cursor).length
    rw [List.length_append, List.length_take]
    omega

theorem delete_legal (h : Legal f) : f.delete.Legal := by
  have hcursor := h.cursor
  have hlength := h.length
  have herase : (f.chars.eraseIdx f.cursor).length =
      if f.cursor < f.chars.length then f.chars.length - 1 else f.chars.length :=
    List.length_eraseIdx
  have hchars : f.delete.chars.length = (f.chars.eraseIdx f.cursor).length := rfl
  refine ⟨delete_clean h.clean, ?_, ?_⟩
  · rw [hchars, herase]
    split <;> omega
  · change f.cursor ≤ f.delete.chars.length
    rw [hchars, herase]
    split <;> omega

theorem deleteAfter_legal (h : Legal f) : f.deleteAfter.Legal := by
  have hlength : f.deleteAfter.chars.length = f.cursor := List.length_take_of_le h.cursor
  refine ⟨deleteAfter_clean h.clean, ?_, ?_⟩
  · rw [hlength]
    exact Nat.le_trans h.cursor h.length
  · rw [hlength]
    exact Nat.le_refl _

theorem skipBlanks_le (cs : List Char) (n : Nat) : skipBlanks cs n ≤ n := by
  induction n with
  | zero => exact Nat.le_refl 0
  | succ n ih =>
    rw [skipBlanks]
    split
    · exact Nat.le_succ_of_le ih
    · exact Nat.le_refl _

theorem skipWord_le (cs : List Char) (n : Nat) : skipWord cs n ≤ n + 1 := by
  induction n with
  | zero => exact Nat.zero_le _
  | succ n ih =>
    rw [skipWord]
    split
    · exact Nat.le_refl _
    · exact Nat.le_succ_of_le ih

theorem deleteWord_legal (h : Legal f) : f.deleteWord.Legal := by
  unfold deleteWord
  split
  · exact h
  · rename_i hstart
    apply deleteFrom_legal h
    have hword := skipWord_le f.chars (skipBlanks f.chars (f.cursor - 1))
    have hblanks := skipBlanks_le f.chars (f.cursor - 1)
    omega

/-- A line and its cursor are shown again as they were kept, whatever the field shows now. -/
theorem set_text (h : Legal f) (g : Field) : (g.set f.text).moveTo f.cursor = f := by
  have hchars : (g.set f.text).chars = f.chars := by
    change (clean (Text.chars (Text.ofChars f.chars))).take limit = f.chars
    rw [Text.chars_ofChars, clean_of_plain h.clean, List.take_of_length_le h.length]
  change (⟨(g.set f.text).chars, min f.cursor (g.set f.text).chars.length⟩ : Field) = f
  rw [hchars, Nat.min_eq_left h.cursor]

theorem set_nil (f : Field) : f.set [] = empty := by
  have hclean : clean (Text.chars []) = [] := by
    rw [Text.chars, Utf8.symbols]
    rfl
  rw [set, hclean]
  unfold put
  dsimp only [List.take_nil, List.length_nil]
  split
  · rfl
  · rename_i hjump
    simp only [Bool.or_eq_true, decide_eq_true_eq, not_or, Nat.not_lt] at hjump
    rw [Nat.le_zero.1 hjump.2]
    rfl

end Field

theorem plain_of_isWord (h : Text.isWord b = true) : Field.Plain (Char.ofNat b.toNat) := by
  obtain ⟨hlow, hhigh⟩ := isWord_range h
  have hnat : (Char.ofNat b.toNat).toNat = b.toNat := Utf8.toNat_ofNat (.inl (by omega))
  generalize Char.ofNat b.toNat = c at hnat
  have hne (d : Char) (hd : d.toNat < 48 ∨ 122 < d.toNat) : c ≠ d := by
    rintro rfl
    omega
  have hreplacement : c ≠ Utf8.replacement := hne _ (.inr (by decide))
  have hblank : ¬ (c = '\t' ∨ c = '\n' ∨ c = '\r') := by
    rintro (hc | hc | hc)
    · exact hne _ (.inl (by decide)) hc
    · exact hne _ (.inl (by decide)) hc
    · exact hne _ (.inl (by decide)) hc
  have hcontrol : Field.isControl c = false := by
    have h₁ : ¬ c.toNat < 0x20 := by omega
    have h₂ : ¬ 0x7F ≤ c.toNat := by omega
    simp [Field.isControl, h₁, h₂]
  simp [Field.Plain, Field.clean, hreplacement, hblank, hcontrol]

theorem word_chars {t : Text} (h : ∀ b ∈ t, Text.isWord b = true) :
    ∃ cs, Text.ofChars cs = t ∧ cs.length = t.length ∧ ∀ c ∈ cs, Field.Plain c := by
  induction t with
  | nil => exact ⟨[], rfl, rfl, fun _ hc => absurd hc List.not_mem_nil⟩
  | cons b t ih =>
    obtain ⟨hb, ht⟩ := List.forall_mem_cons.1 h
    obtain ⟨cs, hcs, hlen, hplain⟩ := ih ht
    have hascii := ascii_of_isWord hb
    have hencode : Utf8.encode (Char.ofNat b.toNat) = [b] :=
      (Utf8.encode_of_character? (Utf8.character?_ascii hascii [])).2
    refine ⟨Char.ofNat b.toNat :: cs, ?_, congrArg (· + 1) hlen, List.forall_mem_cons.2 ⟨?_, hplain⟩⟩
    · rw [Text.ofChars_cons, hencode, hcs]
      rfl
    · exact plain_of_isWord hb

/-- What a field shows of a line in which there is room for a word that is put between characters it
holds: the word is whole, and at most the end of the line is cut off. -/
theorem Field.set_word {f : Field} {before word after : List Char} (hf : f.Clean)
    (hchars : f.chars = before ++ word ++ after) {t : Text}
    (ht : ∀ b ∈ t, Text.isWord b = true) (g : Field) :
    ∃ cs, Text.ofChars cs = t ∧ cs.length = t.length ∧
      (g.set (Text.ofChars before ++ t ++ Text.ofChars after)).chars =
        (before ++ cs ++ after).take limit := by
  obtain ⟨cs, rfl, hlen, hplain⟩ := word_chars ht
  refine ⟨cs, rfl, hlen, ?_⟩
  have hclean : clean (before ++ cs ++ after) = before ++ cs ++ after := by
    refine clean_of_plain fun c hc => ?_
    rcases List.mem_append.1 hc with hc | hc
    · rcases List.mem_append.1 hc with hc | hc
      · exact hf c (hchars ▸ List.mem_append_left _ (List.mem_append_left _ hc))
      · exact hplain c hc
    · exact hf c (hchars ▸ List.mem_append_right _ hc)
  rw [← Text.ofChars_append, ← Text.ofChars_append, set, Text.chars_ofChars, hclean]
  rfl

end LoxLang.Prompt
