import LoxLang.Proofs.Prompt.Field
import LoxLang.Proofs.Tree.Written
import Mathlib.Data.List.DropRight

namespace LoxLang

namespace Prompt
set_option autoImplicit true

def isWordChar (c : Char) : Bool := c.toNat < 0x80 && Text.isWord (byte c)

namespace Field

def beforeWord (f : Field) : List Char := (f.chars.take f.cursor).rdropWhile isWordChar

def afterWord (f : Field) : List Char := (f.chars.drop f.cursor).dropWhile isWordChar

/-- A text in place of that run, and the cursor right after it. -/
def complete (t : Text) (f : Field) : Field :=
  ⟨f.beforeWord ++ t.chars ++ f.afterWord, f.beforeWord.length + t.chars.length⟩

end Field

theorem encode_of_isWordChar (h : isWordChar c = true) : Utf8.encode c = [byte c] := by
  simp only [isWordChar, Bool.and_eq_true, decide_eq_true_eq] at h
  unfold Utf8.encode
  exact if_pos h.1

theorem isWordChar_of_mem (hb : b ∈ Utf8.encode c) (h : Text.isWord b = true) :
    isWordChar c = true := by
  have hone := Utf8.encode_of_ascii hb (ascii_of_isWord h)
  have hlow : c.toNat < 0x80 := by
    by_contra hnot
    have hlen := congrArg List.length hone
    unfold Utf8.encode at hlen
    dsimp only at hlen
    rw [if_neg hnot] at hlen
    split at hlen
    · cases hlen
    · split at hlen
      · cases hlen
      · cases hlen
  have hbyte : byte c = b := by
    unfold Utf8.encode at hone
    dsimp only at hone
    rw [if_pos hlow] at hone
    exact (List.cons.inj hone).1
  rw [isWordChar, hbyte, h, decide_eq_true hlow]
  rfl

theorem isWordChar_of_bytes {cs : List Char} (h : ∀ b ∈ Text.ofChars cs, Text.isWord b = true) :
    ∀ c ∈ cs, isWordChar c = true := by
  intro c hc
  obtain ⟨b, w, hbytes⟩ := List.exists_cons_of_ne_nil (Utf8.encode_ne_nil c)
  have hb : b ∈ Utf8.encode c := hbytes ▸ List.mem_cons_self
  exact isWordChar_of_mem hb (h b (List.mem_flatMap.2 ⟨c, hc, hb⟩))

theorem isWord_of_isWordChar (h : isWordChar c = true) : Text.isWord (byte c) = true := by
  simp only [isWordChar, Bool.and_eq_true] at h
  exact h.2

theorem getLast?_notWord {cs : List Char}
    (h : ∀ b ∈ (Text.ofChars cs).getLast?, Text.isWord b = false) :
    ∀ c ∈ cs.getLast?, isWordChar c = false := by
  rcases List.eq_nil_or_concat' cs with rfl | ⟨cs, d, rfl⟩
  · exact fun c hc => by cases hc
  · intro c hc
    rw [List.getLast?_concat] at hc
    cases hc
    rw [← Bool.not_eq_true]
    intro hd
    have hlast : (Text.ofChars (cs ++ [d])).getLast? = some (byte d) := by
      rw [Text.ofChars_append, Text.ofChars_cons, encode_of_isWordChar hd]
      exact List.getLast?_concat
    have hnot := h _ hlast
    rw [isWord_of_isWordChar hd] at hnot
    cases hnot

theorem head?_notWord {cs : List Char}
    (h : ∀ b ∈ (Text.ofChars cs).head?, Text.isWord b = false) :
    ∀ c ∈ cs.head?, isWordChar c = false := by
  cases cs with
  | nil => exact fun c hc => by cases hc
  | cons d cs =>
    intro c hc
    cases hc
    rw [← Bool.not_eq_true]
    intro hd
    have hhead : (Text.ofChars (d :: cs)).head? = some (byte d) := by
      rw [Text.ofChars_cons, encode_of_isWordChar hd]
      rfl
    have hnot := h _ hhead
    rw [isWord_of_isWordChar hd] at hnot
    cases hnot

theorem chars_allWord {t : Text} (h : t.AllWord) :
    Text.ofChars t.chars = t ∧ t.chars.length = t.length ∧ ∀ c ∈ t.chars, isWordChar c = true := by
  obtain ⟨cs, rfl, hlen, -⟩ := word_chars h
  rw [Text.chars_ofChars]
  exact ⟨rfl, hlen, isWordChar_of_bytes h⟩

theorem length_le_ofChars (cs : List Char) : cs.length ≤ (Text.ofChars cs).length := by
  induction cs with
  | nil => exact Nat.le_refl 0
  | cons c cs ih =>
    have hpos := List.length_pos_iff.2 (Utf8.encode_ne_nil c)
    rw [Text.ofChars_cons, List.length_append, List.length_cons]
    omega

/-- The word around a position, if its bounds lie between characters: a longest run of word
characters. -/
theorem Word.at_chars {cs : List Char} {n : Int}
    (hstart : Text.Boundary cs (Word.at (Text.ofChars cs) n).start)
    (hstop : Text.Boundary cs (Word.at (Text.ofChars cs) n).stop) :
    ∃ before word after, cs = before ++ word ++ after ∧
      (Word.at (Text.ofChars cs) n).start = (Text.ofChars before).length ∧
      (Word.at (Text.ofChars cs) n).stop = (Text.ofChars (before ++ word)).length ∧
      (∀ c ∈ before.getLast?, isWordChar c = false) ∧ (∀ c ∈ word, isWordChar c = true) ∧
      ∀ c ∈ after.head?, isWordChar c = false := by
  obtain ⟨hle, hle', -⟩ := Word.at_bounds (Text.ofChars cs) n
  obtain ⟨before, word, after, rfl, hfirst, hlast⟩ := hstart.cut hstop (Nat.le_trans hle hle')
  obtain ⟨hleft, hright⟩ := Word.at_maximal (Text.ofChars (before ++ word ++ after)) n
  refine ⟨before, word, after, rfl, hfirst, hlast, getLast?_notWord ?_, isWordChar_of_bytes ?_,
    head?_notWord ?_⟩
  · rwa [hfirst, List.append_assoc, Text.ofChars_append, List.take_left] at hleft
  · obtain ⟨b, left, right, a, ht, -, hat, hall⟩ :=
      Word.at_cut (Text.ofChars (before ++ word ++ after)) n
    rw [hat] at hfirst hlast
    dsimp only at hfirst hlast
    rw [Text.ofChars_append, List.append_assoc b] at ht
    rw [List.append_assoc b] at hlast
    obtain ⟨hwhole, -⟩ := List.append_inj ht hlast.symm
    rw [Text.ofChars_append] at hwhole
    obtain ⟨-, hword⟩ := List.append_inj hwhole hfirst.symm
    rw [hword]
    exact hall
  · rwa [hlast, Text.ofChars_append (before ++ word), List.drop_left] at hright

section
variable {p : Char → Bool}

theorem dropWhile_of_head? {cs : List Char} (h : ∀ c ∈ cs.head?, p c = false) :
    cs.dropWhile p = cs := by
  cases cs with
  | nil => rfl
  | cons c cs => rw [List.dropWhile_cons, h c rfl, if_neg Bool.false_ne_true]

theorem rdropWhile_of_getLast? {cs : List Char} (h : ∀ c ∈ cs.getLast?, p c = false) :
    cs.rdropWhile p = cs := by
  rw [List.rdropWhile, dropWhile_of_head?, List.reverse_reverse]
  rwa [List.head?_reverse]

theorem rdropWhile_append_all {before word : List Char} (h : ∀ c ∈ word, p c = true) :
    (before ++ word).rdropWhile p = before.rdropWhile p := by
  rw [List.rdropWhile, List.reverse_append, List.dropWhile_append_of_pos]
  · rfl
  · exact fun c hc => h c (List.mem_reverse.1 hc)

theorem rdropWhile_append_cons {before rest : List Char} (h : p c = false) :
    (before ++ c :: rest).rdropWhile p = before ++ c :: rest.rdropWhile p := by
  induction rest using List.reverseRecOn with
  | nil =>
    have hdrop : (before ++ [c]).rdropWhile p = before ++ [c] := by
      apply rdropWhile_of_getLast?
      intro d hd
      rw [List.getLast?_concat] at hd
      cases hd
      exact h
    exact hdrop
  | append_singleton rest d ih =>
    have hassoc : before ++ c :: (rest ++ [d]) = before ++ c :: rest ++ [d] := by simp
    rw [hassoc]
    cases hd : p d with
    | false => rw [List.rdropWhile_concat_neg, List.rdropWhile_concat_neg] <;> simp [hd]
    | true =>
      rw [List.rdropWhile_concat_pos, List.rdropWhile_concat_pos, ih]
      · exact hd
      · exact hd

end

namespace Field
variable {before word after : List Char}

theorem around (hbefore : ∀ c ∈ before.getLast?, isWordChar c = false)
    (hword : ∀ c ∈ word, isWordChar c = true) (hafter : ∀ c ∈ after.head?, isWordChar c = false)
    {f : Field} (hchars : f.chars = before ++ word ++ after) (hlow : before.length ≤ f.cursor)
    (hhigh : f.cursor ≤ (before ++ word).length) :
    f.beforeWord = before ∧ f.afterWord = after := by
  obtain ⟨left, right, rfl, hcursor⟩ :
      ∃ left right, word = left ++ right ∧ f.cursor = (before ++ left).length := by
    rw [List.length_append] at hhigh
    refine ⟨word.take (f.cursor - before.length), word.drop (f.cursor - before.length),
      (List.take_append_drop _ _).symm, ?_⟩
    rw [List.length_append, List.length_take]
    omega
  have hsplit : f.chars = before ++ left ++ (right ++ after) := by
    rw [hchars]
    simp
  have hleft : ∀ c ∈ left, isWordChar c = true :=
    fun c hc => hword c (List.mem_append_left right hc)
  have hright : ∀ c ∈ right, isWordChar c = true :=
    fun c hc => hword c (List.mem_append_right left hc)
  constructor
  · rw [beforeWord, hsplit, hcursor, List.take_left, rdropWhile_append_all hleft]
    exact rdropWhile_of_getLast? hbefore
  · rw [afterWord, hsplit, hcursor, List.drop_left, List.dropWhile_append_of_pos hright]
    exact dropWhile_of_head? hafter

/-- The cursor beyond a run of word characters: what precedes the word around it goes on past the
run. -/
theorem around_beyond (hafter : ∀ c ∈ after.head?, isWordChar c = false) {f : Field}
    (hchars : f.chars = before ++ after) (hbeyond : before.length < f.cursor)
    (hcursor : f.cursor ≤ f.chars.length) :
    ∃ c rest, f.beforeWord = before ++ c :: rest := by
  cases after with
  | nil =>
    rw [hchars, List.append_nil] at hcursor
    exact absurd hbeyond (Nat.not_lt.2 hcursor)
  | cons c after =>
    refine ⟨c, (after.take (f.cursor - before.length - 1)).rdropWhile isWordChar, ?_⟩
    have htake : f.chars.take f.cursor =
        before ++ c :: after.take (f.cursor - before.length - 1) := by
      obtain ⟨k, hk⟩ : ∃ k, f.cursor = before.length + (k + 1) :=
        ⟨f.cursor - before.length - 1, by omega⟩
      rw [hchars, hk, List.take_length_add_append, List.take_succ_cons]
      simp
    rw [beforeWord, htake]
    exact rdropWhile_append_cons (hafter c rfl)

end Field

end Prompt

end LoxLang
