import LoxLang.Prompt.Word
import LoxLang.Proofs.Text.Boundary
import Mathlib.Data.List.Induction

namespace LoxLang.Prompt
set_option autoImplicit true

theorem isWord_range (h : Text.isWord b = true) : 48 ≤ b.toNat ∧ b.toNat ≤ 122 := by
  simp only [Text.isWord, Text.isLetter, Text.isDigit, Bool.or_eq_true, Bool.and_eq_true,
    decide_eq_true_eq, beq_iff_eq, UInt8.le_iff_toNat_le, ← UInt8.toNat_inj] at h
  have hbyte (c : Char) (hc : c.toNat < 256) : (byte c).toNat = c.toNat := Utf8.toNat_toUInt8 hc
  rw [hbyte 'a' (by decide), hbyte 'z' (by decide), hbyte 'A' (by decide), hbyte 'Z' (by decide),
    hbyte '_' (by decide), hbyte '0' (by decide), hbyte '9' (by decide)] at h
  simp only [show ('a').toNat = 97 from rfl, show ('z').toNat = 122 from rfl,
    show ('A').toNat = 65 from rfl, show ('Z').toNat = 90 from rfl,
    show ('_').toNat = 95 from rfl, show ('0').toNat = 48 from rfl,
    show ('9').toNat = 57 from rfl] at h
  omega

theorem ascii_of_isWord (h : Text.isWord b = true) : b < 0x80 := by
  obtain ⟨-, hle⟩ := isWord_range h
  exact UInt8.lt_iff_toNat_lt.2 (Nat.lt_of_le_of_lt hle (by decide))

theorem byte_ofNat (h : b < 0x80) : byte (Char.ofNat b.toNat) = b := by
  have hlt : b.toNat < 0x80 := UInt8.lt_iff_toNat_lt.1 h
  rw [byte, Utf8.toNat_ofNat (.inl (by omega))]
  exact Utf8.toUInt8_eq rfl

theorem isWordSymbol_front (b : UInt8) (rest bytes : Text) :
    isWordSymbol ⟨(Utf8.character? b rest).map Prod.fst, bytes⟩ = Text.isWord b := by
  by_cases hb : b < 0x80
  · have hlt : b.toNat < 0x80 := UInt8.lt_iff_toNat_lt.1 hb
    rw [Utf8.character?_ascii hb, isWordSymbol]
    simp only [Option.map_some]
    rw [Utf8.toNat_ofNat (.inl (by omega)), byte_ofNat hb]
    simp [hlt]
  · have hword : Text.isWord b = false := by
      cases hw : Text.isWord b with
      | false => rfl
      | true => exact absurd (ascii_of_isWord hw) hb
    rw [hword, isWordSymbol]
    cases hread : Utf8.character? b rest with
    | none => rfl
    | some r =>
      obtain ⟨c, n⟩ := r
      have hbeyond := (Utf8.character?_beyond hb hread).1
      have hnot : ¬ c.toNat < 0x80 := Nat.not_lt.2 hbeyond
      simp [hnot]

theorem extent_of_isWord (h : Text.isWord b = true) (rest : Text) : Utf8.extent b rest = 0 := by
  rw [Utf8.extent, Utf8.character?_ascii (ascii_of_isWord h)]

theorem firstWordLength_eq (t : Text) : firstWordLength t = (t.takeWhile Text.isWord).length := by
  have hfold (t : Text) (n : Nat) : ((Utf8.symbols t).takeWhile isWordSymbol).foldl
      (fun n r => n + r.bytes.length) n = n + (t.takeWhile Text.isWord).length := by
    induction t generalizing n with
    | nil => rw [Utf8.symbols]; rfl
    | cons b rest ih =>
      rw [Utf8.symbols, List.takeWhile_cons, List.takeWhile_cons, isWordSymbol_front]
      cases hb : Text.isWord b with
      | false => simp
      | true =>
        simp only [extent_of_isWord hb, List.take_zero, List.drop_zero, if_true, List.foldl_cons,
          List.length_cons, List.length_nil, ih]
        omega
  exact (hfold t 0).trans (Nat.zero_add _)

theorem firstWordLength_run (t : Text) :
    ∃ word rest, t = word ++ rest ∧ firstWordLength t = word.length ∧
      ∀ b ∈ word, Text.isWord b = true :=
  ⟨t.takeWhile Text.isWord, t.dropWhile Text.isWord, List.takeWhile_append_dropWhile.symm,
    firstWordLength_eq t, fun b hb => List.all_eq_true.1 List.all_takeWhile b hb⟩

theorem firstWordLength_after (t : Text) :
    ∀ b ∈ (t.drop (firstWordLength t)).head?, Text.isWord b = false := by
  have hsplit : t.takeWhile Text.isWord ++ t.dropWhile Text.isWord = t :=
    List.takeWhile_append_dropWhile
  have hdrop : (t.takeWhile Text.isWord ++ t.dropWhile Text.isWord).drop
      (t.takeWhile Text.isWord).length = t.dropWhile Text.isWord := List.drop_left
  rw [hsplit] at hdrop
  rw [firstWordLength_eq, hdrop]
  intro b hb
  have hnot := List.head?_dropWhile_not Text.isWord t
  rw [Option.mem_def.1 hb] at hnot
  exact hnot

/-- The symbol at the end of a text is part of a word exactly if its last byte is, and then it is
that byte. -/
theorem last?_word (t : Text) (b : UInt8) : ∃ r, Utf8.last? (t ++ [b]) = some r ∧
    isWordSymbol r = Text.isWord b ∧ (Text.isWord b = true → r.bytes.length = 1) := by
  have hlast : (t ++ [b]).getLast? = some b := List.getLast?_concat
  have hdrop : (t ++ [b]).drop ((t ++ [b]).length - 1) = [b] := by
    rw [List.length_append, List.length_singleton, Nat.add_sub_cancel, List.drop_left]
  unfold Utf8.last?
  rw [hlast]
  dsimp only
  by_cases hb : b < 0x80
  · have hread := Utf8.character?_ascii hb []
    have hsymbol := isWordSymbol_front b [] [b]
    rw [hread] at hsymbol
    refine ⟨⟨some (Char.ofNat b.toNat), [b]⟩, ?_, hsymbol, fun _ => rfl⟩
    rw [List.findSome?_cons, hdrop]
    dsimp only
    rw [hread]
    rfl
  · have hword : Text.isWord b = false := by
      cases hw : Text.isWord b with
      | false => rfl
      | true => exact absurd (ascii_of_isWord hw) hb
    refine ⟨_, rfl, ?_, fun h => absurd (hword.symm.trans h) (by simp)⟩
    rw [hword]
    generalize hfound : List.findSome? _ _ = found
    cases found with
    | none => rfl
    | some r =>
      obtain ⟨n, -, hn⟩ := List.exists_of_findSome?_eq_some hfound
      split at hn
      · rename_i first rest hfirst
        split at hn
        · rename_i c k hread
          split at hn
          · rename_i hk
            cases hn
            have hnot : ¬ first < 0x80 := by
              intro hlt
              rw [Utf8.character?_ascii hlt] at hread
              cases hread
              obtain rfl := List.length_eq_zero_iff.1 hk.symm
              have hsuffix : [first] <:+ t ++ [b] := hfirst ▸ List.drop_suffix _ _
              obtain ⟨u, hu⟩ := hsuffix
              obtain ⟨-, he⟩ := List.append_inj' hu rfl
              cases he
              exact hb hlt
            have hbeyond := (Utf8.character?_beyond hnot hread).1
            have hc : ¬ c.toNat < 0x80 := Nat.not_lt.2 hbeyond
            simp [isWordSymbol, hc]
          · cases hn
        · cases hn
      · cases hn

theorem lastWordStart_append (t : Text) (b : UInt8) :
    lastWordStart (t ++ [b]) = if Text.isWord b then lastWordStart t else t.length + 1 := by
  obtain ⟨r, hr, hword, hone⟩ := last?_word t b
  obtain ⟨c, w, hc⟩ : ∃ c w, t ++ [b] = c :: w := List.exists_cons_of_ne_nil (by simp)
  have hlen : w.length = t.length := by
    have he := congrArg List.length hc
    simpa using he.symm
  rw [hc] at hr ⊢
  rw [lastWordStart, hr]
  dsimp only
  rw [hword, hlen]
  cases hb : Text.isWord b with
  | false => rfl
  | true =>
    have hmax : t.length + 1 - max r.bytes.length 1 = t.length := by simp [hone hb]
    rw [if_pos rfl, if_pos rfl, hmax, ← hc, List.take_left]

theorem lastWordStart_run (t : Text) :
    ∃ rest word, t = rest ++ word ∧ lastWordStart t = rest.length ∧
      ∀ b ∈ word, Text.isWord b = true := by
  induction t using List.reverseRecOn with
  | nil =>
    refine ⟨[], [], rfl, ?_, by simp⟩
    rw [lastWordStart]
    rfl
  | append_singleton t b ih =>
    rw [lastWordStart_append]
    cases hb : Text.isWord b with
    | false => exact ⟨t ++ [b], [], by simp, by simp, by simp⟩
    | true =>
      obtain ⟨rest, word, ht, hstart, hall⟩ := ih
      refine ⟨rest, word ++ [b], by rw [ht, List.append_assoc], hstart, fun d hd => ?_⟩
      rcases List.mem_append.1 hd with hd | hd
      · exact hall d hd
      · rw [List.mem_singleton.1 hd]
        exact hb

theorem lastWordStart_before (t : Text) :
    ∀ b ∈ (t.take (lastWordStart t)).getLast?, Text.isWord b = false := by
  induction t using List.reverseRecOn with
  | nil =>
    rw [List.take_nil]
    exact fun b hb => by cases hb
  | append_singleton t d ih =>
    rw [lastWordStart_append]
    cases hd : Text.isWord d with
    | false =>
      rw [if_neg Bool.false_ne_true, List.take_of_length_le (by simp), List.getLast?_concat]
      intro b hb
      cases hb
      exact hd
    | true =>
      obtain ⟨rest, word, ht, hstart, -⟩ := lastWordStart_run t
      have hle : lastWordStart t ≤ t.length := by
        rw [hstart, ht, List.length_append]
        exact Nat.le_add_right _ _
      rw [if_pos rfl, List.take_append_of_le_length hle]
      exact ih

/-- The word around a position consists of word bytes and lies within the text, with the position in
it or at its end. -/
theorem Word.at_cut (t : Text) (cursor : Int) :
    ∃ before left right after, t = before ++ left ++ right ++ after ∧
      clamp t cursor = (before ++ left).length ∧
      Word.at t cursor = ⟨left ++ right, before.length, (before ++ left ++ right).length⟩ ∧
      ∀ b ∈ left ++ right, Text.isWord b = true := by
  obtain ⟨before, left, hleft, hstart, hl⟩ := lastWordStart_run (t.take (clamp t cursor))
  obtain ⟨right, after, hright, hstop, hr⟩ := firstWordLength_run (t.drop (clamp t cursor))
  have ht : t = before ++ left ++ right ++ after := by
    rw [List.append_assoc, ← hleft, ← hright, List.take_append_drop]
  have hclamp : clamp t cursor = (before ++ left).length := by
    rw [← hleft, List.length_take, clamp, Nat.min_eq_left (Nat.min_le_right _ _)]
  refine ⟨before, left, right, after, ht, hclamp, ?_, fun b hb => ?_⟩
  · have hat : clamp t cursor + right.length = (before ++ left ++ right).length := by
      rw [hclamp, ← List.length_append]
    have hslice : (t.take (before ++ left ++ right).length).drop before.length = left ++ right := by
      rw [ht, List.take_left, List.append_assoc, List.drop_left]
    change (⟨_, _, _⟩ : Word) = _
    rw [hstart, hstop, hat, hslice]
  · rcases List.mem_append.1 hb with hb | hb
    · exact hl b hb
    · exact hr b hb

theorem Word.at_bounds (t : Text) (cursor : Int) :
    (Word.at t cursor).start ≤ clamp t cursor ∧ clamp t cursor ≤ (Word.at t cursor).stop ∧
      (Word.at t cursor).stop ≤ t.length := by
  obtain ⟨before, left, right, after, ht, hclamp, hword, -⟩ := Word.at_cut t cursor
  rw [hword, hclamp, ht]
  simp

theorem Word.at_maximal (t : Text) (cursor : Int) :
    (∀ b ∈ (t.take (Word.at t cursor).start).getLast?, Text.isWord b = false) ∧
      ∀ b ∈ (t.drop (Word.at t cursor).stop).head?, Text.isWord b = false := by
  have hle : lastWordStart (t.take (clamp t cursor)) ≤ clamp t cursor := (Word.at_bounds t cursor).1
  have hbefore := lastWordStart_before (t.take (clamp t cursor))
  have hafter := firstWordLength_after (t.drop (clamp t cursor))
  rw [List.take_take, Nat.min_eq_left hle] at hbefore
  rw [List.drop_drop] at hafter
  exact ⟨hbefore, hafter⟩

/-- A word is the run of word bytes around a position that no word byte precedes or follows. -/
structure Word.Spans (t : Text) (c : Nat) (w : Word) : Prop where
  start_le : w.start ≤ c
  le_stop : c ≤ w.stop
  stop_le : w.stop ≤ t.length
  word : ∀ i b, w.start ≤ i → i < w.stop → t[i]? = some b → Text.isWord b = true
  before : ∀ i b, i + 1 = w.start → t[i]? = some b → Text.isWord b = false
  after : ∀ b, t[w.stop]? = some b → Text.isWord b = false
  text : w.text = (t.take w.stop).drop w.start

/-- The word around a position as a scan for single bytes finds it. -/
def Word.scan (t : Text) (c : Nat) : Word :=
  let start := c - ((t.take c).reverse.takeWhile Text.isWord).length
  let stop := c + ((t.drop c).takeWhile Text.isWord).length
  ⟨(t.take stop).drop start, start, stop⟩

theorem isWord_iff (b : UInt8) : Text.isWord b = true ↔
    (97 ≤ b ∧ b ≤ 122) ∨ (65 ≤ b ∧ b ≤ 90) ∨ (48 ≤ b ∧ b ≤ 57) ∨ b = 95 := by
  have hbyte : byte 'a' = 97 ∧ byte 'z' = 122 ∧ byte 'A' = 65 ∧ byte 'Z' = 90 ∧
      byte '_' = 95 ∧ byte '0' = 48 ∧ byte '9' = 57 := by decide
  obtain ⟨ha, hz, hA, hZ, hunder, hzero, hnine⟩ := hbyte
  simp only [Text.isWord, Text.isLetter, Text.isDigit, ha, hz, hA, hZ, hunder, hzero, hnine,
    Bool.or_eq_true, Bool.and_eq_true, decide_eq_true_eq, beq_iff_eq]
  tauto

/-- Neither bound of one run lies inside another run around the same position. -/
theorem Word.Spans.meet (h : Word.Spans t c w) (h' : Word.Spans t c w') :
    w'.start ≤ w.start ∧ w.stop ≤ w'.stop := by
  have hstart := h'.start_le
  have hstop := h.le_stop
  have hle := h.stop_le
  constructor
  · by_contra hlt
    have hi : w'.start - 1 < t.length := by omega
    have hword := h.word _ _ (by omega) (by omega) (List.getElem?_eq_getElem hi)
    have hnot := h'.before _ _ (by omega) (List.getElem?_eq_getElem hi)
    exact Bool.false_ne_true (hnot.symm.trans hword)
  · by_contra hlt
    have hi : w'.stop < t.length := by omega
    have hword := h.word _ _ (by have := h.start_le; have := h'.le_stop; omega) (by omega)
      (List.getElem?_eq_getElem hi)
    have hnot := h'.after _ (List.getElem?_eq_getElem hi)
    exact Bool.false_ne_true (hnot.symm.trans hword)

theorem Word.Spans.unique (h : Word.Spans t c w) (h' : Word.Spans t c w') : w = w' := by
  obtain ⟨text, start, stop⟩ := w
  obtain ⟨text', start', stop'⟩ := w'
  obtain ⟨hstart, hstop⟩ := h.meet h'
  obtain ⟨hstart', hstop'⟩ := h'.meet h
  obtain rfl : start = start' := Nat.le_antisymm hstart' hstart
  obtain rfl : stop = stop' := Nat.le_antisymm hstop hstop'
  have htext : text = text' := h.text.trans h'.text.symm
  rw [htext]

theorem Word.at_spans (t : Text) (cursor : Int) :
    Word.Spans t (clamp t cursor) (Word.at t cursor) := by
  obtain ⟨before, left, right, after, ht, hclamp, hword, hall⟩ := Word.at_cut t cursor
  obtain ⟨hbefore, hafter⟩ := Word.at_maximal t cursor
  obtain ⟨hstart, hstop, hlen⟩ := Word.at_bounds t cursor
  refine ⟨hstart, hstop, hlen, ?_, ?_, ?_, rfl⟩
  · intro i b hi hi' hb
    have hmem : b ∈ left ++ right := by
      rw [hword] at hi hi'
      change before.length ≤ i at hi
      change i < (before ++ left ++ right).length at hi'
      rw [List.append_assoc, List.length_append] at hi'
      have hget : (left ++ right)[i - before.length]? = some b := by
        rw [← hb, ht, List.append_assoc before, List.append_assoc before,
          List.getElem?_append_right hi]
        exact (List.getElem?_append_left (by omega)).symm
      exact List.mem_of_getElem? hget
    exact hall b hmem
  · intro i b hi hb
    apply hbefore
    rw [List.getLast?_eq_getElem?, List.length_take_of_le (by omega), ← hi, Nat.add_sub_cancel,
      List.getElem?_take_of_lt (Nat.lt_succ_self i)]
    exact hb
  · intro b hb
    apply hafter
    rw [List.head?_drop]
    exact hb

/-- Walking back symbol by symbol stops where walking back byte by byte does. -/
theorem lastWordStart_eq (t : Text) :
    lastWordStart t = t.length - (t.reverse.takeWhile Text.isWord).length := by
  induction t using List.reverseRecOn with
  | nil =>
    rw [lastWordStart]
    rfl
  | append_singleton t b ih =>
    rw [lastWordStart_append, List.reverse_append, List.reverse_singleton,
      List.singleton_append, List.takeWhile_cons, List.length_append, List.length_singleton]
    cases hb : Text.isWord b with
    | false => rfl
    | true =>
      rw [if_pos rfl, if_pos rfl, List.length_cons, ih]
      omega

/-- The word around a position is the one run of word bytes there that is maximal on both sides. It
is what a scan for bytes finds, wherever the position lies within a character. -/
theorem Word.at_exact (t : Text) (cursor : Int) :
    (clamp t cursor : Int) = min (max cursor 0) t.length ∧
      (∀ w, Word.at t cursor = w ↔ w.Spans t (clamp t cursor)) ∧
      Word.at t cursor = Word.scan t (clamp t cursor) ∧
      ∀ b, Text.isWord b = true ↔
        (97 ≤ b ∧ b ≤ 122) ∨ (65 ≤ b ∧ b ≤ 90) ∨ (48 ≤ b ∧ b ≤ 57) ∨ b = 95 := by
  refine ⟨?_, ?_, ?_, isWord_iff⟩
  · rw [clamp]
    omega
  · intro w
    constructor
    · rintro rfl
      exact Word.at_spans t cursor
    · intro hw
      exact (Word.at_spans t cursor).unique hw
  · have hlen : (t.take (clamp t cursor)).length = clamp t cursor := by
      rw [List.length_take, clamp, Nat.min_eq_left (Nat.min_le_right _ _)]
    unfold Word.at Word.scan
    dsimp only
    rw [lastWordStart_eq, firstWordLength_eq, hlen]

/-- A position within a character of two bytes, with letters around it. -/
example : Word.at [97, 0xC3, 0xA9, 98] 2 = ⟨[], 2, 2⟩ := by decide +kernel

theorem receiverOf_ascii (h : receiverOf before = some name) :
    ∃ t b, before = t ++ [b] ∧ b < 0x80 := by
  unfold receiverOf at h
  obtain ⟨u, hu, -⟩ := Option.bind_eq_some_iff.1 h
  unfold dropDot? at hu
  split at hu
  · rename_i hdot
    rcases List.eq_nil_or_concat' before with rfl | ⟨t, b, rfl⟩
    · cases hdot
    · refine ⟨t, b, rfl, ?_⟩
      rw [trimEnd, List.reverse_append, List.reverse_singleton, List.singleton_append,
        List.dropWhile_cons] at hdot
      split at hdot
      · rename_i hblank
        simp only [Bool.or_eq_true, beq_iff_eq] at hblank
        rcases hblank with rfl | rfl <;> decide
      · rw [List.reverse_cons, List.reverse_reverse, List.getLast?_concat] at hdot
        cases hdot
        decide
  · cases hu

theorem Word.at_boundary {cs : List Char} {cursor : Int}
    (h : (Word.at (Text.ofChars cs) cursor).text ≠ []) :
    Text.Boundary cs (Word.at (Text.ofChars cs) cursor).start ∧
      Text.Boundary cs (Word.at (Text.ofChars cs) cursor).stop := by
  obtain ⟨before, left, right, after, ht, -, hword, hall⟩ := Word.at_cut (Text.ofChars cs) cursor
  rw [hword] at h ⊢
  dsimp only at h ⊢
  have hget (u v : Text) (b : UInt8) (hu : Text.ofChars cs = u ++ b :: v)
      (hb : b ∈ left ++ right) :
      Text.Boundary cs u.length ∧ Text.Boundary cs (u.length + 1) := by
    refine Text.boundary_of_ascii (b := b) ?_ (ascii_of_isWord (hall b hb))
    rw [hu, List.getElem?_append_right (Nat.le_refl _), Nat.sub_self]
    rfl
  obtain ⟨b, w, hfirst⟩ := List.exists_cons_of_ne_nil h
  obtain ⟨u, d, hlast⟩ := (List.eq_nil_or_concat' (left ++ right)).resolve_left h
  constructor
  · refine (hget before (w ++ after) b ?_ (hfirst ▸ List.mem_cons_self)).1
    rw [ht, List.append_assoc before, hfirst, List.append_assoc, List.cons_append]
  · have hd : d ∈ left ++ right := by
      rw [hlast]
      simp
    have hstop := (hget (before ++ u) after d ?_ hd).2
    · have hlen : (before ++ u).length + 1 = (before ++ left ++ right).length := by
        rw [List.append_assoc before, hlast]
        simp [Nat.add_assoc]
      rwa [hlen] at hstop
    · rw [ht, List.append_assoc before, hlast]
      simp

end LoxLang.Prompt
