import LoxLang.Proofs.Text.Utf8

namespace LoxLang
set_option autoImplicit true

namespace Utf8

theorem encode_ne_nil (c : Char) : encode c ≠ [] := by
  unfold encode
  dsimp only
  split
  · simp
  · split
    · simp
    · split <;> simp

theorem symbols_encode (c : Char) (t : Text) :
    symbols (encode c ++ t) = ⟨some c, encode c⟩ :: symbols t := by
  cases h : encode c with
  | nil => exact absurd h (encode_ne_nil c)
  | cons b w =>
    have hread := character?_encode c t h
    have hextent : extent b (w ++ t) = w.length := by
      unfold extent
      rw [hread]
    rw [List.cons_append, symbols, hextent, hread, List.take_left, List.drop_left]
    rfl

/-- A byte below 128 encodes a character on its own. -/
theorem encode_of_ascii (hb : b ∈ encode c) (h : b < 0x80) : encode c = [b] := by
  have hlt : b.toNat < 0x80 := UInt8.lt_iff_toNat_lt.1 h
  have hc := toNat_lt c
  have hlead (m n : Nat) (hm : 0x80 ≤ m) (hn : m + n < 256) : b ≠ (m + n).toUInt8 := by
    rintro rfl
    rw [toNat_toUInt8 hn] at hlt
    omega
  unfold encode at hb ⊢
  dsimp only at hb ⊢
  split at hb
  · rename_i hascii
    rw [if_pos hascii, List.mem_singleton.1 hb]
  · exfalso
    split at hb
    · rcases List.mem_cons.1 hb with hb | hb
      · exact hlead _ _ (by omega) (by omega) hb
      · exact hlead _ _ (by omega) (by omega) (List.mem_singleton.1 hb)
    · split at hb
      · simp only [List.mem_cons, List.not_mem_nil, or_false] at hb
        rcases hb with hb | hb | hb <;> exact hlead _ _ (by omega) (by omega) hb
      · simp only [List.mem_cons, List.not_mem_nil, or_false] at hb
        rcases hb with hb | hb | hb | hb <;> exact hlead _ _ (by omega) (by omega) hb

theorem character?_ascii (h : b < 0x80) (rest : Text) :
    character? b rest = some (Char.ofNat b.toNat, 0) := by
  have hlt : b.toNat < 0x80 := UInt8.lt_iff_toNat_lt.1 h
  have hv : b.toNat.isValidChar := .inl (by omega)
  rw [character?_eq_some_iff, lead_eq, if_pos hlt]
  exact ⟨_, _, rfl, rfl, rfl, Nat.zero_le _, (toNat_ofNat hv).symm⟩

theorem character?_beyond (h : ¬ b < 0x80) (hread : character? b rest = some (c, n)) :
    0x80 ≤ c.toNat ∧ n ≠ 0 := by
  have hle : ¬ b.toNat < 0x80 := fun hlt => h (UInt8.lt_iff_toNat_lt.2 hlt)
  obtain ⟨high, least, hl, -, -, hleast, -⟩ := (character?_eq_some_iff b rest).1 hread
  have hcases : least ≤ c.toNat ∧ 0x80 ≤ least ∧ n ≠ 0 := by
    refine ⟨hleast, ?_⟩
    rw [lead_eq, if_neg hle] at hl
    grind
  exact ⟨Nat.le_trans hcases.2.1 hcases.1, hcases.2.2⟩

end Utf8

namespace Text

@[simp] theorem ofChars_nil : ofChars [] = [] := rfl

theorem ofChars_cons (c : Char) (cs : List Char) : ofChars (c :: cs) = Utf8.encode c ++ ofChars cs :=
  rfl

@[simp] theorem ofChars_append (xs ys : List Char) :
    ofChars (xs ++ ys) = ofChars xs ++ ofChars ys := List.flatMap_append

/-- Encoded characters are read back. -/
@[simp] theorem chars_ofChars (cs : List Char) : (ofChars cs).chars = cs := by
  induction cs with
  | nil => rw [ofChars_nil, chars, Utf8.symbols]; rfl
  | cons c cs ih =>
    rw [ofChars_cons, chars, Utf8.symbols_encode, List.map_cons, ← chars, ih]
    rfl

/-- A position in the text of these characters that lies between two of them, or at an end. -/
def Boundary (cs : List Char) (i : Nat) : Prop :=
  ∃ before after, cs = before ++ after ∧ i = (ofChars before).length

theorem Boundary.start (cs : List Char) : Boundary cs 0 := ⟨[], cs, rfl, rfl⟩

theorem Boundary.cons (h : Boundary cs i) (c : Char) :
    Boundary (c :: cs) ((Utf8.encode c).length + i) := by
  obtain ⟨before, after, rfl, rfl⟩ := h
  exact ⟨c :: before, after, rfl, by rw [ofChars_cons, List.length_append]⟩

theorem boundary_of_ascii (h : (ofChars cs)[i]? = some b) (hb : b < 0x80) :
    Boundary cs i ∧ Boundary cs (i + 1) := by
  induction cs generalizing i with
  | nil => cases h
  | cons c cs ih =>
    rw [ofChars_cons] at h
    by_cases hi : i < (Utf8.encode c).length
    · rw [List.getElem?_append_left hi] at h
      have hmem := List.mem_of_getElem? h
      have hone := Utf8.encode_of_ascii hmem hb
      rw [hone, List.length_singleton] at hi
      obtain rfl : i = 0 := Nat.lt_one_iff.1 hi
      refine ⟨.start _, [c], cs, rfl, ?_⟩
      rw [ofChars_cons, hone]
      rfl
    · have hle := Nat.le_of_not_lt hi
      rw [List.getElem?_append_right hle] at h
      obtain ⟨hat, hafter⟩ := ih h
      have hcut : (Utf8.encode c).length + (i - (Utf8.encode c).length) = i := by omega
      refine ⟨hcut ▸ hat.cons c, ?_⟩
      have hcons := hafter.cons c
      rwa [← Nat.add_assoc, hcut] at hcons

theorem length_ofChars_pos (h : cs ≠ []) : 0 < (ofChars cs).length := by
  cases cs with
  | nil => exact absurd rfl h
  | cons c cs =>
    have hpos := List.length_pos_iff.2 (Utf8.encode_ne_nil c)
    rw [ofChars_cons, List.length_append]
    omega

theorem Boundary.cut (hi : Boundary cs i) (hj : Boundary cs j) (hle : i ≤ j) :
    ∃ before middle after, cs = before ++ middle ++ after ∧ i = (ofChars before).length ∧
      j = (ofChars (before ++ middle)).length := by
  obtain ⟨before, rest, rfl, rfl⟩ := hi
  obtain ⟨before', rest', he, rfl⟩ := hj
  rcases List.append_eq_append_iff.1 he with ⟨middle, rfl, rfl⟩ | ⟨middle, rfl, rfl⟩
  · exact ⟨before, middle, rest', by simp, rfl, rfl⟩
  · by_cases hm : middle = []
    · subst hm
      exact ⟨before', [], rest, by simp, by simp, by simp⟩
    · have hpos := length_ofChars_pos hm
      rw [ofChars_append, List.length_append] at hle
      omega

end Text

end LoxLang
