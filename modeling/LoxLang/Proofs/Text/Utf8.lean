import LoxLang.Text
import Mathlib.Data.List.Basic

namespace LoxLang

namespace Utf8
set_option autoImplicit true

theorem toUInt8_congr {m n : Nat} (h : m % 256 = n % 256) : m.toUInt8 = UInt8.ofNat n := by
  apply UInt8.toNat_inj.1
  simpa using h

theorem toNat_lt (c : Char) : c.toNat < 0x110000 := by
  have hv := c.valid
  simp only [UInt32.isValidChar, Nat.isValidChar] at hv
  change c.val.toNat < _
  omega

theorem encode_eq (c : Char) : encode c = String.utf8EncodeChar c := by
  have hc := toNat_lt c
  simp only [encode, String.utf8EncodeChar, Char.toNat] at hc ⊢
  generalize c.val.toNat = n at hc ⊢
  have hlast : (0x80 + n % 64).toUInt8 = UInt8.ofNat (n % 64 + 128) := toUInt8_congr (by omega)
  have hsecond : (0x80 + n / 64 % 64).toUInt8 = UInt8.ofNat (n / 64 % 64 + 128) :=
    toUInt8_congr (by omega)
  have hthird : (0x80 + n / 4096 % 64).toUInt8 = UInt8.ofNat (n / 4096 % 64 + 128) :=
    toUInt8_congr (by omega)
  by_cases h₁ : n < 0x80
  · rw [if_pos h₁, if_pos (show n ≤ 127 by omega)]
  rw [if_neg h₁, if_neg (show ¬ n ≤ 127 by omega)]
  by_cases h₂ : n < 0x800
  · rw [if_pos h₂, if_pos (show n ≤ 2047 by omega), hlast,
      toUInt8_congr (n := n / 64 % 32 + 192) (by omega)]
  rw [if_neg h₂, if_neg (show ¬ n ≤ 2047 by omega)]
  by_cases h₃ : n < 0x10000
  · rw [if_pos h₃, if_pos (show n ≤ 65535 by omega), hlast, hsecond,
      toUInt8_congr (n := n / 4096 % 16 + 224) (by omega)]
  rw [if_neg h₃, if_neg (show ¬ n ≤ 65535 by omega), hlast, hsecond, hthird,
    toUInt8_congr (n := n / 262144 % 8 + 240) (by omega)]

theorem isTail_iff (b : UInt8) : isTail b = true ↔ 0x80 ≤ b.toNat ∧ b.toNat < 0xC0 := by
  simp [isTail, UInt8.le_iff_toNat_le, UInt8.lt_iff_toNat_lt]

theorem lead_eq (b : UInt8) : lead b =
    if b.toNat < 0x80 then some (0, b.toNat, 0)
    else if b.toNat < 0xC0 then none
    else if b.toNat < 0xE0 then some (1, b.toNat - 0xC0, 0x80)
    else if b.toNat < 0xF0 then some (2, b.toNat - 0xE0, 0x800)
    else if b.toNat < 0xF8 then some (3, b.toNat - 0xF0, 0x10000)
    else none := by
  simp [lead, UInt8.lt_iff_toNat_lt]

/-- The number that the bits of a lead byte and the bytes after it form. -/
def code (high : Nat) (tails : Text) : Nat :=
  tails.foldl (fun v t => v * 64 + (t.toNat - 0x80)) high

theorem toNat_ofNat {n : Nat} (h : n.isValidChar) : (Char.ofNat n).toNat = n := by
  rw [Char.ofNat, dif_pos h]
  rfl

theorem character?_eq_some_iff (b : UInt8) (rest : Text) :
    character? b rest = some (c, n) ↔ ∃ high least, lead b = some (n, high, least) ∧
      (rest.take n).length = n ∧ (rest.take n).all isTail ∧ least ≤ c.toNat ∧
      code high (rest.take n) = c.toNat := by
  rw [character?]
  constructor
  · intro h
    split at h
    · cases h
    · rename_i k high least hl
      dsimp only at h
      split at h
      · rename_i hok
        simp only [Option.some.injEq, Prod.mk.injEq] at h
        obtain ⟨rfl, rfl⟩ := h
        obtain ⟨hlen, hall, hle, hv⟩ := hok
        have hcode := toNat_ofNat hv
        exact ⟨high, least, hl, hlen, hall, hcode.symm ▸ hle, hcode.symm⟩
      · cases h
  · rintro ⟨high, least, hl, hlen, hall, hle, hcode⟩
    rw [hl]
    unfold code at hcode
    dsimp only
    rw [hcode, if_pos ⟨hlen, hall, hle, c.valid⟩, Char.ofNat_toNat]

theorem toNat_toUInt8 {n : Nat} (h : n < 256) : n.toUInt8.toNat = n := by simpa using h

theorem isTail_toUInt8 (n : Nat) : isTail (0x80 + n % 64).toUInt8 := by
  rw [isTail_iff, toNat_toUInt8 (by omega)]
  omega

theorem toNat_tail (n : Nat) : (0x80 + n % 64).toUInt8.toNat = 0x80 + n % 64 :=
  toNat_toUInt8 (by omega)

theorem character?_encode (c : Char) (rest : Text) (h : encode c = b :: w) :
    character? b (w ++ rest) = some (c, w.length) := by
  have hc := toNat_lt c
  rw [character?_eq_some_iff, List.take_left, lead_eq]
  unfold encode at h
  simp only at h
  generalize c.toNat = n at *
  split at h
  · cases h
    rw [toNat_toUInt8 (by omega), if_pos (by omega)]
    exact ⟨n, 0, rfl, rfl, rfl, by omega, rfl⟩
  split at h
  · cases h
    rw [toNat_toUInt8 (by omega), if_neg (by omega), if_neg (by omega), if_pos (by omega)]
    refine ⟨_, _, rfl, rfl, ?_, by omega, ?_⟩
    · simp only [List.all_cons, List.all_nil, isTail_toUInt8, Bool.and_self]
    simp only [code, List.foldl_cons, List.foldl_nil, toNat_tail]
    omega
  split at h
  · cases h
    rw [toNat_toUInt8 (by omega), if_neg (by omega), if_neg (by omega), if_neg (by omega),
      if_pos (by omega)]
    refine ⟨_, _, rfl, rfl, ?_, by omega, ?_⟩
    · simp only [List.all_cons, List.all_nil, isTail_toUInt8, Bool.and_self]
    simp only [code, List.foldl_cons, List.foldl_nil, toNat_tail]
    omega
  · cases h
    rw [toNat_toUInt8 (by omega), if_neg (by omega), if_neg (by omega), if_neg (by omega),
      if_neg (by omega), if_pos (by omega)]
    refine ⟨_, _, rfl, rfl, ?_, by omega, ?_⟩
    · simp only [List.all_cons, List.all_nil, isTail_toUInt8, Bool.and_self]
    simp only [code, List.foldl_cons, List.foldl_nil, toNat_tail]
    omega

theorem toUInt8_eq {n : Nat} (h : n = b.toNat) : n.toUInt8 = b := by
  apply UInt8.toNat_inj.1
  have hb := b.toNat_lt
  rw [toNat_toUInt8 (by omega), h]

theorem encode_of_character? (h : character? b rest = some (c, n)) :
    (rest.take n).length = n ∧ encode c = b :: rest.take n := by
  obtain ⟨high, least, hl, hlen, hall, hle, hcode⟩ := (character?_eq_some_iff b rest).1 h
  refine ⟨hlen, ?_⟩
  generalize rest.take n = w at *
  rw [lead_eq] at hl
  have hb := b.toNat_lt
  unfold encode
  generalize c.toNat = m at *
  dsimp only
  split at hl
  · simp only [Option.some.injEq, Prod.mk.injEq] at hl
    obtain ⟨rfl, rfl, rfl⟩ := hl
    obtain rfl := List.length_eq_zero_iff.1 hlen
    simp only [code, List.foldl_nil] at hcode
    rw [if_pos (by omega), toUInt8_eq hcode.symm]
  split at hl
  · cases hl
  split at hl
  · simp only [Option.some.injEq, Prod.mk.injEq] at hl
    obtain ⟨rfl, rfl, rfl⟩ := hl
    obtain ⟨t, rfl⟩ := List.length_eq_one_iff.1 hlen
    simp only [List.all_cons, List.all_nil, Bool.and_true, isTail_iff] at hall
    simp only [code, List.foldl_cons, List.foldl_nil] at hcode
    rw [if_neg (by omega), if_pos (by omega), toUInt8_eq (b := b) (by omega),
      toUInt8_eq (b := t) (by omega)]
  split at hl
  · simp only [Option.some.injEq, Prod.mk.injEq] at hl
    obtain ⟨rfl, rfl, rfl⟩ := hl
    obtain ⟨t, u, rfl⟩ := List.length_eq_two.1 hlen
    simp only [List.all_cons, List.all_nil, Bool.and_true, Bool.and_eq_true, isTail_iff] at hall
    simp only [code, List.foldl_cons, List.foldl_nil] at hcode
    rw [if_neg (by omega), if_neg (by omega), if_pos (by omega), toUInt8_eq (b := b) (by omega),
      toUInt8_eq (b := t) (by omega), toUInt8_eq (b := u) (by omega)]
  split at hl
  · simp only [Option.some.injEq, Prod.mk.injEq] at hl
    obtain ⟨rfl, rfl, rfl⟩ := hl
    obtain ⟨t, u, v, rfl⟩ := List.length_eq_three.1 hlen
    simp only [List.all_cons, List.all_nil, Bool.and_true, Bool.and_eq_true, isTail_iff] at hall
    simp only [code, List.foldl_cons, List.foldl_nil] at hcode
    rw [if_neg (by omega), if_neg (by omega), if_neg (by omega), toUInt8_eq (b := b) (by omega),
      toUInt8_eq (b := t) (by omega), toUInt8_eq (b := u) (by omega),
      toUInt8_eq (b := v) (by omega)]
  · cases hl

end Utf8

end LoxLang
