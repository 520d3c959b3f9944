import LoxLang.Number.Layout
import Mathlib.Data.BitVec

namespace LoxLang.Double
set_option autoImplicit true

open Float.Model Float.Model.UnpackedFloat

/-- A double without a sign that is a number or infinite. -/
def Unsigned (x : Float) : Prop := x.toBits.toNat ≤ 2047 * Nat.pow 2 52

instance (x : Float) : Decidable (Unsigned x) := inferInstanceAs (Decidable (_ ≤ _))

theorem two_pow_52 : Nat.pow 2 52 = 4503599627370496 := rfl

theorem two_pow_53 : Nat.pow 2 53 = 9007199254740992 := rfl

theorem two_pow_63 : Nat.pow 2 63 = 9223372036854775808 := rfl

theorem eq_of_toBits {x y : Float} (h : x.toBits = y.toBits) : x = y := by
  obtain ⟨⟨b, hb⟩⟩ := x
  obtain ⟨⟨c, hc⟩⟩ := y
  obtain rfl : b = c := h
  rfl

theorem infinity_unsigned : Unsigned infinity := by decide +kernel

theorem zero_unsigned : Unsigned 0 := by decide +kernel

theorem toNat_packComponents (e : BitVec 11) (m : BitVec 52) :
    (packComponents .binary64 .positive e m).toNat = e.toNat * Nat.pow 2 52 + m.toNat := by
  have hm := m.isLt
  unfold packComponents
  rw [BitVec.toNat_append, BitVec.toNat_append]
  change ((0 <<< 11 ||| e.toNat) <<< 52 ||| m.toNat) = _
  rw [Nat.zero_shiftLeft, Nat.zero_or, Nat.shiftLeft_eq, Nat.mul_comm,
    ← Nat.two_pow_add_eq_or_of_lt hm, Nat.mul_comm]

/-- A significand and an exponent that are packed keep their bits: the exponent is none for a
significand that is not full. -/
theorem toNat_pack_finite {m : Nat} {e : Int} (hm : 0 < m) (hlt : m < Nat.pow 2 53)
    (hlow : -1074 ≤ e) (hhigh : e ≤ 971) :
    (UnpackedFloat.pack .binary64 (.finite .positive m e hm)).toNat =
      if m < Nat.pow 2 52 then m else (e + 1074).toNat * Nat.pow 2 52 + m := by
  have hpow := two_pow_52
  have hpow' := two_pow_53
  have hbiased : (e + (Float.Model.Format.binary64.exponentBias : Nat) + (52 : Nat)).toNat =
      (e + 1075).toNat := by
    change (e + (1023 : Nat) + (52 : Nat)).toNat = _
    omega
  have hfinite : ¬ 2 ^ Float.Model.Format.binary64.exponentBits ≤ (e + 1075).toNat + 1 := by
    change ¬ 2048 ≤ _
    omega
  unfold UnpackedFloat.pack
  dsimp only
  rw [hbiased, if_neg hfinite]
  by_cases hfull : m < Nat.pow 2 52
  · have hlog : m.log2 < 52 := (Nat.log2_lt (by omega)).2 hfull
    have hsmall : ¬ m.log2 + 1 = Float.Model.Format.binary64.mantissaBits := by
      change ¬ m.log2 + 1 = 53
      omega
    rw [if_neg hsmall, if_pos hfull, toNat_packComponents]
    change 0 * _ + m % Nat.pow 2 52 = m
    rw [Nat.zero_mul, Nat.zero_add, Nat.mod_eq_of_lt hfull]
  · have hlog : m.log2 = 52 := (Nat.log2_eq_iff (by omega)).2 ⟨Nat.le_of_not_lt hfull, hlt⟩
    have hnormal : m.log2 + 1 = Float.Model.Format.binary64.mantissaBits := by
      rw [hlog]
      rfl
    rw [if_pos hnormal, if_neg hfull, toNat_packComponents, BitVec.toNat_ofNat,
      BitVec.toNat_ofNat]
    change (e + 1075).toNat % 2048 * Nat.pow 2 52 + m % Nat.pow 2 52 = _
    rw [hpow]
    omega

theorem toNat_unpackExponent {b : UInt64} (h : b.toNat < Nat.pow 2 63) :
    (@unpackExponent .binary64 b.toBitVec).toNat = b.toNat / Nat.pow 2 52 := by
  have hbits : (@unpackExponent .binary64 b.toBitVec).toNat = b.toNat >>> 52 % 2048 := by
    change (BitVec.cast rfl (BitVec.extractLsb 62 52 b.toBitVec)).toNat = _
    rw [BitVec.toNat_cast, BitVec.extractLsb_toNat]
    rfl
  have hpow := two_pow_63
  rw [hbits, Nat.shiftRight_eq_div_pow]
  change b.toNat / 4503599627370496 % 2048 = b.toNat / 4503599627370496
  omega

theorem toNat_unpackMantissa (b : UInt64) :
    (@unpackMantissa .binary64 b.toBitVec).toNat = b.toNat % Nat.pow 2 52 := by
  change (BitVec.cast rfl (BitVec.extractLsb 51 0 b.toBitVec)).toNat = _
  rw [BitVec.toNat_cast, BitVec.extractLsb_toNat]
  rfl

theorem unpackSign_positive {b : UInt64} (h : b.toNat < Nat.pow 2 63) :
    Sign.ofBitVec (@unpackSign .binary64 b.toBitVec) = .positive := by
  have hpow := two_pow_63
  unfold Sign.ofBitVec
  apply if_pos
  apply BitVec.eq_of_toNat_eq
  have hbit : b.toNat >>> 63 % 2 = 0 := by
    rw [Nat.shiftRight_eq_div_pow]
    omega
  change (BitVec.cast rfl (BitVec.extractLsb 63 63 b.toBitVec)).toNat = 0
  rw [BitVec.toNat_cast, BitVec.extractLsb_toNat]
  exact hbit

theorem toNat_ofBits {b : UInt64} (h : b.toNat < 2047 * Nat.pow 2 52) :
    (Float.ofBits b).toBits.toNat = b.toNat := by
  have hpow := two_pow_52
  have hpow' := two_pow_53
  have hpow'' := two_pow_63
  have hbias : Float.Model.Format.binary64.exponentBias = 1023 := rfl
  have hexponent := toNat_unpackExponent (b := b) (by omega)
  have hfraction := toNat_unpackMantissa b
  rw [hpow] at h hexponent hfraction
  have hinfinite : @unpackExponent .binary64 b.toBitVec ≠ -1#11 := by
    intro he
    have hnat : b.toNat / 4503599627370496 = 2047 := hexponent ▸ congrArg BitVec.toNat he
    omega
  change (UnpackedFloat.pack .binary64 (UnpackedFloat.unpack .binary64 b.toBitVec)).toNat = _
  unfold UnpackedFloat.unpack
  dsimp only
  rw [if_neg hinfinite, unpackSign_positive (by omega)]
  by_cases hsmall : @unpackExponent .binary64 b.toBitVec = 0#11
  · have hnone : b.toNat / 4503599627370496 = 0 := hexponent ▸ congrArg BitVec.toNat hsmall
    rw [if_pos hsmall]
    by_cases hzero : @unpackMantissa .binary64 b.toBitVec = 0#52
    · have hnone' : b.toNat % 4503599627370496 = 0 := hfraction ▸ congrArg BitVec.toNat hzero
      rw [dif_pos hzero]
      change 0 = b.toNat
      omega
    · rw [dif_neg hzero, toNat_pack_finite _ (by omega) (by omega) (by omega), hfraction, hpow,
        if_pos (by omega)]
      omega
  · have hsome : b.toNat / 4503599627370496 ≠ 0 := fun hnone =>
      hsmall (BitVec.eq_of_toNat_eq (hexponent.trans hnone))
    have hwhole : (1#1 ++ @unpackMantissa .binary64 b.toBitVec).toNat =
        4503599627370496 + b.toNat % 4503599627370496 := by
      rw [BitVec.toNat_append, hfraction]
      change 1 <<< 52 ||| _ = _
      rw [Nat.shiftLeft_eq, Nat.mul_comm, ← Nat.two_pow_add_eq_or_of_lt (by omega)]
    rw [if_neg hsmall, toNat_pack_finite _ (by omega) (by omega) (by omega), hwhole, hpow,
      if_neg (by omega), hexponent]
    omega

theorem ofBits_unsigned {b : UInt64} (h : b.toNat < 2047 * Nat.pow 2 52) :
    Unsigned (Float.ofBits b) := by
  rw [Unsigned, toNat_ofBits h]
  exact h.le

theorem toNat_toUInt64_le (n : Nat) : n.toUInt64.toNat ≤ n := by
  rw [Nat.toUInt64, UInt64.toNat_ofNat']
  exact Nat.mod_le _ _

theorem ofRatio_unsigned (num den : Nat) : Unsigned (ofRatio num den) := by
  unfold ofRatio
  split
  · exact zero_unsigned
  · dsimp only
    split
    · exact infinity_unsigned
    · rename_i hbits
      apply ofBits_unsigned
      exact Nat.lt_of_le_of_lt (toNat_toUInt64_le _) (Nat.lt_of_not_le hbits)

theorem ofDecimal_unsigned (digits : Nat) (exponent : Int) :
    Unsigned (ofDecimal digits exponent) := by
  unfold ofDecimal
  dsimp only
  split
  · exact zero_unsigned
  · split
    · exact infinity_unsigned
    · split
      · exact zero_unsigned
      · exact ofRatio_unsigned _ _

theorem ofPositional_unsigned (t : Text) : Unsigned (ofPositional t) := ofDecimal_unsigned _ _

structure Canonical (m : Nat) (q : Int) : Prop where
  low : -1074 ≤ q
  high : q ≤ 971
  bits : m < Nat.pow 2 53
  full : Nat.pow 2 52 ≤ m ∨ q = -1074

theorem magnitude_unsigned (h : Unsigned x) :
    magnitude x = .infinite ∧ x.toBits.toNat = 2047 * Nat.pow 2 52 ∨
      ∃ m q, magnitude x = .finite m q ∧ Canonical m q ∧
        x.toBits.toNat = if m < Nat.pow 2 52 then m else (q + 1074).toNat * Nat.pow 2 52 + m := by
  have hpow := two_pow_52
  have hpow' := two_pow_53
  have hsign := two_pow_63
  unfold Unsigned at h
  unfold magnitude
  rw [hpow] at h ⊢
  rw [hsign]
  dsimp only
  generalize x.toBits.toNat = n at h ⊢
  have hmod : n % 9223372036854775808 = n := by omega
  rw [hmod]
  split
  · rename_i he
    have hzero : n % 4503599627370496 = 0 := by omega
    rw [if_pos hzero]
    exact .inl ⟨rfl, by omega⟩
  · split
    · refine .inr ⟨_, _, rfl, ⟨by omega, by omega, ?_, .inr rfl⟩, ?_⟩
      · rw [hpow']
        omega
      · rw [if_pos (by omega)]
        omega
    · refine .inr ⟨_, _, rfl, ⟨by omega, by omega, ?_, .inl ?_⟩, ?_⟩
      · rw [hpow']
        omega
      · rw [hpow]
        omega
      · rw [if_neg (by omega)]
        omega

theorem unsigned_of_finite (hsign : isNegative x = false) (h : magnitude x = .finite m q) :
    Unsigned x := by
  have hpow := two_pow_52
  have hpow' := two_pow_63
  have hlt := of_decide_eq_false hsign
  unfold magnitude at h
  unfold Unsigned
  dsimp only at h
  rw [hpow, hpow'] at h
  rw [hpow'] at hlt
  rw [hpow]
  split at h
  · split at h <;> cases h
  · omega

theorem eq_of_magnitude (hx : Unsigned x) (hy : Unsigned y) (h : magnitude x = magnitude y) :
    x = y := by
  apply eq_of_toBits
  apply UInt64.toNat_inj.1
  rcases magnitude_unsigned hx with ⟨hmx, hbx⟩ | ⟨m, q, hmx, -, hbx⟩
  · rcases magnitude_unsigned hy with ⟨hmy, hby⟩ | ⟨m', q', hmy, -, hby⟩
    · rw [hbx, hby]
    · rw [hmx, hmy] at h
      cases h
  · rcases magnitude_unsigned hy with ⟨hmy, hby⟩ | ⟨m', q', hmy, -, hby⟩
    · rw [hmx, hmy] at h
      cases h
    · rw [hmx, hmy] at h
      cases h
      rw [hbx, hby]

end LoxLang.Double
