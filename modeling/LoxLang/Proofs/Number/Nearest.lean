import LoxLang.Proofs.Number.Layout

namespace LoxLang
set_option autoImplicit true

namespace Double

open Decimal (Near gap pow_toNat two_zpow_add)

/-- A rounded quotient is at most a half off, and half off only if it is even. -/
theorem roundDiv_close (num : Nat) (hden : 0 < den) :
    2 * (roundDiv num den * den) ≤ 2 * num + den ∧ 2 * num ≤ 2 * (roundDiv num den * den) + den ∧
      (roundDiv num den % 2 = 1 → 2 * (roundDiv num den * den) < 2 * num + den ∧
        2 * num < 2 * (roundDiv num den * den) + den) := by
  have hsum := Nat.div_add_mod num den
  have hlt := Nat.mod_lt num hden
  unfold roundDiv
  dsimp only
  rw [Nat.mul_comm] at hsum
  generalize num % den = rest at hsum hlt
  generalize num / den = quotient at hsum
  have hup : (quotient + 1) * den = quotient * den + den := Nat.succ_mul quotient den
  split
  · rename_i hcmp
    have hrest := Nat.compare_eq_lt.1 hcmp
    omega
  · rename_i hcmp
    have hrest := Nat.compare_eq_gt.1 hcmp
    omega
  · rename_i hcmp
    have hrest := Nat.compare_eq_eq.1 hcmp
    split <;> omega

/-- The scale is the one at which a quotient has 53 bits before the point, or the least. -/
theorem scale_bounds {num den : Nat} (hnum : 0 < num) (hden : 0 < den) :
    -1074 ≤ scale num den ∧ (num : ℚ) / den < 2 ^ (scale num den + 53) ∧
      (scale num den = -1074 ∨ 2 ^ (scale num den + 52) ≤ (num : ℚ) / den) := by
  obtain ⟨hbelow, habove⟩ := Decimal.log2_quotient hnum hden
  have hfull (k : Int) : den * Nat.pow 2 k.toNat ≤ num * Nat.pow 2 (-k).toNat ↔
      (2 : ℚ) ^ k ≤ num / den := Decimal.pow_le_quotient_iff Nat.zero_lt_two hden
  unfold scale
  dsimp only
  rw [if_congr (hfull _) rfl rfl]
  generalize (Nat.log2 num : Int) - Nat.log2 den = guess at hbelow habove
  -- Before it is cut off, the scale is such that the quotient has 53 bits.
  have hbits (k : Int) (hlow : (2 : ℚ) ^ (k + 52) ≤ num / den)
      (hhigh : (num : ℚ) / den < 2 ^ (k + 53)) : -1074 ≤ max k (-1074) ∧
      (num : ℚ) / den < 2 ^ (max k (-1074) + 53) ∧
        (max k (-1074) = -1074 ∨ 2 ^ (max k (-1074) + 52) ≤ (num : ℚ) / den) := by
    refine ⟨le_max_right _ _, hhigh.trans_le ?_, ?_⟩
    · exact zpow_le_zpow_right₀ (by norm_num) (by omega)
    · rcases le_total k (-1074) with hk | hk
      · exact .inl (max_eq_right hk)
      · rw [max_eq_left hk]
        exact .inr hlow
  split
  · rename_i hreach
    apply hbits
    · rwa [show guess - 53 + 1 + 52 = 53 + (guess - 53) by omega]
    · rwa [show guess - 53 + 1 + 53 = guess + 1 by omega]
  · rename_i hreach
    apply hbits
    · rw [show guess - 53 + 52 = guess - 1 by omega]
      exact hbelow.le
    · rw [show guess - 53 + 53 = 53 + (guess - 53) by omega]
      exact lt_of_not_ge hreach

theorem scaled_le_iff {num den : Nat} {v : ℚ} {q : Int} (hden : 0 < den)
    (hv : v * den = num * 2 ^ q) (k : Nat) :
    ((k : ℚ) * 2 ^ (q - 2) ≤ v ↔ k * den ≤ 4 * num) ∧
      (v ≤ k * 2 ^ (q - 2) ↔ 4 * num ≤ k * den) := by
  have hdenpos : (0 : ℚ) < den := by exact_mod_cast hden
  have hunit : (0 : ℚ) < 2 ^ (q - 2) := by positivity
  have hfour : (2 : ℚ) ^ q = 4 * 2 ^ (q - 2) := by
    have hadd := two_zpow_add (q - 2) 2
    rw [show q - 2 + (2 : Nat) = q by omega] at hadd
    rw [hadd]
    push_cast
    ring
  have hnum : v * den = ((4 * num : Nat) : ℚ) * 2 ^ (q - 2) := by
    rw [hv, hfour]
    push_cast
    ring
  have hk : (k : ℚ) * 2 ^ (q - 2) * den = ((k * den : Nat) : ℚ) * 2 ^ (q - 2) := by
    push_cast
    ring
  constructor
  · rw [← mul_le_mul_iff_of_pos_right hdenpos, hnum, hk, mul_le_mul_iff_of_pos_right hunit,
      Nat.cast_le]
  · rw [← mul_le_mul_iff_of_pos_right hdenpos, hnum, hk, mul_le_mul_iff_of_pos_right hunit,
      Nat.cast_le]

theorem near_of_scaled {num den : Nat} {v : ℚ} {q : Int} (hden : 0 < den)
    (hv : v * den = num * 2 ^ q) (hlow : (4 * m - gap m q) * den ≤ 4 * num)
    (hhigh : 4 * num ≤ (4 * m + 2) * den)
    (hodd : m % 2 = 1 → (4 * m - gap m q) * den < 4 * num ∧ 4 * num < (4 * m + 2) * den) :
    Near m q v := by
  have hbelow := scaled_le_iff hden hv (4 * m - gap m q)
  have habove := scaled_le_iff hden hv (4 * m + 2)
  refine ⟨hbelow.1.2 hlow, habove.2.2 hhigh, fun h => ?_⟩
  obtain ⟨hstrict, hstrict'⟩ := hodd h
  exact ⟨lt_of_not_ge fun hle => (hbelow.2.1 hle).not_gt hstrict,
    lt_of_not_ge fun hle => (habove.1.1 hle).not_gt hstrict'⟩

/-- A double is the only one that its numbers are near, also among those too large for one. -/
theorem eq_of_near (h : Near m q v) (hc : Canonical m q) (h' : Near m' q' v) (hlow : -1074 ≤ q')
    (hbits : m' < Nat.pow 2 53) (hfull : Nat.pow 2 52 ≤ m' ∨ q' = -1074) : m' = m ∧ q' = q := by
  have hle := h.not_above h' hc.low hc.bits hfull
  have hhigh := hc.high
  exact h'.unique h ⟨hlow, by omega, hbits, hfull⟩ hc

section Rounding

variable {num den : Nat} {s : Int} {v : ℚ}

/-- A quotient of at most 53 bits before the point is rounded to one of at most 53, or to the least
one of 54. -/
theorem roundDiv_bounds (hden : 0 < den) (hup : num < Nat.pow 2 53 * den)
    (hfull : s = -1074 ∨ Nat.pow 2 52 * den ≤ num) :
    roundDiv num den ≤ Nat.pow 2 53 ∧ (Nat.pow 2 52 ≤ roundDiv num den ∨ s = -1074) := by
  have hpow := two_pow_52
  have hpow' := two_pow_53
  obtain ⟨hdown, habove, -⟩ := roundDiv_close num hden
  generalize roundDiv num den = r at hdown habove ⊢
  rw [hpow'] at hup ⊢
  rw [hpow] at hfull ⊢
  constructor
  · by_contra hgt
    have hmul := Nat.mul_le_mul_right den (show 9007199254740993 ≤ r by omega)
    omega
  · refine hfull.symm.imp_left fun hfull => ?_
    by_contra hlt
    have hmul := Nat.mul_le_mul_right den (show r + 1 ≤ 4503599627370496 by omega)
    rw [Nat.succ_mul] at hmul
    omega

theorem near_roundDiv (hden : 0 < den) (hv : v * den = num * 2 ^ s)
    (hfull : s = -1074 ∨ Nat.pow 2 52 * den ≤ num) : Near (roundDiv num den) s v := by
  obtain ⟨hdown, habove, hodd⟩ := roundDiv_close num hden
  generalize roundDiv num den = r at hdown habove hodd ⊢
  have hgap : gap r s = 2 ∨ gap r s = 1 ∧ r = Nat.pow 2 52 ∧ -1074 < s := by
    unfold gap
    split
    · rename_i hleast
      exact .inr ⟨rfl, hleast⟩
    · exact .inl rfl
  have hhigh : (4 * r + 2) * den = 4 * (r * den) + 2 * den := by ring
  have hscaled : (4 * r - gap r s) * den = 4 * (r * den) - gap r s * den := by
    rw [Nat.sub_mul, Nat.mul_assoc]
  apply near_of_scaled hden hv
  · rw [hscaled]
    rcases hgap with htwo | ⟨hone, hr, hs⟩
    · rw [htwo]
      omega
    · -- The neighbour below is nearer there, but the quotient is not below the significand.
      have hfloor := hfull.resolve_left (by omega)
      rw [← hr] at hfloor
      rw [hone]
      omega
  · rw [hhigh]
    omega
  · intro h
    obtain ⟨hstrict, hstrict'⟩ := hodd h
    have hpos := Nat.le_mul_of_pos_left den (show 0 < r by omega)
    have htwo : gap r s = 2 := hgap.resolve_right fun ⟨_, hr, _⟩ => by
      rw [hr] at h
      exact absurd h (by decide)
    rw [hscaled, hhigh, htwo]
    omega

/-- A quotient that is rounded to 54 bits is near the least significand one place up. -/
theorem near_carry (hden : 0 < den) (hv : v * den = num * 2 ^ s) (hlow : -1074 ≤ s)
    (hup : num < Nat.pow 2 53 * den) (hround : roundDiv num den = Nat.pow 2 53) :
    Near (Nat.pow 2 52) (s + 1) v := by
  have hpow := two_pow_52
  have hpow' := two_pow_53
  obtain ⟨hdown, -⟩ := roundDiv_close num hden
  rw [hround, hpow'] at hdown
  rw [hpow'] at hup
  have hv' : v * (2 * den : Nat) = (num : ℚ) * 2 ^ (s + 1) := by
    have hdouble := two_zpow_add s 1
    push_cast at hdouble ⊢
    rw [hdouble, mul_left_comm, hv]
    ring
  have hgap : gap (Nat.pow 2 52) (s + 1) = 1 := if_pos ⟨rfl, by omega⟩
  apply near_of_scaled (Nat.mul_pos Nat.zero_lt_two hden) hv'
  · rw [hgap, hpow]
    omega
  · rw [hpow]
    omega
  · intro h
    exact absurd h (by decide)

/-- What a quotient is rounded to makes, with its scale, the double that the quotient is near. A
significand of 54 bits stands for the next exponent. -/
theorem round_of_near (hden : 0 < den) (hv : v * den = num * 2 ^ s) (hlow : -1074 ≤ s)
    (hup : num < Nat.pow 2 53 * den) (hfull : s = -1074 ∨ Nat.pow 2 52 * den ≤ num)
    (h : Near m q v) (hc : Canonical m q) :
    (s + 1074).toNat * Nat.pow 2 52 + roundDiv num den = (q + 1074).toNat * Nat.pow 2 52 + m := by
  have hpow := two_pow_52
  have hpow' := two_pow_53
  obtain ⟨hle, hge⟩ := roundDiv_bounds hden hup hfull
  rcases Nat.lt_or_eq_of_le hle with hlt | heq
  · obtain ⟨rfl, rfl⟩ := eq_of_near h hc (near_roundDiv hden hv hfull) hlow hlt hge
    rfl
  · obtain ⟨rfl, rfl⟩ := eq_of_near h hc (near_carry hden hv hlow hup heq) (by omega)
      (by decide) (.inl (Nat.le_refl _))
    rw [heq, hpow, hpow']
    omega

theorem lt_two_zpow_iff (hden : 0 < den) (hv : v * den = num * 2 ^ s) (k : Nat) :
    v < 2 ^ (s + k) ↔ num < Nat.pow 2 k * den := by
  have hdenpos : (0 : ℚ) < den := by exact_mod_cast hden
  have hunit : (0 : ℚ) < 2 ^ s := by positivity
  have hscaled : (2 : ℚ) ^ (s + k) * den = ((Nat.pow 2 k * den : Nat) : ℚ) * 2 ^ s := by
    rw [two_zpow_add, show Nat.pow 2 k = 2 ^ k from rfl]
    push_cast
    ring
  rw [← mul_lt_mul_iff_of_pos_right hdenpos, hv, hscaled, mul_lt_mul_iff_of_pos_right hunit,
    Nat.cast_lt]

end Rounding

theorem Canonical.bits_lt (hc : Canonical m q) :
    (q + 1074).toNat * Nat.pow 2 52 + m < 2047 * Nat.pow 2 52 := by
  have hpow := two_pow_52
  have hpow' := two_pow_53
  obtain ⟨-, hhigh, hbits, -⟩ := hc
  rw [hpow]
  omega

theorem toNat_ofRatio {num den : Nat} (hden : 0 < den) (h : Near m q ((num : ℚ) / den))
    (hc : Canonical m q) :
    (ofRatio num den).toBits.toNat = (q + 1074).toNat * Nat.pow 2 52 + m := by
  rcases Nat.eq_zero_or_pos num with rfl | hnum
  · have hnear : Near 0 (-1074) ((0 : Nat) / den : ℚ) := by
      have hv : ((0 : Nat) / den : ℚ) * den = (0 : Nat) * 2 ^ (-1074 : Int) := by simp
      apply near_of_scaled hden hv
      · simp
      · simp
      · intro hodd
        cases hodd
    obtain ⟨rfl, rfl⟩ := eq_of_near h hc hnear (by decide) (by decide) (.inr rfl)
    unfold ofRatio
    rw [if_pos (.inl rfl)]
    rfl
  · obtain ⟨hlow, hup, hfull⟩ := scale_bounds hnum hden
    generalize hs : scale num den = s at hlow hup hfull
    have hscale : 0 < den * Nat.pow 2 s.toNat := Nat.mul_pos hden (Nat.pow_pos Nat.zero_lt_two)
    have hv : (num : ℚ) / den * (den * Nat.pow 2 s.toNat : Nat) =
        (num * Nat.pow 2 (-s).toNat : Nat) * 2 ^ s := by
      have hdenpos : (den : ℚ) ≠ 0 := by exact_mod_cast hden.ne'
      rw [Nat.cast_mul, Nat.cast_mul, pow_toNat 2 Nat.zero_lt_two s]
      field_simp
      norm_cast
    have hbits := round_of_near hscale hv hlow ((lt_two_zpow_iff hscale hv 53).1 hup)
      (hfull.imp_right fun hle => ?_) h hc
    · unfold ofRatio
      dsimp only
      have hfinite := hc.bits_lt
      have hsmall : ((q + 1074).toNat * Nat.pow 2 52 + m).toUInt64.toNat =
          (q + 1074).toNat * Nat.pow 2 52 + m := by
        rw [Nat.toUInt64, UInt64.toNat_ofNat']
        exact Nat.mod_eq_of_lt (hfinite.trans (by decide))
      rw [if_neg (by omega), hs, hbits, if_neg (by omega), toNat_ofBits (by omega), hsmall]
    · rw [← not_lt, ← lt_two_zpow_iff hscale hv 52]
      exact not_lt.2 hle

theorem lt_of_near (h : Near m q v) (hc : Canonical m q) : v < 2 ^ (1024 : Int) := by
  have hpow := two_pow_53
  have hbits := hc.bits
  have hhigh := hc.high
  have hfour : ((4 * m + 2 : Nat) : ℚ) < 2 ^ (55 : Int) := by
    exact_mod_cast (by omega : 4 * m + 2 < 2 ^ 55)
  calc v ≤ ((4 * m + 2 : Nat) : ℚ) * 2 ^ (q - 2) := h.high
    _ < 2 ^ (55 : Int) * 2 ^ (q - 2) := mul_lt_mul_of_pos_right hfour (by positivity)
    _ = 2 ^ (55 + (q - 2)) := (zpow_add₀ (by norm_num) _ _).symm
    _ ≤ 2 ^ (1024 : Int) := zpow_le_zpow_right₀ (by norm_num) (by omega)

/-- A decimal of at most some hundred places after the point is not cut off if it is near a double:
its digits are too few for that. -/
theorem ofDecimal_eq_ofRatio {d : Decimal} (hlow : -400 ≤ d.exponent) (hhigh : d.exponent ≤ 0)
    (hv : d.value < 2 ^ (1024 : Int)) : ofDecimal d.digits d.exponent =
      ofRatio (d.digits * Nat.pow 10 d.exponent.toNat) (Nat.pow 10 (-d.exponent).toNat) := by
  unfold ofDecimal
  dsimp only
  by_cases hzero : d.digits = 0
  · rw [if_pos hzero, hzero, Nat.zero_mul]
    unfold ofRatio
    rw [if_pos (.inl rfl)]
  · have hlog : Nat.log2 d.digits < 1024 + 4 * (-d.exponent).toNat := by
      have hdigits : (d.digits : ℚ) = d.value * 10 ^ (-d.exponent).toNat := by
        rw [Decimal.value, mul_assoc, ← zpow_natCast, Int.toNat_of_nonneg (by omega),
          ← zpow_add₀ (by norm_num), add_neg_cancel, zpow_zero, mul_one]
      have hlt : (2 : ℚ) ^ Nat.log2 d.digits < 2 ^ (1024 + 4 * (-d.exponent).toNat) := by
        calc (2 : ℚ) ^ Nat.log2 d.digits ≤ d.digits := by exact_mod_cast Nat.log2_self_le hzero
          _ = d.value * 10 ^ (-d.exponent).toNat := hdigits
          _ < 2 ^ 1024 * 10 ^ (-d.exponent).toNat :=
              mul_lt_mul_of_pos_right (by exact_mod_cast hv) (by positivity)
          _ ≤ 2 ^ 1024 * (2 ^ 4) ^ (-d.exponent).toNat :=
              mul_le_mul_of_nonneg_left (pow_le_pow_left₀ (by norm_num) (by norm_num) _)
                (by positivity)
          _ = 2 ^ (1024 + 4 * (-d.exponent).toNat) := by rw [← pow_mul, ← pow_add]
      exact (pow_lt_pow_iff_right₀ (by norm_num)).1 hlt
    rw [if_neg hzero, if_neg (by omega), if_neg (by omega)]

/-- A decimal of at most some hundred places after the point makes the bits of the double that it is
near. -/
theorem toNat_ofDecimal {d : Decimal} (hlow : -400 ≤ d.exponent) (hhigh : d.exponent ≤ 0)
    (h : Near m q d.value) (hc : Canonical m q) :
    (ofDecimal d.digits d.exponent).toBits.toNat = (q + 1074).toNat * Nat.pow 2 52 + m := by
  have hvalue : ((d.digits * Nat.pow 10 d.exponent.toNat : Nat) : ℚ) /
      (Nat.pow 10 (-d.exponent).toNat : Nat) = d.value := by
    have hscale := Decimal.pow_cast_pos 10 (by decide) (-d.exponent).toNat
    rw [div_eq_iff hscale.ne', Nat.cast_mul, pow_toNat 10 (by decide), Decimal.value]
    push_cast
    ring
  rw [ofDecimal_eq_ofRatio hlow hhigh (lt_of_near h hc)]
  exact toNat_ofRatio (Nat.pow_pos (by decide)) (hvalue ▸ h) hc

end Double

namespace Decimal

open Double (Unsigned Canonical)

theorem ofPositional_shortest (hx : Unsigned x) (h : Double.magnitude x = .finite m q) :
    Double.ofPositional (shortest m q).positional = x := by
  rcases Double.magnitude_unsigned hx with ⟨hinf, -⟩ | ⟨m', q', hfinite, hc, hbits⟩
  · rw [hinf] at h
    cases h
  · obtain ⟨rfl, rfl⟩ := Magnitude.finite.inj (hfinite.symm.trans h)
    have hnear : Near m' q' (denoted (shortest m' q').positional).value := by
      rw [← read_eq, read_positional]
      exact near_shortest hc
    obtain ⟨hlow, hhigh⟩ : -400 ≤ (denoted (shortest m' q').positional).exponent ∧
        (denoted (shortest m' q').positional).exponent ≤ 0 := by
      have hexp := shortest_exponent hc
      rw [denoted_positional]
      split
      · exact ⟨(by decide : (-400 : Int) ≤ 0), Int.le_refl 0⟩
      · exact ⟨hexp, by omega⟩
    apply Double.eq_of_toBits
    apply UInt64.toNat_inj.1
    rw [ofPositional_eq, Double.toNat_ofDecimal hlow hhigh hnear hc, hbits]
    split
    · rename_i hlt
      have hleast : q' = -1074 := hc.full.resolve_left (by omega)
      rw [hleast]
      exact Nat.zero_add m'
    · rfl

end Decimal

end LoxLang
