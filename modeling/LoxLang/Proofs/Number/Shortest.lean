import LoxLang.Proofs.Number.Double
import Mathlib.Algebra.Order.Field.Rat
import Mathlib.Algebra.Order.Field.Power
import Mathlib.Tactic.Ring
import Mathlib.Tactic.Linarith
import Mathlib.Tactic.Positivity
import Mathlib.Tactic.FieldSimp
import Mathlib.Tactic.NormNum

namespace LoxLang
set_option autoImplicit true

open Double (Canonical)

namespace Decimal

/-- The number that a decimal stands for. -/
def value (d : Decimal) : ℚ := d.digits * 10 ^ d.exponent

/-- Four times the distance to the point halfway to the neighbour below. -/
def gap (m : Nat) (q : Int) : Nat := if m = Nat.pow 2 52 ∧ -1074 < q then 1 else 2

/-- The number lies between the points halfway to the neighbours of `m · 2 ^ q`, or is one of them
where they belong to it. -/
structure Near (m : Nat) (q : Int) (v : ℚ) : Prop where
  low : ((4 * m - gap m q : Nat) : ℚ) * 2 ^ (q - 2) ≤ v
  high : v ≤ ((4 * m + 2 : Nat) : ℚ) * 2 ^ (q - 2)
  inside : m % 2 = 1 →
    ((4 * m - gap m q : Nat) : ℚ) * 2 ^ (q - 2) < v ∧ v < ((4 * m + 2 : Nat) : ℚ) * 2 ^ (q - 2)

theorem pow_toNat (b : Nat) (hb : 0 < b) (k : Int) :
    ((Nat.pow b k.toNat : Nat) : ℚ) = (Nat.pow b (-k).toNat : Nat) * (b : ℚ) ^ k := by
  have hne : (b : ℚ) ≠ 0 := by positivity
  change ((b ^ k.toNat : Nat) : ℚ) = (b ^ (-k).toNat : Nat) * (b : ℚ) ^ k
  push_cast
  rw [← zpow_natCast, ← zpow_natCast, ← zpow_add₀ hne]
  congr 1
  omega

theorem pow_cast_pos (b : Nat) (hb : 0 < b) (n : Nat) : (0 : ℚ) < (Nat.pow b n : Nat) := by
  exact_mod_cast Nat.pow_pos hb

theorem pow_le_quotient_iff {b : Nat} (hb : 0 < b) {k : Int} {num den : Nat} (hden : 0 < den) :
    den * Nat.pow b k.toNat ≤ num * Nat.pow b (-k).toNat ↔ (b : ℚ) ^ k ≤ num / den := by
  have hdenpos : (0 : ℚ) < den := by exact_mod_cast hden
  have hscale := pow_cast_pos b hb (-k).toNat
  rw [le_div_iff₀ hdenpos, ← Nat.cast_le (α := ℚ), Nat.cast_mul, Nat.cast_mul, pow_toNat b hb k,
    mul_left_comm, mul_comm (num : ℚ), mul_le_mul_iff_of_pos_left hscale, mul_comm]

theorem two_zpow_add (q : Int) (k : Nat) : (2 : ℚ) ^ (q + k) = 2 ^ q * (2 ^ k : Nat) := by
  rw [zpow_add₀ (by norm_num), zpow_natCast]
  push_cast
  rfl

/-- A point halfway below a double is not beyond a point halfway above another that lies near the
same number, and they do not meet if one of them does not belong to its double. -/
theorem Near.meet {k : Nat} (h : Near m q v) (h' : Near m' (q + k) v) :
    (4 * m' - gap m' (q + k)) * 2 ^ k ≤ 4 * m + 2 ∧
      (m % 2 = 1 ∨ m' % 2 = 1 → (4 * m' - gap m' (q + k)) * 2 ^ k < 4 * m + 2) := by
  have hq : (0 : ℚ) < 2 ^ (q - 2) := by positivity
  have hscale : (2 : ℚ) ^ (q + k - 2) = 2 ^ (q - 2) * (2 ^ k : Nat) := by
    rw [← two_zpow_add]
    congr 1
    omega
  have hlow : ((4 * m' - gap m' (q + k) : Nat) : ℚ) * 2 ^ (q + k - 2) =
      (((4 * m' - gap m' (q + k)) * 2 ^ k : Nat) : ℚ) * 2 ^ (q - 2) := by
    rw [hscale]
    push_cast
    ring
  constructor
  · have hcast := h'.low.trans h.high
    rw [hlow] at hcast
    exact_mod_cast le_of_mul_le_mul_right hcast hq
  · intro hodd
    have hcast : ((4 * m' - gap m' (q + k) : Nat) : ℚ) * 2 ^ (q + k - 2) <
        ((4 * m + 2 : Nat) : ℚ) * 2 ^ (q - 2) := by
      rcases hodd with hodd | hodd
      · exact lt_of_le_of_lt h'.low (h.inside hodd).2
      · exact lt_of_lt_of_le (h'.inside hodd).1 h.high
    rw [hlow] at hcast
    exact_mod_cast lt_of_mul_lt_mul_right hcast hq.le

theorem Near.not_above (h : Near m q v) (h' : Near m' q' v) (hlow : -1074 ≤ q)
    (hbits : m < Nat.pow 2 53) (hfull : Nat.pow 2 52 ≤ m' ∨ q' = -1074) : ¬ q < q' := by
  intro hlt
  obtain ⟨k, rfl⟩ : ∃ k : Nat, q' = q + (k + 1 : Nat) := ⟨(q' - q - 1).toNat, by omega⟩
  obtain ⟨hle, hodd⟩ := h.meet h'
  replace hfull : Nat.pow 2 52 ≤ m' := hfull.resolve_right (by omega)
  have hgap : gap m' (q + (k + 1 : Nat)) = 1 ∨
      gap m' (q + (k + 1 : Nat)) = 2 ∧ Nat.pow 2 52 < m' := by
    unfold gap
    split
    · exact .inl rfl
    · exact .inr ⟨rfl, by omega⟩
  have hpow := Double.two_pow_52
  have hpow' := Double.two_pow_53
  have hdouble : (4 * m' - gap m' (q + (k + 1 : Nat))) * 2 ≤
      (4 * m' - gap m' (q + (k + 1 : Nat))) * 2 ^ (k + 1) :=
    Nat.mul_le_mul_left _ (Nat.le_self_pow (by omega) 2)
  -- The points halfway up from `m` and down from `m'` can only meet for the greatest `m`, which is
  -- odd, so that its point does not belong to it.
  rcases Nat.mod_two_eq_zero_or_one m with heven | hone
  · omega
  · have hmeet := hodd (.inl hone)
    omega

theorem Near.not_beside (h : Near m q v) (h' : Near m' q v) : ¬ m < m' := by
  intro hlt
  have h₀ : Near m' (q + (0 : Nat)) v := by simpa using h'
  obtain ⟨hle, hodd⟩ := h.meet h₀
  have hgap : gap m' (q + (0 : Nat)) ≤ 2 := by
    unfold gap
    split
    · exact Nat.le_succ 1
    · exact Nat.le_refl 2
  rw [pow_zero, Nat.mul_one] at hle hodd
  omega

theorem Near.unique (h : Near m q v) (h' : Near m' q' v) (hc : Canonical m q)
    (hc' : Canonical m' q') : m = m' ∧ q = q' := by
  obtain rfl : q = q' := by
    have hle := h.not_above h' hc.low hc.bits hc'.full
    have hge := h'.not_above h hc'.low hc'.bits hc.full
    omega
  have hle := h.not_beside h'
  have hge := h'.not_beside h
  exact ⟨by omega, rfl⟩

def size (m : Nat) (q : Int) : ℚ := m * 2 ^ q

theorem ofScaled_mid (m : Nat) (q : Int) :
    ((Interval.ofScaled m q).mid : ℚ) = (Interval.ofScaled m q).den * size m q := by
  have hpow := pow_toNat 2 Nat.zero_lt_two (q - 2)
  have hfour : (2 : ℚ) ^ q = 4 * 2 ^ (q - 2) := by
    have hadd := two_zpow_add (q - 2) 2
    rw [show q - 2 + (2 : Nat) = q by omega] at hadd
    rw [hadd]
    push_cast
    ring
  unfold Interval.ofScaled size
  dsimp only
  rw [Nat.cast_mul, hpow, hfour, show -(q - 2) = 2 - q by omega]
  push_cast
  ring

theorem ofScaled_den_pos (m : Nat) (q : Int) : 0 < (Interval.ofScaled m q).den :=
  Nat.pow_pos Nat.zero_lt_two

theorem ofScaled_up (m : Nat) (q : Int) : ((Nat.pow 2 (q - 2).toNat : Nat) : ℚ) =
    (Interval.ofScaled m q).den * 2 ^ (q - 2) := by
  have hpow := pow_toNat 2 Nat.zero_lt_two (q - 2)
  rw [show -(q - 2) = 2 - q by omega] at hpow
  exact hpow

theorem scaled_value (d : Decimal) (den : Nat) :
    ((d.digits * Nat.pow 10 d.exponent.toNat * den : Nat) : ℚ) =
      d.value * (den * (Nat.pow 10 (-d.exponent).toNat : Nat)) := by
  have hpow := pow_toNat 10 (by decide) d.exponent
  rw [Nat.cast_mul, Nat.cast_mul, hpow, value]
  push_cast
  ring

theorem near_of_contains (h : (Interval.ofScaled m q).contains d = true) : Near m q d.value := by
  have hden := ofScaled_den_pos m q
  have hup := ofScaled_up m q
  have hx := scaled_value d (Interval.ofScaled m q).den
  have hscale := pow_cast_pos 10 (by decide) (-d.exponent).toNat
  generalize hs : Nat.pow 10 (-d.exponent).toNat = scale at hx hscale
  have hunit : (0 : ℚ) < (Interval.ofScaled m q).den * (scale : Nat) :=
    mul_pos (by exact_mod_cast hden) hscale
  have hlow : (((Interval.ofScaled m q).low * scale : Nat) : ℚ) =
      ((4 * m - gap m q : Nat) : ℚ) * 2 ^ (q - 2) * ((Interval.ofScaled m q).den * scale) := by
    change (((4 * m - gap m q) * Nat.pow 2 (q - 2).toNat * scale : Nat) : ℚ) = _
    rw [Nat.cast_mul, Nat.cast_mul, hup]
    ring
  have hhigh : (((Interval.ofScaled m q).high * scale : Nat) : ℚ) =
      ((4 * m + 2 : Nat) : ℚ) * 2 ^ (q - 2) * ((Interval.ofScaled m q).den * scale) := by
    change (((4 * m + 2) * Nat.pow 2 (q - 2).toNat * scale : Nat) : ℚ) = _
    rw [Nat.cast_mul, Nat.cast_mul, hup]
    ring
  have hclosed : (Interval.ofScaled m q).closed = decide (m % 2 = 0) := rfl
  unfold Interval.contains at h
  dsimp only at h
  rw [hs, hclosed] at h
  by_cases heven : m % 2 = 0
  · rw [if_pos (decide_eq_true heven), Bool.and_eq_true, decide_eq_true_iff,
      decide_eq_true_iff] at h
    refine ⟨?_, ?_, fun hodd => absurd heven (by omega)⟩
    · have hle : (((Interval.ofScaled m q).low * scale : Nat) : ℚ) ≤ _ := Nat.cast_le.2 h.1
      rw [hlow, hx] at hle
      exact le_of_mul_le_mul_right hle hunit
    · have hle : _ ≤ (((Interval.ofScaled m q).high * scale : Nat) : ℚ) := Nat.cast_le.2 h.2
      rw [hhigh, hx] at hle
      exact le_of_mul_le_mul_right hle hunit
  · rw [if_neg (by rwa [decide_eq_true_iff]), Bool.and_eq_true, decide_eq_true_iff,
      decide_eq_true_iff] at h
    have hbelow : (((Interval.ofScaled m q).low * scale : Nat) : ℚ) < _ := Nat.cast_lt.2 h.1
    have habove : _ < (((Interval.ofScaled m q).high * scale : Nat) : ℚ) := Nat.cast_lt.2 h.2
    rw [hlow, hx] at hbelow
    rw [hhigh, hx] at habove
    have hstrict := And.intro (lt_of_mul_lt_mul_right hbelow hunit.le)
      (lt_of_mul_lt_mul_right habove hunit.le)
    exact ⟨hstrict.1.le, hstrict.2.le, fun _ => hstrict⟩

theorem near_of_hit? (h : (Interval.ofScaled m q).hit? e = some d) : Near m q d.value := by
  have hcontains : (Interval.ofScaled m q).contains d = true := by
    unfold Interval.hit? at h
    dsimp only at h
    split at h
    · rename_i hdown hup
      split at h
      · cases h
        exact hdown
      · cases h
        exact hup
      · cases h
        split
        · exact hdown
        · exact hup
    · rename_i hdown hup
      cases h
      exact hdown
    · rename_i hdown hup
      cases h
      exact hup
    · cases h
  exact near_of_contains hcontains

theorem floor_value (m : Nat) (q e : Int) :
    ((Interval.ofScaled m q).floor e).value ≤ size m q ∧
      size m q < ((Interval.ofScaled m q).floor e).value + 10 ^ e := by
  have hden := ofScaled_den_pos m q
  have hmid := ofScaled_mid m q
  have hscale := pow_cast_pos 10 (by decide) (-e).toNat
  have hunit : (0 : ℚ) < (Interval.ofScaled m q).den * (Nat.pow 10 (-e).toNat : Nat) :=
    mul_pos (by exact_mod_cast hden) hscale
  have hstep : (((Interval.ofScaled m q).den * Nat.pow 10 e.toNat : Nat) : ℚ) =
      10 ^ e * ((Interval.ofScaled m q).den * (Nat.pow 10 (-e).toNat : Nat)) := by
    rw [Nat.cast_mul, pow_toNat 10 (by decide) e]
    push_cast
    ring
  have hwhole : (((Interval.ofScaled m q).mid * Nat.pow 10 (-e).toNat : Nat) : ℚ) =
      size m q * ((Interval.ofScaled m q).den * (Nat.pow 10 (-e).toNat : Nat)) := by
    rw [Nat.cast_mul, hmid]
    ring
  have hpos : 0 < (Interval.ofScaled m q).den * Nat.pow 10 e.toNat :=
    Nat.mul_pos hden (Nat.pow_pos (by decide))
  have hfloor := Nat.div_mul_le_self ((Interval.ofScaled m q).mid * Nat.pow 10 (-e).toNat)
    ((Interval.ofScaled m q).den * Nat.pow 10 e.toNat)
  have hnext := Nat.lt_div_mul_add hpos (a := (Interval.ofScaled m q).mid * Nat.pow 10 (-e).toNat)
  generalize (((Interval.ofScaled m q).den : ℚ) * (Nat.pow 10 (-e).toNat : Nat)) = unit
    at hunit hstep hwhole
  unfold Interval.floor value
  dsimp only
  generalize (Interval.ofScaled m q).mid * Nat.pow 10 (-e).toNat /
    ((Interval.ofScaled m q).den * Nat.pow 10 e.toNat) = n at hfloor hnext
  constructor
  · have hle : ((n * ((Interval.ofScaled m q).den * Nat.pow 10 e.toNat) : Nat) : ℚ) ≤ _ :=
      Nat.cast_le.2 hfloor
    rw [Nat.cast_mul, hstep, hwhole, ← mul_assoc] at hle
    exact le_of_mul_le_mul_right hle hunit
  · have hlt : _ < ((n * ((Interval.ofScaled m q).den * Nat.pow 10 e.toNat) +
        (Interval.ofScaled m q).den * Nat.pow 10 e.toNat : Nat) : ℚ) := Nat.cast_lt.2 hnext
    rw [hwhole, Nat.cast_add, Nat.cast_mul, hstep, ← mul_assoc, ← add_mul] at hlt
    exact lt_of_mul_lt_mul_right hlt hunit.le

/-- A power of ten against a power of two, for exponents that are not too large: `10 ^ 31 ≤ 2 ^ 103`
and `2 ^ 93 ≤ 10 ^ 28` are close enough for those. -/
theorem ten_zpow_le (a b : Int) (h : 100000 * (a + 1) ≤ 30103 * (b + 1)) (hlow : -2000 ≤ b)
    (hhigh : b ≤ 2000) : (10 : ℚ) ^ a ≤ 2 ^ b := by
  rcases le_or_gt 0 a with ha | ha
  · have hroot : ((10 : ℚ) ^ a) ^ 31 ≤ (2 ^ b) ^ 31 := by
      calc ((10 : ℚ) ^ a) ^ 31 = (10 ^ 31) ^ a := by
            rw [← zpow_natCast, ← zpow_mul, mul_comm, zpow_mul, zpow_natCast]
        _ ≤ (2 ^ 103) ^ a := zpow_le_zpow_left₀ ha (by norm_num) (by norm_num)
        _ = 2 ^ (103 * a) := by
            rw [zpow_mul]
            norm_cast
        _ ≤ 2 ^ (b * 31) := zpow_le_zpow_right₀ (by norm_num) (by omega)
        _ = (2 ^ b) ^ 31 := by
            rw [zpow_mul]
            norm_cast
    exact le_of_pow_le_pow_left₀ (by decide) (by positivity) hroot
  · rcases le_or_gt 0 b with hb | hb
    · exact (zpow_le_one_of_nonpos₀ (by norm_num) ha.le).trans (one_le_zpow₀ (by norm_num) hb)
    · obtain ⟨n, rfl⟩ : ∃ n : Nat, b = -(n : Int) := ⟨(-b).toNat, by omega⟩
      have hroot : ((10 : ℚ) ^ a) ^ 93 ≤ (2 ^ (-(n : Int))) ^ 93 := by
        calc ((10 : ℚ) ^ a) ^ 93 = 10 ^ (a * 93) := by
              rw [zpow_mul]
              norm_cast
          _ ≤ 10 ^ (28 * -(n : Int)) := zpow_le_zpow_right₀ (by norm_num) (by omega)
          _ = ((10 ^ 28) ^ n)⁻¹ := by
              rw [zpow_mul, zpow_neg, zpow_natCast]
              norm_cast
          _ ≤ ((2 ^ 93) ^ n)⁻¹ :=
              inv_anti₀ (by positivity) (pow_le_pow_left₀ (by norm_num) (by norm_num) n)
          _ = (2 ^ (-(n : Int))) ^ 93 := by
              rw [zpow_neg, zpow_natCast, inv_pow, ← pow_mul, ← pow_mul, Nat.mul_comm]
      exact le_of_pow_le_pow_left₀ (by decide) (by positivity) hroot

/-- The binary logarithms of a quotient's parts tell its size but for one place. -/
theorem log2_quotient {num den : Nat} (hnum : 0 < num) (hden : 0 < den) :
    (2 : ℚ) ^ ((Nat.log2 num : Int) - Nat.log2 den - 1) < num / den ∧
      (num : ℚ) / den < 2 ^ ((Nat.log2 num : Int) - Nat.log2 den + 1) := by
  have hnumpos : (0 : ℚ) < num := by exact_mod_cast hnum
  have hdenpos : (0 : ℚ) < den := by exact_mod_cast hden
  have hnumlow : (2 : ℚ) ^ Nat.log2 num ≤ num := by exact_mod_cast Nat.log2_self_le (by omega)
  have hdenlow : (2 : ℚ) ^ Nat.log2 den ≤ den := by exact_mod_cast Nat.log2_self_le (by omega)
  have hnumhigh : (num : ℚ) < 2 ^ (Nat.log2 num + 1) := by exact_mod_cast Nat.lt_log2_self
  have hdenhigh : (den : ℚ) < 2 ^ (Nat.log2 den + 1) := by exact_mod_cast Nat.lt_log2_self
  constructor
  · have hexp : (Nat.log2 num : Int) - Nat.log2 den - 1 =
        Nat.log2 num - (Nat.log2 den + 1 : Nat) := by omega
    rw [hexp, zpow_sub₀ (by norm_num), zpow_natCast, zpow_natCast]
    exact div_lt_div₀' hnumlow hdenhigh hnumpos hdenpos
  · have hexp : (Nat.log2 num : Int) - Nat.log2 den + 1 =
        (Nat.log2 num + 1 : Nat) - Nat.log2 den := by omega
    rw [hexp, zpow_sub₀ (by norm_num), zpow_natCast, zpow_natCast]
    exact div_lt_div₀ hnumhigh hdenlow (by positivity) (by positivity)

/-- The power of ten of the first digit is not too great. -/
theorem magnitude_le {num den : Nat} (hnum : 0 < num) (hden : 0 < den)
    (hlow : (2 : ℚ) ^ (-1500 : Int) ≤ num / den) (hhigh : (num : ℚ) / den ≤ 2 ^ (1500 : Int)) :
    (10 : ℚ) ^ magnitude num den ≤ num / den := by
  unfold magnitude
  dsimp only
  split
  · rename_i he
    exact (pow_le_quotient_iff (by decide) hden).1 (of_decide_eq_true he)
  · split
    · rename_i he
      exact (pow_le_quotient_iff (by decide) hden).1 (of_decide_eq_true he)
    · -- The last candidate is not tested, so it has to be small enough in all cases.
      obtain ⟨hbelow, habove⟩ := log2_quotient hnum hden
      generalize (Nat.log2 num : Int) - Nat.log2 den = g at hbelow habove
      have hone : (1 : ℚ) < 2 := by norm_num
      have hleast := (zpow_le_zpow_iff_right₀ hone).1 (hlow.trans habove.le)
      have hmost := (zpow_le_zpow_iff_right₀ hone).1 (hbelow.le.trans hhigh)
      exact (ten_zpow_le _ (g - 1) (by omega) (by omega) (by omega)).trans hbelow.le

theorem size_eq (m : Nat) (q : Int) : size m q = ((4 * m : Nat) : ℚ) * 2 ^ (q - 2) := by
  have hfour := two_zpow_add (q - 2) 2
  rw [show q - 2 + (2 : Nat) = q by omega] at hfour
  rw [size, hfour]
  push_cast
  ring

/-- A number at most a double and less than a fourth of its last place below it is near. -/
theorem near_of_close (hm : 0 < m) (hle : v ≤ size m q) (hlt : size m q < v + 2 ^ (q - 2)) :
    Near m q v := by
  have hunit : (0 : ℚ) < 2 ^ (q - 2) := by positivity
  rw [size_eq] at hle hlt
  have hgap : 1 ≤ gap m q := by
    unfold gap
    split
    · exact Nat.le_refl 1
    · exact Nat.le_succ 1
  have hlow : ((4 * m - gap m q : Nat) : ℚ) * 2 ^ (q - 2) < v := by
    have hcast : ((4 * m - gap m q : Nat) : ℚ) + 1 ≤ (4 * m : Nat) := by
      exact_mod_cast (by omega : 4 * m - gap m q + 1 ≤ 4 * m)
    have hscaled := mul_le_mul_of_nonneg_right hcast hunit.le
    linarith
  have hhigh : v < ((4 * m + 2 : Nat) : ℚ) * 2 ^ (q - 2) := by
    have hcast : ((4 * m : Nat) : ℚ) < (4 * m + 2 : Nat) := by
      exact_mod_cast (by omega : 4 * m < 4 * m + 2)
    exact lt_of_le_of_lt hle (mul_lt_mul_of_pos_right hcast hunit)
  exact ⟨hlow.le, hhigh.le, fun _ => ⟨hlow, hhigh⟩⟩

/-- Looking through the grids from the first digit on finds a decimal that is near. After 17 digits
the grid is fine enough for its floor to be near. -/
theorem near_search (hc : Canonical m q) (htop : (10 : ℚ) ^ top ≤ size m q) (left n : Nat)
    (hn : n + left = 17) : Near m q ((Interval.ofScaled m q).search top left n).value := by
  induction left generalizing n with
  | zero =>
    obtain rfl : n = 17 := hn
    obtain ⟨hle, hlt⟩ := floor_value m q (top - 17)
    have hm : 0 < m := by
      rcases Nat.eq_zero_or_pos m with rfl | hm
      · rw [size, Nat.cast_zero, zero_mul] at htop
        exact absurd htop (not_le.2 (by positivity))
      · exact hm
    have hstep : (10 : ℚ) ^ (top - 17) ≤ 2 ^ (q - 2) := by
      have hbits : ((4 * m : Nat) : ℚ) ≤ 10 ^ (17 : Int) := by
        have hlt := hc.bits
        have hpow := Double.two_pow_53
        exact_mod_cast (by omega : 4 * m ≤ 10 ^ 17)
      rw [zpow_sub₀ (by norm_num), div_le_iff₀ (by positivity), mul_comm]
      rw [size_eq] at htop
      exact htop.trans (mul_le_mul_of_nonneg_right hbits (by positivity))
    rw [Interval.search]
    refine near_of_close hm hle ?_
    push_cast
    linarith
  | succ left ih =>
    rw [Interval.search]
    cases hhit : (Interval.ofScaled m q).hit? (top - n) with
    | some d => exact near_of_hit? hhit
    | none => exact ih (n + 1) (by omega)

theorem value_trim (d : Decimal) (left : Nat) : (d.trim left).value = d.value := by
  induction left generalizing d with
  | zero => rfl
  | succ left ih =>
    rw [trim]
    split
    · rename_i hzero
      rw [ih, value, value, zpow_add₀ (by norm_num)]
      have hdigits : d.digits = d.digits / 10 * 10 := by omega
      conv_rhs => rw [hdigits]
      push_cast
      ring
    · rfl

theorem size_bounds (hc : Canonical m q) (hm : 0 < m) :
    (2 : ℚ) ^ (-1500 : Int) ≤ size m q ∧ size m q ≤ 2 ^ (1500 : Int) := by
  have hone : (1 : ℚ) ≤ 2 := by norm_num
  have hlow := hc.low
  have hhigh := hc.high
  constructor
  · calc (2 : ℚ) ^ (-1500 : Int) ≤ 2 ^ q := zpow_le_zpow_right₀ hone (by omega)
      _ ≤ m * 2 ^ q := le_mul_of_one_le_left (by positivity) (by exact_mod_cast hm)
  · calc (m : ℚ) * 2 ^ q ≤ (2 ^ (53 : Nat) : Nat) * 2 ^ q :=
          mul_le_mul_of_nonneg_right (by exact_mod_cast hc.bits.le) (by positivity)
      _ = 2 ^ (q + (53 : Nat)) := by rw [two_zpow_add, mul_comm]
      _ ≤ 2 ^ (1500 : Int) := zpow_le_zpow_right₀ hone (by push_cast; omega)

theorem near_shortest (hc : Canonical m q) : Near m q (shortest m q).value := by
  unfold shortest
  split
  · rename_i hzero
    subst hzero
    have hvalue : value ⟨0, 0⟩ = 0 := by
      rw [value, Nat.cast_zero, zero_mul]
    have hgap : ((4 * 0 - gap 0 q : Nat) : ℚ) = 0 := by
      rw [Nat.mul_zero, Nat.zero_sub, Nat.cast_zero]
    rw [hvalue]
    refine ⟨?_, by positivity, fun hodd => by cases hodd⟩
    rw [hgap, zero_mul]
  · rename_i hm
    dsimp only
    rw [value_trim]
    have hpos : 0 < m := Nat.pos_of_ne_zero hm
    have hden := ofScaled_den_pos m q
    have hdenpos : ((Interval.ofScaled m q).den : ℚ) ≠ 0 := by exact_mod_cast hden.ne'
    have hsize : ((Interval.ofScaled m q).mid : ℚ) / (Interval.ofScaled m q).den = size m q := by
      rw [ofScaled_mid, mul_div_cancel_left₀ _ hdenpos]
    have hmid : 0 < (Interval.ofScaled m q).mid :=
      Nat.mul_pos (Nat.mul_pos (by decide) hpos) (Nat.pow_pos Nat.zero_lt_two)
    have hbounds := size_bounds hc hpos
    have hmagnitude := magnitude_le hmid hden (hsize ▸ hbounds.1) (hsize ▸ hbounds.2)
    rw [hsize] at hmagnitude
    exact near_search hc hmagnitude 17 0 rfl

theorem exponent_of_hit? {i : Interval} (h : i.hit? e = some d) : d.exponent = e := by
  unfold Interval.hit? at h
  dsimp only at h
  split at h
  · split at h
    · cases h
      rfl
    · cases h
      rfl
    · cases h
      split <;> rfl
  · cases h
    rfl
  · cases h
    rfl
  · cases h

theorem le_search_exponent (i : Interval) (top : Int) (left n : Nat) :
    top - (n + left : Nat) ≤ (i.search top left n).exponent := by
  induction left generalizing n with
  | zero => exact Int.le_refl _
  | succ left ih =>
    rw [Interval.search]
    cases hhit : i.hit? (top - n) with
    | some d =>
      change _ ≤ d.exponent
      rw [exponent_of_hit? hhit]
      omega
    | none =>
      have hle := ih (n + 1)
      rwa [show n + 1 + left = n + (left + 1) by omega] at hle

theorem le_trim_exponent (d : Decimal) (left : Nat) : d.exponent ≤ (d.trim left).exponent := by
  induction left generalizing d with
  | zero => exact Int.le_refl _
  | succ left ih =>
    rw [trim]
    split
    · have hle := ih ⟨d.digits / 10, d.exponent + 1⟩
      exact (Int.le_add_one (Int.le_refl _)).trans hle
    · exact Int.le_refl _

theorem shortest_exponent (hc : Canonical m q) : -400 ≤ (shortest m q).exponent := by
  have hlow := hc.low
  unfold shortest
  split
  · exact (by decide : (-400 : Int) ≤ 0)
  · have hden : Nat.log2 (Interval.ofScaled m q).den = (2 - q).toNat := Nat.log2_two_pow
    have hstart : (Nat.log2 (Interval.ofScaled m q).mid - Nat.log2 (Interval.ofScaled m q).den :
        Int) * 30103 / 100000 - 1 ≤
        magnitude (Interval.ofScaled m q).mid (Interval.ofScaled m q).den := by
      unfold magnitude
      dsimp only
      split_ifs <;> omega
    have hsearch := le_search_exponent (Interval.ofScaled m q)
      (magnitude (Interval.ofScaled m q).mid (Interval.ofScaled m q).den) 17 0
    refine le_trans ?_ (le_trim_exponent _ 20)
    omega

theorem shortest_inj (hc : Canonical m q) (hc' : Canonical m' q')
    (h : (shortest m q).value = (shortest m' q').value) : m = m' ∧ q = q' :=
  (near_shortest hc).unique (h ▸ near_shortest hc') hc hc'

end Decimal

end LoxLang
