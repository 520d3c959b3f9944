import LoxLang.Proofs.Number.Shortest
import Mathlib.Data.List.TakeWhile

namespace LoxLang
set_option autoImplicit true

namespace Text

theorem ofNat_eq_map (n : Nat) : ofNat n = (Nat.toDigits 10 n).map byte := by
  have hall (cs : List Char) (h : ∀ c ∈ cs, c.isDigit) : cs.flatMap Utf8.encode = cs.map byte := by
    induction cs with
    | nil => rfl
    | cons c cs ih =>
      obtain ⟨hc, hcs⟩ := List.forall_mem_cons.1 h
      have hascii : c.toNat < 0x80 := by
        have hle := (Char.isDigit_iff_toNat.1 hc).2
        exact Nat.lt_of_le_of_lt hle (by decide)
      rw [List.flatMap_cons, ih hcs, Utf8.encode, if_pos hascii]
      rfl
  rw [ofNat, ofString, Nat.repr_eq_ofList_toDigits, String.toList_ofList]
  exact hall _ fun c hc => Nat.isDigit_of_mem_toDigits (by decide) (by decide) hc

theorem ofNat_eq (n : Nat) : ofNat n =
    if n < 10 then [byte n.digitChar] else ofNat (n / 10) ++ [byte (n % 10).digitChar] := by
  rw [ofNat_eq_map, Nat.toDigits_eq_if (by decide)]
  split
  · rfl
  · rw [List.map_append, ← ofNat_eq_map]
    rfl

theorem digitChar_digit : ∀ d < 10, isDigit (byte (Nat.digitChar d)) ∧
    (byte (Nat.digitChar d) - byte '0').toNat = d := by
  decide

theorem ofNat_ne_nil (n : Nat) : ofNat n ≠ [] := by
  rw [ofNat_eq]
  split
  · exact List.cons_ne_nil _ _
  · exact List.append_ne_nil_of_right_ne_nil _ (List.cons_ne_nil _ _)

theorem ofNat_digits (n : Nat) : ∀ b ∈ ofNat n, isDigit b := by
  induction n using Nat.strongRecOn with
  | ind n ih =>
    rw [ofNat_eq]
    split
    · rename_i hn
      exact fun b hb => List.mem_singleton.1 hb ▸ (digitChar_digit n hn).1
    · intro b hb
      rcases List.mem_append.1 hb with hb | hb
      · exact ih (n / 10) (by omega) b hb
      · exact List.mem_singleton.1 hb ▸ (digitChar_digit (n % 10) (by omega)).1

theorem digitsValue_concat (t : Text) (b : UInt8) :
    digitsValue (t ++ [b]) = digitsValue t * 10 + (b - byte '0').toNat := by
  rw [digitsValue, List.foldl_append]
  rfl

theorem digitsValue_ofNat (n : Nat) : digitsValue (ofNat n) = n := by
  induction n using Nat.strongRecOn with
  | ind n ih =>
    rw [ofNat_eq]
    split
    · rename_i hn
      rw [← List.nil_append [_], digitsValue_concat, (digitChar_digit n hn).2]
      exact Nat.zero_add n
    · rw [digitsValue_concat, ih (n / 10) (by omega), (digitChar_digit (n % 10) (by omega)).2]
      omega

theorem digitsValue_zeros (t : Text) (k : Nat) :
    digitsValue (t ++ List.replicate k (byte '0')) = digitsValue t * 10 ^ k := by
  induction k with
  | zero => rw [List.replicate_zero, List.append_nil, Nat.pow_zero, Nat.mul_one]
  | succ k ih =>
    rw [List.replicate_succ', ← List.append_assoc, digitsValue_concat, ih, Nat.pow_succ,
      Nat.mul_assoc]
    rfl

theorem zeros_digitsValue (t : Text) (k : Nat) :
    digitsValue (List.replicate k (byte '0') ++ t) = digitsValue t := by
  induction k with
  | zero => rw [List.replicate_zero, List.nil_append]
  | succ k ih =>
    rw [List.replicate_succ, List.cons_append, ← ih]
    rfl

end Text

namespace Decimal

/-- The number that digits with an optional fraction denote. -/
def read (t : Text) : ℚ :=
  let whole := t.takeWhile Text.isDigit
  let fraction := (t.drop (whole.length + 1)).takeWhile Text.isDigit
  Text.digitsValue (whole ++ fraction) * 10 ^ (-fraction.length : ℤ)

def denoted (t : Text) : Decimal :=
  let whole := t.takeWhile Text.isDigit
  let fraction := (t.drop (whole.length + 1)).takeWhile Text.isDigit
  ⟨Text.digitsValue (whole ++ fraction), -fraction.length⟩

theorem read_eq (t : Text) : read t = (denoted t).value := rfl

theorem ofPositional_eq (t : Text) :
    Double.ofPositional t = Double.ofDecimal (denoted t).digits (denoted t).exponent := rfl

theorem denoted_digits {t : Text} (h : ∀ b ∈ t, Text.isDigit b) :
    denoted t = ⟨Text.digitsValue t, 0⟩ := by
  have hwhole : t.takeWhile Text.isDigit = t := List.takeWhile_eq_self_iff.2 h
  have hdrop : t.drop (t.length + 1) = [] := List.drop_eq_nil_of_le (Nat.le_succ _)
  unfold denoted
  dsimp only
  rw [hwhole, hdrop, List.takeWhile_nil, List.append_nil]
  rfl

theorem denoted_point {s t : Text} (hs : ∀ b ∈ s, Text.isDigit b) (ht : ∀ b ∈ t, Text.isDigit b) :
    denoted (s ++ byte '.' :: t) = ⟨Text.digitsValue (s ++ t), -t.length⟩ := by
  have hwhole : (s ++ byte '.' :: t).takeWhile Text.isDigit = s := by
    rw [List.takeWhile_append_of_pos hs, List.takeWhile_cons_of_neg (by decide), List.append_nil]
  have hdrop : (s ++ byte '.' :: t).drop (s.length + 1) = t := by
    rw [List.drop_append]
    simp
  unfold denoted
  dsimp only
  rw [hwhole, hdrop, List.takeWhile_eq_self_iff.2 ht]

theorem digitText_digits (d : Decimal) : ∀ b ∈ d.digitText, Text.isDigit b :=
  Text.ofNat_digits d.digits

theorem zeros_digits (k : Nat) : ∀ b ∈ List.replicate k (byte '0'), Text.isDigit b :=
  fun b hb => List.eq_of_mem_replicate hb ▸ by decide

theorem denoted_positional (d : Decimal) : denoted d.positional =
    if 0 ≤ d.exponent then ⟨d.digits * 10 ^ d.exponent.toNat, 0⟩ else d := by
  have hdigits := d.digitText_digits
  have hvalue : Text.digitsValue d.digitText = d.digits := Text.digitsValue_ofNat d.digits
  unfold positional
  dsimp only
  split
  · split
    · rename_i hzero
      rw [denoted_digits hdigits, hvalue, hzero, Nat.zero_mul]
    · rw [denoted_digits (List.forall_mem_append.2 ⟨hdigits, zeros_digits _⟩),
        Text.digitsValue_zeros, hvalue]
  · rename_i hexp
    have hplaces : (-((-d.exponent).toNat : ℤ)) = d.exponent := by omega
    split
    · rename_i hlt
      have htake (k : Nat) : ∀ b ∈ d.digitText.take k, Text.isDigit b :=
        fun b hb => hdigits b (List.mem_of_mem_take hb)
      have hdrop (k : Nat) : ∀ b ∈ d.digitText.drop k, Text.isDigit b :=
        fun b hb => hdigits b (List.mem_of_mem_drop hb)
      have hlen : (d.digitText.drop (d.digitText.length - (-d.exponent).toNat)).length =
          (-d.exponent).toNat := by
        rw [List.length_drop]
        omega
      rw [denoted_point (htake _) (hdrop _), List.take_append_drop, hvalue, hlen, hplaces]
    · have hlen : (List.replicate ((-d.exponent).toNat - d.digitText.length) (byte '0') ++
          d.digitText).length = (-d.exponent).toNat := by
        rw [List.length_append, List.length_replicate]
        omega
      have hzero := zeros_digits 1
      have hrest := List.forall_mem_append.2
        ⟨zeros_digits ((-d.exponent).toNat - d.digitText.length), hdigits⟩
      have hread := denoted_point hzero hrest
      rw [hlen, hplaces] at hread
      have hdenoted := Text.zeros_digitsValue
        (List.replicate ((-d.exponent).toNat - d.digitText.length) (byte '0') ++ d.digitText) 1
      rw [hdenoted, Text.zeros_digitsValue, hvalue] at hread
      exact hread

theorem read_positional (d : Decimal) : read d.positional = d.value := by
  rw [read_eq, denoted_positional]
  split
  · rename_i hexp
    rw [value, value, zpow_zero, mul_one]
    push_cast
    rw [← zpow_natCast, Int.toNat_of_nonneg hexp]
  · rfl

theorem positional_digits (d : Decimal) : ∃ ds, ds ≠ [] ∧ (∀ b ∈ ds, Text.isDigit b) ∧
    (d.positional = ds ∨
      ∃ es, es ≠ [] ∧ (∀ b ∈ es, Text.isDigit b) ∧ d.positional = ds ++ byte '.' :: es) := by
  have hdigits := d.digitText_digits
  have hne : d.digitText ≠ [] := Text.ofNat_ne_nil d.digits
  have hpos := List.length_pos_of_ne_nil hne
  unfold positional
  dsimp only
  split
  · split
    · exact ⟨_, hne, hdigits, .inl rfl⟩
    · exact ⟨_, List.append_ne_nil_of_left_ne_nil hne _,
        List.forall_mem_append.2 ⟨hdigits, zeros_digits _⟩, .inl rfl⟩
  · split
    · refine ⟨_, ?_, fun b hb => hdigits b (List.mem_of_mem_take hb),
        .inr ⟨_, ?_, fun b hb => hdigits b (List.mem_of_mem_drop hb), rfl⟩⟩
      · rw [← List.length_pos_iff, List.length_take]
        omega
      · rw [← List.length_pos_iff, List.length_drop]
        omega
    · exact ⟨[byte '0'], List.cons_ne_nil _ _, zeros_digits 1,
        .inr ⟨_, List.append_ne_nil_of_right_ne_nil _ hne,
          List.forall_mem_append.2 ⟨zeros_digits _, hdigits⟩, rfl⟩⟩

structure Numeral (t : Text) : Prop where
  first : ∃ b w, t = b :: w ∧ Text.isDigit b
  all : ∀ b ∈ t, Text.isDigit b ∨ b = byte '.'

theorem Numeral.of_digits {s : Text} (hne : s ≠ []) (hs : ∀ b ∈ s, Text.isDigit b)
    (ht : ∀ b ∈ t, Text.isDigit b ∨ b = byte '.') : Numeral (s ++ t) := by
  obtain ⟨b, w, rfl⟩ := List.exists_cons_of_ne_nil hne
  refine ⟨⟨b, w ++ t, rfl, hs b List.mem_cons_self⟩, ?_⟩
  exact List.forall_mem_append.2 ⟨fun c hc => .inl (hs c hc), ht⟩

theorem positional_numeral (d : Decimal) : Numeral d.positional := by
  obtain ⟨ds, hne, hds, heq | ⟨es, -, hes, heq⟩⟩ := d.positional_digits
  · rw [heq, ← List.append_nil ds]
    exact .of_digits hne hds fun b hb => absurd hb List.not_mem_nil
  · rw [heq]
    exact .of_digits hne hds
      (List.forall_mem_cons.2 ⟨.inr rfl, fun b hb => .inl (hes b hb)⟩)

end Decimal

namespace Layout

open Double (Unsigned Canonical)

/-- A layout that never turns to an exponent writes all digits of a finite double. -/
theorem write_positional {l : Layout} (hl : ∀ p, l.exponential p = false)
    (hsign : Double.isNegative x = false) (h : Double.magnitude x = .finite m q) :
    l.write x = (Decimal.shortest m q).positional := by
  unfold write
  dsimp only
  rw [h, hsign]
  dsimp only
  rw [hl, Bool.and_false]
  rfl

theorem write_unsigned (h : Unsigned x) :
    (Double.magnitude x = .infinite ∧ literal.write x = "+Inf") ∨
      ∃ m q, Double.magnitude x = .finite m q ∧ Canonical m q ∧
        literal.write x = (Decimal.shortest m q).positional := by
  have hsign : Double.isNegative x = false := by
    have hpow := Double.two_pow_63
    have hbound : 2047 * Nat.pow 2 52 = 9218868437227405312 := rfl
    unfold Unsigned at h
    exact decide_eq_false (by omega)
  rcases Double.magnitude_unsigned h with ⟨hm, -⟩ | ⟨m, q, hm, hc, -⟩
  · refine .inl ⟨hm, ?_⟩
    unfold write
    dsimp only
    rw [hm, hsign]
    rfl
  · exact .inr ⟨m, q, hm, hc, write_positional (fun _ => rfl) hsign hm⟩

theorem write_numeral (h : Unsigned x) :
    literal.write x = "+Inf" ∨ Decimal.Numeral (literal.write x) := by
  rcases write_unsigned h with ⟨-, hw⟩ | ⟨m, q, -, -, hw⟩
  · exact .inl hw
  · exact .inr (hw ▸ Decimal.positional_numeral _)

theorem infinite_not_numeral : ¬ Decimal.Numeral "+Inf" := by
  intro h
  obtain ⟨b, w, hb, hdigit⟩ := h.first
  obtain ⟨rfl, -⟩ := List.cons.inj hb
  exact absurd hdigit (by decide)

theorem write_inj (hx : Unsigned x) (hy : Unsigned y) (h : literal.write x = literal.write y) :
    x = y := by
  apply Double.eq_of_magnitude hx hy
  rcases write_unsigned hx with ⟨hmx, hwx⟩ | ⟨m, q, hmx, hcx, hwx⟩
  · rcases write_unsigned hy with ⟨hmy, -⟩ | ⟨m, q, -, -, hwy⟩
    · rw [hmx, hmy]
    · exact absurd (Decimal.positional_numeral (Decimal.shortest m q))
        (hwy ▸ h ▸ hwx ▸ infinite_not_numeral)
  · rcases write_unsigned hy with ⟨-, hwy⟩ | ⟨m', q', hmy, hcy, hwy⟩
    · exact absurd (Decimal.positional_numeral (Decimal.shortest m q))
        (hwx ▸ h ▸ hwy ▸ infinite_not_numeral)
    · have hread := congrArg Decimal.read h
      rw [hwx, hwy, Decimal.read_positional, Decimal.read_positional] at hread
      obtain ⟨rfl, rfl⟩ := Decimal.shortest_inj hcx hcy hread
      rw [hmx, hmy]

end Layout

end LoxLang
