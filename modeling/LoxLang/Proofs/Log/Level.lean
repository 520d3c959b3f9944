import LoxLang.Log.Level
import LoxLang.Proofs.Number.Layout
import LoxLang.Proofs.Text.Symbols

namespace LoxLang

namespace Text
set_option autoImplicit true

/-- A whole number other than zero with its sign, and nothing for zero. -/
def signed (d : Int) : Text :=
  if d = 0 then [] else if d < 0 then ofInt d else byte '+' :: ofInt d

/-- A number of 64 bits is read back from its digits. -/
theorem toInt64?_signed {d : Int} (hd : d ≠ 0) (hlow : -2 ^ 63 ≤ d) (hhigh : d < 2 ^ 63) :
    toInt64? (signed d) = some (Int64.ofInt d) := by
  have hempty : (ofNat d.natAbs).isEmpty = false :=
    List.isEmpty_eq_false_iff.2 (ofNat_ne_nil d.natAbs)
  have hdigits : (ofNat d.natAbs).all isDigit = true :=
    List.all_eq_true.2 (ofNat_digits d.natAbs)
  have hrange : -(Nat.pow 2 63 : Int) ≤ d ∧ d < (Nat.pow 2 63 : Int) := ⟨hlow, hhigh⟩
  rw [signed, if_neg hd, ofInt]
  by_cases hneg : d < 0
  · have habs : -(d.natAbs : Int) = d := by omega
    rw [if_pos hneg, if_pos hneg]
    unfold toInt64?
    simp only [beq_self_eq_true, if_true, hempty, hdigits, Bool.not_true, Bool.or_self,
      Bool.false_eq_true, if_false, digitsValue_ofNat, habs, if_pos hrange]
  · have habs : (d.natAbs : Int) = d := by omega
    have hplus : (byte '+' == byte '-') = false := by decide
    rw [if_neg hneg, if_neg hneg]
    unfold toInt64?
    simp only [hplus, beq_self_eq_true, if_true, hempty, hdigits, Bool.not_true, Bool.or_self,
      Bool.false_eq_true, if_false, digitsValue_ofNat, habs, if_pos hrange]

theorem signed_cases (d : Int) : signed d = [] ∨
    ∃ b k, signed d = b :: ofNat k ∧ (b = byte '+' ∨ b = byte '-') := by
  rw [signed, ofInt]
  split
  · exact .inl rfl
  · split
    · exact .inr ⟨_, _, rfl, .inr rfl⟩
    · exact .inr ⟨_, _, rfl, .inl rfl⟩

theorem signed_marks (h : c ∈ signed d) : 43 ≤ c.toNat ∧ c.toNat ≤ 57 := by
  obtain hnil | ⟨b, k, hcons, hsign⟩ := signed_cases d
  · rw [hnil] at h
    cases h
  · rw [hcons] at h
    rcases List.mem_cons.1 h with rfl | hdigit
    · rcases hsign with rfl | rfl <;> decide
    · have hrange := ofNat_digits k c hdigit
      simp only [isDigit, Bool.and_eq_true, decide_eq_true_eq, UInt8.le_iff_toNat_le] at hrange
      obtain ⟨hlow, hhigh⟩ : 48 ≤ c.toNat ∧ c.toNat ≤ 57 := hrange
      omega

end Text

namespace Log.Level
set_option autoImplicit true

/-- The named level that a level is told from: the nearest one at or below it, or the least. -/
def origin (l : Level) : Level × String :=
  ((named.filter fun e => e.1 ≤ l).getLast?).getD (trace, "trace")

theorem toInt_named : trace.toInt = -8 ∧ debug.toInt = -4 ∧ info.toInt = 0 ∧ warn.toInt = 4 ∧
    error.toInt = 8 := by
  decide

theorem origin_eq (l : Level) : origin l =
    if l < debug then (trace, "trace") else if l < info then (debug, "debug")
    else if l < warn then (info, "info") else if l < error then (warn, "warn")
    else (error, "error") := by
  obtain ⟨ht, hd, hi, hw, he⟩ := toInt_named
  unfold origin named
  simp only [List.filter_cons, List.filter_nil, Int64.lt_iff_toInt_lt, Int64.le_iff_toInt_le, ht,
    hd, hi, hw, he, decide_eq_true_eq]
  have hregions : l.toInt < -8 ∨ (-8 ≤ l.toInt ∧ l.toInt < -4) ∨ (-4 ≤ l.toInt ∧ l.toInt < 0) ∨
      (0 ≤ l.toInt ∧ l.toInt < 4) ∨ (4 ≤ l.toInt ∧ l.toInt < 8) ∨ 8 ≤ l.toInt := by omega
  rcases hregions with h | h | h | h | h | h <;>
    simp (disch := omega) only [if_pos, if_neg] <;> rfl

theorem text_origin (l : Level) : l.text = relative (origin l).2 (l - (origin l).1) := by
  rw [origin_eq]
  unfold text
  split_ifs <;> rfl

theorem origin_mem (l : Level) : origin l ∈ named := by
  rw [origin_eq]
  split_ifs <;> simp [named]

theorem distance_range (l : Level) :
    -2 ^ 63 ≤ l.toInt - (origin l).1.toInt ∧ l.toInt - (origin l).1.toInt < 2 ^ 63 := by
  obtain ⟨ht, hd, hi, hw, he⟩ := toInt_named
  have hlow := l.le_toInt
  have hhigh := l.toInt_lt
  rw [origin_eq]
  simp only [Int64.lt_iff_toInt_lt, hd, hi, hw, he]
  split_ifs <;> simp only [ht, hd, hi, hw, he] <;> omega

theorem toInt_distance (l : Level) :
    (l - (origin l).1).toInt = l.toInt - (origin l).1.toInt := by
  obtain ⟨hlow, hhigh⟩ := distance_range l
  rw [Int64.toInt_sub]
  apply Int.bmod_eq_of_le_mul_two <;> omega

theorem relative_eq (name : String) (n : Int64) :
    relative name n = name ++ Text.signed n.toInt := by
  have hzero : n = 0 ↔ n.toInt = 0 := by rw [← Int64.toInt_zero, Int64.toInt_inj]
  have hneg : n < 0 ↔ n.toInt < 0 := by rw [Int64.lt_iff_toInt_lt, Int64.toInt_zero]
  unfold relative offset Text.signed
  simp only [hzero, hneg]
  split_ifs <;> simp

theorem text_signed (l : Level) :
    l.text = (origin l).2 ++ Text.signed (l.toInt - (origin l).1.toInt) := by
  rw [text_origin, relative_eq, toInt_distance]

theorem lowerByte_cases (b : UInt8) :
    ((65 ≤ b.toNat ∧ b.toNat ≤ 90) ∧ (Text.lowerByte b).toNat = b.toNat + 32) ∨
      (¬ (65 ≤ b.toNat ∧ b.toNat ≤ 90) ∧ Text.lowerByte b = b) := by
  have hcapital : (byte 'A' ≤ b && b ≤ byte 'Z') = true ↔ 65 ≤ b.toNat ∧ b.toNat ≤ 90 := by
    simp only [Bool.and_eq_true, decide_eq_true_eq, UInt8.le_iff_toNat_le]
    rfl
  unfold Text.lowerByte
  by_cases h : 65 ≤ b.toNat ∧ b.toNat ≤ 90
  · rw [if_pos (hcapital.2 h), UInt8.toNat_add]
    refine .inl ⟨h, Nat.mod_eq_of_lt ?_⟩
    change b.toNat + 32 < 256
    omega
  · rw [if_neg fun hb => h (hcapital.1 hb)]
    exact .inr ⟨h, rfl⟩

theorem eq_of_lowerByte (h : Text.lowerByte b = c) (hc : ¬ (97 ≤ c.toNat ∧ c.toNat ≤ 122)) :
    b = c := by
  obtain ⟨hb, hlower⟩ | ⟨-, hlower⟩ := lowerByte_cases b
  · rw [h] at hlower
    omega
  · rw [← h, hlower]

theorem eq_of_lower {s t : Text} (h : Text.lower s = t)
    (ht : ∀ c ∈ t, ¬ (97 ≤ c.toNat ∧ c.toNat ≤ 122)) : s = t := by
  subst h
  unfold Text.lower at ht ⊢
  calc s = s.map id := (List.map_id s).symm
    _ = s.map Text.lowerByte := List.map_congr_left fun b hb =>
      eq_of_lowerByte rfl (ht _ (List.mem_map_of_mem hb))

theorem capital_lowerByte : ∀ b : UInt8, b < 0x80 →
    Text.capital (Char.ofNat (Text.lowerByte b).toNat) = Text.capital (Char.ofNat b.toNat) :=
  Text.forall_byte (by decide +kernel)

theorem capitals_eq (h : Text.lower s = t) (ht : ∀ c ∈ t, c < 0x80) :
    (Text.chars s).map Text.capital = (Text.chars t).map Text.capital := by
  have hs : ∀ b ∈ s, b < 0x80 := by
    intro b hb
    have hlower := ht (Text.lowerByte b) (h ▸ List.mem_map_of_mem hb)
    rw [UInt8.lt_iff_toNat_lt] at hlower ⊢
    obtain ⟨-, hcase⟩ | ⟨-, hcase⟩ := lowerByte_cases b
    · omega
    · rwa [hcase] at hlower
  rw [Text.chars_ascii hs, Text.chars_ascii ht, ← h, Text.lower, List.map_map, List.map_map,
    List.map_map]
  exact List.map_congr_left fun b hb => (capital_lowerByte b (hs b hb)).symm

theorem named_letters (h : e ∈ named) :
    (∀ c ∈ (e.2 : Text), 97 ≤ c.toNat ∧ c.toNat ≤ 122) ∧ (e.2 : Text) ≠ [] ∧
      (e = (trace, "trace") ∨ (e.2 : Text).head? ≠ some (byte 't') ∧
        base? ((Text.chars e.2).map Text.capital) = some e.1) := by
  revert e
  decide +kernel

theorem cased_split (h : Text.lower s = text l) : ∃ name,
    s = name ++ Text.signed (l.toInt - (origin l).1.toInt) ∧ Text.lower name = (origin l).2 := by
  rw [text_signed, Text.lower] at h
  obtain ⟨name, rest, rfl, hname, hrest⟩ := List.map_eq_append_iff.1 h
  refine ⟨name, ?_, hname⟩
  rw [eq_of_lower hrest fun c hc => ?_]
  obtain ⟨-, hhigh⟩ := Text.signed_marks hc
  omega

theorem lower_text (l : Level) : Text.lower (text l) = text l := by
  rw [Text.lower, text_signed]
  conv_rhs => rw [← List.map_id (_ ++ _)]
  refine List.map_congr_left fun c hc => ?_
  obtain ⟨hcapital, -⟩ | ⟨-, hsame⟩ := lowerByte_cases c
  · rcases List.mem_append.1 hc with hname | hmark
    · have hsmall := (named_letters (origin_mem l)).1 _ hname
      omega
    · have hrange := Text.signed_marks hmark
      omega
  · exact hsame

theorem visible_of_cased (h : Text.lower s = text l) (hb : b ∈ s) :
    33 ≤ b.toNat ∧ b.toNat < 127 := by
  have hmem : Text.lowerByte b ∈ text l := h ▸ List.mem_map_of_mem hb
  rw [text_signed, List.mem_append] at hmem
  have hrange : 33 ≤ (Text.lowerByte b).toNat ∧ (Text.lowerByte b).toNat < 127 := by
    rcases hmem with hname | hmark
    · have hsmall := (named_letters (origin_mem l)).1 _ hname
      omega
    · have hmarks := Text.signed_marks hmark
      omega
  obtain ⟨hcapital, -⟩ | ⟨-, hsame⟩ := lowerByte_cases b
  · omega
  · rwa [hsame] at hrange

theorem not_space : ∀ b : UInt8, 33 ≤ b.toNat ∧ b.toNat < 127 →
    b < 0x80 ∧ isSpace (Char.ofNat b.toNat) = false :=
  Text.forall_byte (by decide +kernel)

theorem trim_cased (hu : Text.Blank u) (hv : Text.Blank v) (h : Text.lower s = text l) :
    Text.trim (u ++ s ++ v) = s := by
  refine Text.trim_blanks hu hv ?_ fun b hb => not_space b (visible_of_cased h hb)
  rintro rfl
  obtain ⟨name, hs, hname⟩ := cased_split h
  obtain ⟨rfl, -⟩ := List.append_eq_nil_iff.1 hs.symm
  exact (named_letters (origin_mem l)).2.1 hname.symm

theorem add_distance (l : Level) :
    (origin l).1 + Int64.ofInt (l.toInt - (origin l).1.toInt) = l := by
  rw [← toInt_distance, Int64.ofInt_toInt, Int64.add_comm, Int64.sub_add_cancel]

theorem read_distance (l : Level) :
    (Text.signed (l.toInt - (origin l).1.toInt) = [] ∧ (origin l).1 = l) ∨
      (Text.signed (l.toInt - (origin l).1.toInt)).isEmpty = false ∧
      ∃ n, Text.toInt64? (Text.signed (l.toInt - (origin l).1.toInt)) = some n ∧
        n.toInt = l.toInt - (origin l).1.toInt ∧ (origin l).1 + n = l := by
  obtain ⟨hlow, hhigh⟩ := distance_range l
  by_cases hzero : l.toInt - (origin l).1.toInt = 0
  · refine .inl ⟨by rw [hzero]; rfl, Int64.toInt_inj.1 (by omega)⟩
  · have hread := Text.toInt64?_signed hzero hlow hhigh
    refine .inr ⟨?_, _, hread, Int64.toInt_ofInt_of_le hlow hhigh, add_distance l⟩
    rw [List.isEmpty_eq_false_iff]
    intro hnil
    rw [hnil] at hread
    cases hread

theorem takeWhile_cased (hname : Text.lower name = (origin l).2) (d : Int) :
    (name ++ Text.signed d).takeWhile (!isSign ·) = name := by
  have hletters : ∀ b ∈ name, (!isSign b) = true := by
    intro b hb
    have hmem : Text.lowerByte b ∈ Text.ofString (origin l).2 := hname ▸ List.mem_map_of_mem hb
    have hrange := (named_letters (origin_mem l)).1 _ hmem
    rw [Bool.not_eq_true', isSign, Bool.or_eq_false_iff, beq_eq_false_iff_ne, beq_eq_false_iff_ne]
    constructor <;> rintro rfl <;> exact absurd hrange (by decide)
  rw [List.takeWhile_append_of_pos hletters]
  obtain hnil | ⟨b, k, hcons, hsign⟩ := Text.signed_cases d
  · rw [hnil, List.takeWhile_nil, List.append_nil]
  · have hstop : ¬ (!isSign b) = true := by
      rcases hsign with rfl | rfl <;> decide
    rw [hcons, List.takeWhile_cons, if_neg hstop, List.append_nil]

theorem standard?_cased (h : Text.lower s = text l)
    (hbase : base? ((Text.chars (origin l).2).map Text.capital) = some (origin l).1) :
    standard? s = some l := by
  obtain ⟨name, rfl, hname⟩ := cased_split h
  have hascii : ∀ c ∈ Text.ofString (origin l).2, c < 0x80 := by
    intro c hc
    have hrange := (named_letters (origin_mem l)).1 c hc
    exact (not_space c (by omega)).1
  unfold standard?
  dsimp only
  rw [takeWhile_cased hname, List.drop_left, capitals_eq hname hascii, hbase]
  dsimp only
  obtain ⟨hnil, hself⟩ | ⟨hne, n, hread, -, hsum⟩ := read_distance l
  · rw [hnil, hself]
    rfl
  · rw [hne, hread, if_neg Bool.false_ne_true, Option.map_some, hsum]

theorem parse_cased (h : Text.lower s = text l) (htrim : Text.trim t = s) : parse t = l := by
  unfold parse
  rw [htrim]
  dsimp only
  obtain ⟨-, hne, horigin | ⟨hhead, hbase⟩⟩ := named_letters (origin_mem l)
  · obtain ⟨name, rfl, hname⟩ := cased_split h
    have hlen : name.length = 5 := by
      rw [← List.length_map Text.lowerByte, ← Text.lower, hname, horigin]
      rfl
    have hbase : trace = (origin l).1 := by rw [horigin]
    rw [List.take_left' hlen, List.drop_left' hlen, hname, if_pos (by rw [horigin]), hbase]
    obtain ⟨hnil, hself⟩ | ⟨hempty, n, hread, -, hsum⟩ := read_distance l
    · rw [hnil, hself]
      rfl
    · rw [hempty, hread, if_neg Bool.false_ne_true]
      exact hsum
  · rw [standard?_cased h hbase, if_neg ?_, Option.getD_some]
    intro htrace
    apply hhead
    obtain ⟨name, rfl, hname⟩ := cased_split h
    cases name with
    | nil => exact absurd hname.symm hne
    | cons b name =>
      rw [← hname]
      exact congrArg List.head? htrace

/-- A level is read back from its name, in any letter case and between any blanks, so no two levels
share a name. The name holds the distance in whole numbers: neither the distance on the way out nor
the sum on the way back wraps around. -/
theorem parse_text (l : Level) :
    (∀ u s v, Text.Blank u → Text.Blank v → Text.lower s = text l → parse (u ++ s ++ v) = l) ∧
    (∀ l', text l' = text l → l' = l) ∧
    text l = (origin l).2 ++ Text.signed (l.toInt - (origin l).1.toInt) ∧
    (l - (origin l).1).toInt = l.toInt - (origin l).1.toInt ∧
    (l = (origin l).1 ∨
      ∃ n, Text.toInt64? (Text.signed (l.toInt - (origin l).1.toInt)) = some n ∧
        n.toInt = l.toInt - (origin l).1.toInt ∧
        ((origin l).1 + n).toInt = (origin l).1.toInt + n.toInt) := by
  refine ⟨?_, ?_, text_signed l, toInt_distance l, ?_⟩
  · intro u s v hu hv h
    exact parse_cased h (trim_cased hu hv h)
  · intro l' h
    have hblank : Text.Blank [] := fun r hr => by
      rw [Utf8.symbols_nil] at hr
      cases hr
    have hread : parse ([] ++ text l ++ []) = l' :=
      parse_cased ((lower_text l).trans h.symm) (trim_cased hblank hblank (lower_text l))
    rw [← hread]
    exact parse_cased (lower_text l) (trim_cased hblank hblank (lower_text l))
  · obtain ⟨-, hself⟩ | ⟨-, n, hread, hn, hsum⟩ := read_distance l
    · exact .inl hself.symm
    · refine .inr ⟨n, hread, hn, ?_⟩
      rw [hsum, hn]
      omega

example : text Int64.minValue = "trace-9223372036854775800" := by decide +kernel

example : parse ([0xC2, 0xA0] ++ ("eRRor+9223372036854775799" : Text) ++ [9]) = Int64.maxValue := by
  decide +kernel

end Log.Level

end LoxLang
