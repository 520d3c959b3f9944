import LoxLang.Proofs.Text.Boundary
import LoxLang.Text.Case

namespace LoxLang
set_option autoImplicit true

namespace Utf8

theorem character?_take (h : character? b rest = some (c, n)) (t : Text) :
    character? b (rest.take n ++ t) = some (c, n) := by
  obtain ⟨high, least, hl, hlen, hall, hle, hcode⟩ := (character?_eq_some_iff b rest).1 h
  have htake : (rest.take n ++ t).take n = rest.take n := List.take_left' hlen
  rw [character?_eq_some_iff, htake]
  exact ⟨high, least, hl, hlen, hall, hle, hcode⟩

theorem character?_append (h : character? b rest = some (c, n)) (t : Text) :
    character? b (rest ++ t) = some (c, n) := by
  have hread := character?_take h (rest.drop n ++ t)
  rwa [← List.append_assoc, List.take_append_drop] at hread

theorem extent_le (b : UInt8) (rest : Text) : extent b rest ≤ 3 := by
  unfold extent
  cases h : character? b rest with
  | none => exact Nat.zero_le 3
  | some x =>
    obtain ⟨c, n⟩ := x
    obtain ⟨high, least, hl, -⟩ := (character?_eq_some_iff b rest).1 h
    rw [lead_eq] at hl
    change n ≤ 3
    grind

theorem length_take_extent (b : UInt8) (rest : Text) :
    (rest.take (extent b rest)).length = extent b rest := by
  unfold extent
  cases h : character? b rest with
  | none => rfl
  | some x => exact (encode_of_character? h).1

def front (b : UInt8) (rest : Text) : Symbol :=
  ⟨(character? b rest).map Prod.fst, b :: rest.take (extent b rest)⟩

theorem symbols_nil : symbols [] = [] := by rw [symbols]

theorem symbols_cons (b : UInt8) (rest : Text) :
    symbols (b :: rest) = front b rest :: symbols (rest.drop (extent b rest)) := by
  rw [symbols]
  rfl

theorem flatMap_symbols (t : Text) : (symbols t).flatMap Symbol.bytes = t := by
  induction t using symbols.induct with
  | case1 => rw [symbols_nil, List.flatMap_nil]
  | case2 b rest n ih =>
    rw [symbols_cons, List.flatMap_cons, ih, front, List.cons_append, List.take_append_drop]

theorem front_part (h : rest = rest.take (extent b rest) ++ (u ++ v)) :
    character? b (rest.take (extent b rest) ++ u) = character? b rest := by
  cases hread : character? b rest with
  | some x =>
    obtain ⟨c, n⟩ := x
    have hextent : extent b rest = n := by rw [extent, hread]
    rw [hextent]
    exact character?_take hread u
  | none =>
    cases hpart : character? b (rest.take (extent b rest) ++ u) with
    | none => rfl
    | some x =>
      have hwhole := character?_append hpart v
      rw [List.append_assoc, ← h, hread] at hwhole
      cases hwhole

theorem symbols_flatMap_left (h : symbols t = rs ++ ss) :
    symbols (rs.flatMap Symbol.bytes) = rs := by
  induction rs generalizing t with
  | nil => exact symbols_nil
  | cons r rs ih =>
    cases t with
    | nil =>
      rw [symbols_nil] at h
      cases h
    | cons b rest =>
      rw [symbols_cons, List.cons_append, List.cons.injEq] at h
      obtain ⟨rfl, hrest⟩ := h
      have hsplit : rest = rest.take (extent b rest) ++
          (rs.flatMap Symbol.bytes ++ ss.flatMap Symbol.bytes) := by
        rw [← List.flatMap_append, ← hrest, flatMap_symbols, List.take_append_drop]
      have hread := front_part hsplit
      have hextent : extent b (rest.take (extent b rest) ++ rs.flatMap Symbol.bytes) =
          extent b rest := by
        rw [extent, hread]
        rfl
      rw [List.flatMap_cons, front, List.cons_append, symbols_cons, front, hextent, hread,
        List.take_left' (length_take_extent b rest), List.drop_left' (length_take_extent b rest),
        ih hrest]

theorem symbols_flatMap_right (h : symbols t = rs ++ ss) :
    symbols (ss.flatMap Symbol.bytes) = ss := by
  induction rs generalizing t with
  | nil =>
    rw [List.nil_append] at h
    rw [← h, flatMap_symbols]
  | cons r rs ih =>
    cases t with
    | nil =>
      rw [symbols_nil] at h
      cases h
    | cons b rest =>
      rw [symbols_cons, List.cons_append, List.cons.injEq] at h
      exact ih h.2

theorem exists_front (h : r ∈ symbols t) : ∃ b rest, r = front b rest := by
  induction t using symbols.induct with
  | case1 =>
    rw [symbols_nil] at h
    cases h
  | case2 b rest n ih =>
    rw [symbols_cons] at h
    rcases List.mem_cons.1 h with rfl | h
    · exact ⟨b, rest, rfl⟩
    · exact ih h

theorem length_bytes_le (h : r ∈ symbols t) : r.bytes.length ≤ 4 := by
  obtain ⟨b, rest, rfl⟩ := exists_front h
  have hle := extent_le b rest
  rw [front, List.length_cons, length_take_extent]
  omega

theorem length_le_symbols (t : Text) : t.length ≤ 4 * (symbols t).length := by
  have hsum (rs : List Symbol) (h : ∀ r ∈ rs, r.bytes.length ≤ 4) :
      (rs.flatMap Symbol.bytes).length ≤ 4 * rs.length := by
    induction rs with
    | nil => exact Nat.le_refl 0
    | cons r rs ih =>
      obtain ⟨hr, hrs⟩ := List.forall_mem_cons.1 h
      have hle := ih hrs
      rw [List.flatMap_cons, List.length_append, List.length_cons]
      omega
  have hlen := hsum (symbols t) fun r hr => length_bytes_le hr
  rwa [flatMap_symbols] at hlen

theorem bytes_ne_nil (h : r ∈ symbols t) : r.bytes ≠ [] := by
  obtain ⟨b, rest, rfl⟩ := exists_front h
  exact List.cons_ne_nil _ _

theorem length_symbols_le (t : Text) : (symbols t).length ≤ t.length := by
  have hsum (rs : List Symbol) (h : ∀ r ∈ rs, r.bytes ≠ []) :
      rs.length ≤ (rs.flatMap Symbol.bytes).length := by
    induction rs with
    | nil => exact Nat.le_refl 0
    | cons r rs ih =>
      obtain ⟨hr, hrs⟩ := List.forall_mem_cons.1 h
      have hpos := List.length_pos_of_ne_nil hr
      have hle := ih hrs
      rw [List.flatMap_cons, List.length_append, List.length_cons]
      omega
  have hlen := hsum (symbols t) fun r hr => bytes_ne_nil hr
  rwa [flatMap_symbols] at hlen

theorem symbol_of_ascii (h : r ∈ symbols t) (hmem : b ∈ r.bytes) (hb : b < 0x80) :
    r = ⟨some (Char.ofNat b.toNat), [b]⟩ := by
  obtain ⟨first, rest, rfl⟩ := exists_front h
  unfold front at hmem ⊢
  cases hread : character? first rest with
  | none =>
    have hextent : extent first rest = 0 := by rw [extent, hread]
    rw [hextent] at hmem
    obtain rfl := List.mem_singleton.1 hmem
    rw [character?_ascii hb] at hread
    cases hread
  | some x =>
    obtain ⟨c, n⟩ := x
    have hextent : extent first rest = n := by rw [extent, hread]
    have hencode := (encode_of_character? hread).2
    rw [hextent] at hmem ⊢
    dsimp only at hmem
    rw [← hencode] at hmem ⊢
    have hone := encode_of_ascii hmem hb
    rw [hone] at hencode
    obtain ⟨rfl, -⟩ := List.cons.inj hencode
    rw [character?_ascii hb] at hread
    cases hread
    rw [hone]
    rfl

theorem symbols_append (h : ∀ r ∈ symbols s, r.char?.isSome) (t : Text) :
    symbols (s ++ t) = symbols s ++ symbols t := by
  induction s using symbols.induct with
  | case1 =>
    rw [symbols_nil]
    rfl
  | case2 b rest n ih =>
    rw [symbols_cons, List.forall_mem_cons] at h
    obtain ⟨hfront, hrest⟩ := h
    obtain ⟨x, hread⟩ : ∃ x, character? b rest = some x := by
      rw [front, Option.isSome_map] at hfront
      exact Option.isSome_iff_exists.1 hfront
    have hwhole : character? b (rest ++ t) = character? b rest := by
      rw [hread]
      exact character?_append hread t
    have hextent : extent b (rest ++ t) = extent b rest := by
      rw [extent, hwhole, extent]
    have hle : extent b rest ≤ rest.length := by
      have hlen := length_take_extent b rest
      rw [List.length_take] at hlen
      omega
    rw [List.cons_append, symbols_cons, symbols_cons, front, front, hwhole, hextent,
      List.take_append_of_le_length hle, List.drop_append_of_le_length hle, ih hrest]
    rfl

theorem symbols_ascii (h : ∀ b ∈ t, b < 0x80) :
    symbols t = t.map fun b => ⟨some (Char.ofNat b.toNat), [b]⟩ := by
  induction t with
  | nil => exact symbols_nil
  | cons b t ih =>
    obtain ⟨hb, ht⟩ := List.forall_mem_cons.1 h
    have hextent : extent b t = 0 := by rw [extent, character?_ascii hb]
    rw [symbols_cons, front, hextent, character?_ascii hb, List.drop_zero, ih ht]
    rfl

end Utf8

namespace Text

theorem forall_byte {p : UInt8 → Prop} (h : ∀ n : Fin 256, p (.ofNat n)) (b : UInt8) : p b := by
  have hb := h ⟨b.toNat, b.toNat_lt⟩
  rwa [UInt8.ofNat_toNat] at hb

theorem chars_ascii (h : ∀ b ∈ t, b < 0x80) : chars t = t.map fun b => Char.ofNat b.toNat := by
  rw [chars, Utf8.symbols_ascii h, List.map_map]
  rfl

def Blank (t : Text) : Prop := ∀ r ∈ Utf8.symbols t, isSpaceSymbol r = true

theorem Blank.whole (h : Blank t) : ∀ r ∈ Utf8.symbols t, r.char?.isSome := by
  intro r hr
  have hspace := h r hr
  unfold isSpaceSymbol at hspace
  cases hc : r.char? with
  | some c => rfl
  | none =>
    rw [hc] at hspace
    cases hspace

theorem trim_blanks (hu : Blank u) (hv : Blank v) (hne : t ≠ [])
    (ht : ∀ b ∈ t, b < 0x80 ∧ isSpace (Char.ofNat b.toNat) = false) :
    trim (u ++ t ++ v) = t := by
  have hascii := Utf8.symbols_ascii fun b hb => (ht b hb).1
  have hwhole : ∀ r ∈ Utf8.symbols t, r.char?.isSome ∧ isSpaceSymbol r = false := by
    rw [hascii]
    intro r hr
    obtain ⟨b, hb, rfl⟩ := List.mem_map.1 hr
    exact ⟨rfl, (ht b hb).2⟩
  have hsymbols : Utf8.symbols t ≠ [] := by
    rw [hascii]
    exact fun hnil => hne (List.map_eq_nil_iff.1 hnil)
  -- Neither the symbols of the text nor, in reverse, those before the blanks begin with a blank.
  have hkeep (rs ss : List Utf8.Symbol) (hrs : rs ≠ []) (hno : ∀ r ∈ rs, isSpaceSymbol r = false) :
      (rs ++ ss).dropWhile isSpaceSymbol = rs ++ ss := by
    obtain ⟨r, rs, rfl⟩ := List.exists_cons_of_ne_nil hrs
    exact List.dropWhile_cons_of_neg (Bool.eq_false_iff.1 (hno r List.mem_cons_self))
  unfold trim
  dsimp only
  rw [List.append_assoc, Utf8.symbols_append hu.whole,
    Utf8.symbols_append fun r hr => (hwhole r hr).1, List.dropWhile_append_of_pos hu,
    hkeep _ _ hsymbols fun r hr => (hwhole r hr).2, List.reverse_append,
    List.dropWhile_append_of_pos fun r hr => hv r (List.mem_reverse.1 hr)]
  have hreverse := hkeep (Utf8.symbols t).reverse [] (by simpa using hsymbols)
    fun r hr => (hwhole r (List.mem_reverse.1 hr)).2
  rw [List.append_nil] at hreverse
  rw [hreverse, List.reverse_reverse, Utf8.flatMap_symbols]

def Bare (t : Text) : Prop := ∀ r ∈ (Utf8.symbols t).getLast?, isSpaceSymbol r = false

theorem not_of_mem_head?_dropWhile (h : x ∈ (List.dropWhile p xs).head?) : p x = false := by
  have hnot := List.head?_dropWhile_not p xs
  rw [Option.mem_def.1 h] at hnot
  exact hnot

def InBlank (t : Text) (b : UInt8) : Prop :=
  ∃ r ∈ Utf8.symbols t, isSpaceSymbol r = true ∧ b ∈ r.bytes

theorem trim_cut (t : Text) : ∃ before after, t = before ++ t.trim ++ after ∧ t.trim.Bare ∧
    ∀ b ∈ before ++ after, InBlank t b := by
  have hfront := List.takeWhile_append_dropWhile (p := isSpaceSymbol) (l := Utf8.symbols t)
  have hblanks : ∀ r ∈ (Utf8.symbols t).takeWhile isSpaceSymbol, isSpaceSymbol r = true :=
    List.all_eq_true.1 List.all_takeWhile
  generalize hrest : (Utf8.symbols t).dropWhile isSpaceSymbol = rest at hfront
  generalize (Utf8.symbols t).takeWhile isSpaceSymbol = blanks at hfront hblanks
  have hback := congrArg List.reverse
    (List.takeWhile_append_dropWhile (p := isSpaceSymbol) (l := rest.reverse))
  rw [List.reverse_append, List.reverse_reverse] at hback
  have hblanks' : ∀ r ∈ (rest.reverse.takeWhile isSpaceSymbol).reverse, isSpaceSymbol r = true :=
    fun r hr => List.all_eq_true.1 List.all_takeWhile r (List.mem_reverse.1 hr)
  generalize (rest.reverse.takeWhile isSpaceSymbol).reverse = blanks' at hback hblanks'
  have htrim : t.trim =
      (rest.reverse.dropWhile isSpaceSymbol).reverse.flatMap Utf8.Symbol.bytes := by
    rw [← hrest]
    rfl
  refine ⟨blanks.flatMap Utf8.Symbol.bytes, blanks'.flatMap Utf8.Symbol.bytes, ?_, ?_, ?_⟩
  · rw [htrim, List.append_assoc, ← List.flatMap_append, hback, ← List.flatMap_append, hfront,
      Utf8.flatMap_symbols]
  · have hpart := Utf8.symbols_flatMap_right hfront.symm
    have hsymbols := Utf8.symbols_flatMap_left (hpart.trans hback.symm)
    intro r hr
    rw [htrim, hsymbols, List.getLast?_reverse] at hr
    exact not_of_mem_head?_dropWhile hr
  · intro b hb
    rw [← List.flatMap_append, List.mem_flatMap] at hb
    obtain ⟨r, hr, hb⟩ := hb
    rw [InBlank, ← hfront, ← hback]
    rcases List.mem_append.1 hr with hr | hr
    · exact ⟨r, List.mem_append_left _ hr, hblanks r hr, hb⟩
    · exact ⟨r, List.mem_append_right _ (List.mem_append_right _ hr), hblanks' r hr, hb⟩

theorem trim_part (t : Text) : ∃ before after, t = before ++ t.trim ++ after ∧ t.trim.Bare := by
  obtain ⟨before, after, ht, hbare, -⟩ := t.trim_cut
  exact ⟨before, after, ht, hbare⟩

theorem trim_eq_self (hbare : Bare t)
    (hhead : ∀ r ∈ (Utf8.symbols t).head?, isSpaceSymbol r = false) : t.trim = t := by
  have hkeep {rs : List Utf8.Symbol} (h : ∀ r ∈ rs.head?, isSpaceSymbol r = false) :
      rs.dropWhile isSpaceSymbol = rs := by
    cases rs with
    | nil => rfl
    | cons r rs => exact List.dropWhile_cons_of_neg (Bool.eq_false_iff.1 (h r rfl))
  unfold trim
  dsimp only
  rw [hkeep hhead, hkeep (by rwa [List.head?_reverse]), List.reverse_reverse, Utf8.flatMap_symbols]

theorem Bare.encode_append (h : Bare t) (hc : isSpaceSymbol ⟨some c, Utf8.encode c⟩ = false) :
    Bare (Utf8.encode c ++ t) := by
  intro r hr
  rw [Utf8.symbols_encode] at hr
  cases ht : Utf8.symbols t with
  | nil =>
    rw [ht] at hr
    cases hr
    exact hc
  | cons s rs =>
    rw [ht, List.getLast?_cons_cons, ← ht] at hr
    exact h r hr

theorem Bare.of_encode_append (h : Bare (Utf8.encode c ++ t)) : Bare t := by
  intro r hr
  apply h
  rw [Utf8.symbols_encode, List.getLast?_cons, hr]
  rfl

theorem Bare.getLast?_ne_ascii (h : Bare t) (hb : b < 0x80)
    (hspace : isSpaceSymbol ⟨some (Char.ofNat b.toNat), [b]⟩ = true) : t.getLast? ≠ some b := by
  intro hlast
  rw [← Utf8.flatMap_symbols t] at hlast
  rcases List.eq_nil_or_concat (Utf8.symbols t) with hnil | ⟨rs, r, hsymbols⟩
  · rw [hnil] at hlast
    cases hlast
  · rw [List.concat_eq_append] at hsymbols
    have hr : r ∈ Utf8.symbols t := by
      rw [hsymbols]
      exact List.mem_concat_self
    have hmem : b ∈ r.bytes := by
      rw [hsymbols, List.flatMap_append, List.flatMap_singleton,
        List.getLast?_append_of_ne_nil _ (Utf8.bytes_ne_nil hr)] at hlast
      exact List.mem_of_getLast? hlast
    have hnot := h r (by rw [hsymbols, List.getLast?_concat]; rfl)
    rw [Utf8.symbol_of_ascii hr hmem hb, hspace] at hnot
    cases hnot

theorem Bare.getLast?_ne (h : Bare t) : t.getLast? ≠ some 13 :=
  h.getLast?_ne_ascii (by decide) (by decide)

end Text

end LoxLang
