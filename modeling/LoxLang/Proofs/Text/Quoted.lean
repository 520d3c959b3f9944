import LoxLang.Proofs.Text.Symbols
import LoxLang.Text.Digits
import LoxLang.Text.Quoted

namespace LoxLang
set_option autoImplicit true

namespace Text

theorem natural?_concat (t : Text) (b : UInt8) : natural? 16 (t ++ [b]) =
    (natural? 16 t).bind fun n => (digit? b).bind fun d =>
      if d < 16 then some (n * 16 + d) else none := by
  rw [natural?, List.foldlM_append]
  simp only [List.foldlM_cons, List.foldlM_nil, bind_pure]
  rfl

theorem natural?_zeros (k : Nat) (t : Text) :
    natural? 16 (List.replicate k (byte '0') ++ t) = natural? 16 t := by
  induction k with
  | zero => rw [List.replicate_zero, List.nil_append]
  | succ k ih =>
    rw [List.replicate_succ, List.cons_append, ← ih]
    rfl

theorem digit?_digitChar : ∀ d < 16, digit? (byte (Nat.digitChar d)) = some d := by
  decide

theorem natural?_toDigits (n : Nat) : natural? 16 ((Nat.toDigits 16 n).map byte) = some n := by
  induction n using Nat.strongRecOn with
  | ind n ih =>
    have hlast (m : Nat) {t : Text} (ht : natural? 16 t = some m) (d : Nat) (hd : d < 16) :
        natural? 16 (t ++ [byte d.digitChar]) = some (m * 16 + d) := by
      rw [natural?_concat, ht, digit?_digitChar d hd]
      exact if_pos hd
    rw [Nat.toDigits_eq_if (by decide)]
    split
    · rename_i hn
      have hone := hlast 0 (t := []) rfl n hn
      rwa [Nat.zero_mul, Nat.zero_add] at hone
    · rw [List.map_append, List.map_singleton,
        hlast (n / 16) (ih (n / 16) (by omega)) (n % 16) (by omega)]
      congr 1
      omega

end Text

namespace Quoted

theorem natural?_hex (width n : Nat) : Text.natural? 16 (hex width n) = some n := by
  unfold hex
  dsimp only
  rw [List.map_append, List.map_replicate, Text.natural?_zeros, Text.natural?_toDigits]

theorem length_hex (hw : 0 < width) (hn : n < Nat.pow 16 width) : (hex width n).length = width := by
  have hle := (Nat.length_toDigits_le_iff (by decide) hw).2 hn
  unfold hex
  dsimp only
  rw [List.length_map, List.length_append, List.length_replicate]
  omega

/-- The number that so many hexadecimal digits at the front of a text denote. -/
def number (width : Nat) (t : Text) : Nat := (Text.natural? 16 (t.take width)).getD 0

theorem number_hex (hw : 0 < width) (hn : n < Nat.pow 16 width) (t : Text) :
    number width (hex width n ++ t) = n := by
  rw [number, List.take_left' (length_hex hw hn), natural?_hex]
  rfl

theorem drop_hex (hw : 0 < width) (hn : n < Nat.pow 16 width) (t : Text) :
    (hex width n ++ t).drop width = t := List.drop_left' (length_hex hw hn)

/-- The letters that stand for a control character after a backslash. -/
def letters : List (UInt8 × UInt8) :=
  [(byte 'a', 7), (byte 'b', 8), (byte 'f', 12), (byte 'n', 10), (byte 'r', 13), (byte 't', 9),
    (byte 'v', 11)]

/-- The bytes that the front of a quoted text stands for, and what follows it. -/
def next : Text → Text × Text
  | [] => ([], [])
  | [b] => ([b], [])
  | b :: k :: t =>
    if b ≠ byte '\\' then
      (b :: (k :: t).take (Utf8.extent b (k :: t)), (k :: t).drop (Utf8.extent b (k :: t)))
    else if k = byte 'x' then ([(number 2 t).toUInt8], t.drop 2)
    else if k = byte 'u' then (Utf8.encode (Char.ofNat (number 4 t)), t.drop 4)
    else if k = byte 'U' then (Utf8.encode (Char.ofNat (number 8 t)), t.drop 8)
    else ([(letters.lookup k).getD k], t)

theorem next_byte (n : Nat) (hn : n < 256) (t : Text) :
    next ("\\x" ++ hex 2 n ++ t) = ([n.toUInt8], t) := by
  rw [List.append_assoc]
  change ([(number 2 (hex 2 n ++ t)).toUInt8], (hex 2 n ++ t).drop 2) = _
  rw [number_hex (by decide) hn, drop_hex (by decide) hn]

theorem next_short (c : Char) (h : c.toNat < 0x10000) (t : Text) :
    next ("\\u" ++ hex 4 c.toNat ++ t) = (Utf8.encode c, t) := by
  rw [List.append_assoc]
  change (Utf8.encode (Char.ofNat (number 4 (hex 4 c.toNat ++ t))), (hex 4 c.toNat ++ t).drop 4) = _
  rw [number_hex (by decide) h, drop_hex (by decide) h, Char.ofNat_toNat]

theorem next_long (c : Char) (t : Text) :
    next ("\\U" ++ hex 8 c.toNat ++ t) = (Utf8.encode c, t) := by
  have h : c.toNat < Nat.pow 16 8 := Nat.lt_trans (Utf8.toNat_lt c) (by decide)
  rw [List.append_assoc]
  change (Utf8.encode (Char.ofNat (number 8 (hex 8 c.toNat ++ t))), (hex 8 c.toNat ++ t).drop 8) = _
  rw [number_hex (by decide) h, drop_hex (by decide) h, Char.ofNat_toNat]

theorem next_raw (hc : c ≠ '\\') (t : Text) : next (Utf8.encode c ++ t) = (Utf8.encode c, t) := by
  cases h : Utf8.encode c with
  | nil => exact absurd h (Utf8.encode_ne_nil c)
  | cons b w =>
    have hextent : Utf8.extent b (w ++ t) = w.length := by
      rw [Utf8.extent, Utf8.character?_encode c t h]
    have hb : b ≠ byte '\\' := by
      rintro rfl
      have hread := Utf8.character?_encode c t h
      rw [Utf8.character?_ascii (by decide)] at hread
      exact hc (Prod.mk.inj (Option.some.inj hread)).1.symm
    rw [List.cons_append]
    cases hrest : w ++ t with
    | nil =>
      obtain ⟨rfl, rfl⟩ := List.append_eq_nil_iff.1 hrest
      rfl
    | cons k rest =>
      rw [next, if_pos hb, ← hrest, hextent, List.take_left, List.drop_left]

def Genuine (r : Utf8.Symbol) : Prop :=
  (∃ b, r = ⟨none, [b]⟩) ∨ ∃ c, r = ⟨some c, Utf8.encode c⟩

theorem genuine_of_mem (h : r ∈ Utf8.symbols t) : Genuine r := by
  obtain ⟨b, rest, rfl⟩ := Utf8.exists_front h
  unfold Utf8.front Utf8.extent
  cases hread : Utf8.character? b rest with
  | none => exact .inl ⟨b, rfl⟩
  | some x =>
    obtain ⟨c, n⟩ := x
    rw [← (Utf8.encode_of_character? hread).2]
    exact .inr ⟨c, rfl⟩

inductive Writes (c : Char) : Text → Prop where
  | raw : c ≠ '"' → c ≠ '\\' → Writes c (Utf8.encode c)
  | letter : k ∉ [byte 'x', byte 'u', byte 'U'] → Utf8.encode c = [(letters.lookup k).getD k] →
      Writes c [byte '\\', k]
  | control : c.toNat < 0x80 → Writes c ("\\x" ++ hex 2 c.toNat)
  | short : c.toNat < 0x10000 → Writes c ("\\u" ++ hex 4 c.toNat)
  | long : Writes c ("\\U" ++ hex 8 c.toNat)

theorem escape_writes (c : Char) : Writes c (escape ⟨some c, Utf8.encode c⟩) := by
  have hletter (n : Nat) (k : UInt8) (hk : k ∉ [byte 'x', byte 'u', byte 'U'])
      (he : Utf8.encode (Char.ofNat n) = [(letters.lookup k).getD k]) (hn : c.toNat = n) :
      Writes c [byte '\\', k] := by
    obtain rfl : c = Char.ofNat n := by rw [← hn, Char.ofNat_toNat]
    exact .letter hk he
  refine iteInduction (fun h => ?_) fun hquote => ?_
  · exact hletter 34 (byte '"') (by decide) rfl (by rw [h]; rfl)
  refine iteInduction (fun h => ?_) fun hslash => ?_
  · exact hletter 92 (byte '\\') (by decide) rfl (by rw [h]; rfl)
  refine iteInduction (fun _ => .raw hquote hslash) fun _ => ?_
  refine iteInduction (hletter 7 (byte 'a') (by decide) rfl) fun _ => ?_
  refine iteInduction (hletter 8 (byte 'b') (by decide) rfl) fun _ => ?_
  refine iteInduction (hletter 12 (byte 'f') (by decide) rfl) fun _ => ?_
  refine iteInduction (hletter 10 (byte 'n') (by decide) rfl) fun _ => ?_
  refine iteInduction (hletter 13 (byte 'r') (by decide) rfl) fun _ => ?_
  refine iteInduction (hletter 9 (byte 't') (by decide) rfl) fun _ => ?_
  refine iteInduction (hletter 11 (byte 'v') (by decide) rfl) fun _ => ?_
  refine iteInduction (fun _ => .control (by omega)) fun _ => ?_
  exact iteInduction .short fun _ => .long

theorem next_escape (h : Genuine r) (t : Text) : next (escape r ++ t) = (r.bytes, t) := by
  rcases h with ⟨b, rfl⟩ | ⟨c, rfl⟩
  · have hb := next_byte b.toNat b.toNat_lt t
    rw [Utf8.toUInt8_eq rfl] at hb
    rwa [← List.append_nil ("\\x" ++ hex 2 b.toNat : Text)] at hb
  · have hw := escape_writes c
    generalize escape ⟨some c, Utf8.encode c⟩ = w at hw
    cases hw with
    | raw _ hc => exact next_raw hc t
    | letter hk he =>
      simp only [List.mem_cons, List.not_mem_nil, not_or] at hk
      change next (byte '\\' :: _ :: t) = _
      rw [he, next, if_neg (not_not.2 rfl), if_neg hk.1, if_neg hk.2.1, if_neg hk.2.2.1]
    | control hc => rw [next_byte c.toNat (by omega), Utf8.encode, if_pos hc]
    | short hc => exact next_short c hc t
    | long => exact next_long c t

theorem escape_head (h : Genuine r) : ∃ b w, escape r = b :: w ∧ b ≠ byte '"' := by
  rcases h with ⟨b, rfl⟩ | ⟨c, rfl⟩
  · exact ⟨byte '\\', _, rfl, by decide⟩
  · have hw := escape_writes c
    generalize escape ⟨some c, Utf8.encode c⟩ = w at hw
    cases hw with
    | raw hc =>
      obtain ⟨b, w, hb⟩ := List.exists_cons_of_ne_nil (Utf8.encode_ne_nil c)
      refine ⟨b, w, hb, ?_⟩
      rintro rfl
      have hread := Utf8.character?_encode c [] hb
      rw [Utf8.character?_ascii (by decide)] at hread
      exact hc (Prod.mk.inj (Option.some.inj hread)).1.symm
    | letter | control | short | long => exact ⟨byte '\\', _, rfl, by decide⟩

theorem escapes_unique {rs ss : List Utf8.Symbol} (hr : ∀ r ∈ rs, Genuine r)
    (hs : ∀ s ∈ ss, Genuine s)
    (h : rs.flatMap escape ++ byte '"' :: x = ss.flatMap escape ++ byte '"' :: y) :
    rs.flatMap Utf8.Symbol.bytes = ss.flatMap Utf8.Symbol.bytes ∧ x = y := by
  induction rs generalizing ss with
  | nil =>
    cases ss with
    | nil => exact ⟨rfl, (List.cons.inj h).2⟩
    | cons s ss =>
      obtain ⟨b, w, hb, hne⟩ := escape_head (hs s List.mem_cons_self)
      rw [List.flatMap_cons, hb] at h
      exact absurd (List.cons.inj h).1.symm hne
  | cons r rs ih =>
    cases ss with
    | nil =>
      obtain ⟨b, w, hb, hne⟩ := escape_head (hr r List.mem_cons_self)
      rw [List.flatMap_cons, hb] at h
      exact absurd (List.cons.inj h).1 hne
    | cons s ss =>
      obtain ⟨hr, hrs⟩ := List.forall_mem_cons.1 hr
      obtain ⟨hs, hss⟩ := List.forall_mem_cons.1 hs
      rw [List.flatMap_cons, List.flatMap_cons, List.append_assoc, List.append_assoc] at h
      -- Both sides begin with an escape, and reading it leaves what `ih` is about.
      have hnext := congrArg next h
      rw [next_escape hr, next_escape hs] at hnext
      obtain ⟨hbytes, hrest⟩ := Prod.mk.inj hnext
      obtain ⟨hflat, hxy⟩ := ih hrs hss hrest
      rw [List.flatMap_cons, List.flatMap_cons, hbytes, hflat]
      exact ⟨rfl, hxy⟩

theorem encode_unique (h : encode s ++ x = encode t ++ y) : s = t ∧ x = y := by
  have hbody : (Utf8.symbols s).flatMap escape ++ byte '"' :: x =
      (Utf8.symbols t).flatMap escape ++ byte '"' :: y := by
    have htail := congrArg List.tail h
    simpa [encode, List.append_assoc] using htail
  have hunique :=
    escapes_unique (fun r hr => genuine_of_mem hr) (fun r hr => genuine_of_mem hr) hbody
  rwa [Utf8.flatMap_symbols, Utf8.flatMap_symbols] at hunique

end Quoted

end LoxLang
