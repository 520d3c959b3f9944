import LoxLang.Proofs.Scan.Tiling
import LoxLang.Proofs.Text.Boundary

namespace LoxLang

/-- The same token so many lines further down. -/
def Token.later (k : Nat) (t : Token) : Token := { t with line := t.line + k }

/-- The same fault so many lines further down. -/
def Diagnostic.later (k : Nat) (d : Diagnostic) : Diagnostic := { d with line := d.line + k }

/-- The fault of a string that the end of the text cuts off. -/
def Diagnostic.Unterminated (d : Diagnostic) : Prop := d.message = "Unterminated string."

instance (d : Diagnostic) : Decidable d.Unterminated := inferInstanceAs (Decidable (_ = _))

namespace Scan
set_option autoImplicit true

/-- A byte that no lexeme has but a string between its quotes. -/
structure Outside (b : UInt8) : Prop where
  word : Text.isWord b = false
  point : b ≠ byte '.'
  quote : b ≠ byte '"'
  operator : ∀ op ∈ operators, b ∉ op.1

theorem outside_of_toNat {b : UInt8} (h : b.toNat ≤ 32 ∨ 128 ≤ b.toNat) : Outside b where
  word := by
    rw [Bool.eq_false_iff, Ne, Text.isWord, Bool.or_eq_true, isLetter_iff, isDigit_iff]
    omega
  point := by
    rintro rfl
    exact absurd h (by decide)
  quote := by
    rintro rfl
    exact absurd h (by decide)
  operator := by
    have hall : ∀ op ∈ operators, op.1.all (fun c => ¬ (c.toNat ≤ 32 ∨ 128 ≤ c.toNat)) = true := by
      decide +kernel
    exact fun op hop hb => List.all_iff_forall_prop.1 (hall op hop) b hb h

theorem not_letter_of_not_word (h : Text.isWord b = false) : ¬ Text.isLetter b = true := by
  intro hb
  rw [Text.isWord, hb] at h
  cases h

theorem not_digit_of_not_word (h : Text.isWord b = false) : ¬ Text.isDigit b = true := by
  intro hb
  rw [Text.isWord, hb, Bool.or_true] at h
  cases h

theorem Form.Reads.operator_of_mem (h : Form.Reads f m k) (hf : f ≠ .string) (hm : b ∈ m)
    (hword : Text.isWord b = false) (hpoint : b ≠ byte '.') : (m, k) ∈ operators := by
  cases h with
  | operator hop => exact hop
  | word hx hw =>
    rcases List.mem_cons.1 hm with rfl | hm
    · exact absurd hx (not_letter_of_not_word hword)
    · exact absurd (hw b hm) (Bool.eq_false_iff.1 hword)
  | whole _ hds => exact absurd (hds b hm) (not_digit_of_not_word hword)
  | fraction _ hds _ hes =>
    rcases List.mem_append.1 hm with hm | hm
    · exact absurd (hds b hm) (not_digit_of_not_word hword)
    · rcases List.mem_cons.1 hm with hm | hm
      · exact absurd hm hpoint
      · exact absurd (hes b hm) (not_digit_of_not_word hword)
  | string => exact absurd rfl hf

theorem Outside.not_mem (h : Outside b) (hread : Form.Reads f m k) (hf : f ≠ .string) : b ∉ m :=
  fun hm => h.operator _ (hread.operator_of_mem hf hm h.word h.point) hm

theorem Form.Reads.not_blank (h : Form.Reads f m k) (hf : f ≠ .string) (hb : b ∈ blanks) :
    b ∉ m := by
  have hall : ∀ b ∈ blanks, b.toNat ≤ 32 ∨ 128 ≤ b.toNat :=
    List.all_iff_forall_prop.1 (by decide)
  exact (outside_of_toNat (hall b hb)).not_mem h hf

theorem prefix_before {m x q : Text} (hm : b ∉ m) (h : m <+: x ++ b :: q) : m <+: x := by
  rcases List.prefix_or_prefix_of_prefix h (List.prefix_append x _) with hp | hp
  · exact hp
  · obtain ⟨u, rfl⟩ := hp
    cases u with
    | nil => exact ⟨[], by simp⟩
    | cons c u =>
      obtain ⟨rfl, -⟩ := List.cons_prefix_cons.1 ((List.prefix_append_right_inj x).1 h)
      exact absurd (List.mem_append_right x List.mem_cons_self) hm

theorem Form.Reads.string_longest (h : Form.Reads .string l k) : Form.Longest .string l rest := by
  intro m k' hm hread
  cases h with
  | @string body hbody =>
    cases hread with
    | @string body' hbody' =>
      rw [List.cons_append, List.cons_prefix_cons] at hm
      obtain ⟨-, u, hu⟩ := hm
      rw [List.append_assoc, List.append_assoc] at hu
      have hcut := congrArg (List.takeWhile (· ≠ byte '"')) hu
      have hquote (v : Text) : ∀ b ∈ (byte '"' :: v).head?, b = byte '"' := fun b hb => by
        simpa using hb.symm
      rw [List.singleton_append, List.singleton_append, takeWhile_upTo hbody' (hquote u),
        takeWhile_upTo hbody (hquote rest)] at hcut
      simp only [hcut, Nat.le_refl]

theorem Character.extend (h : Character (b :: w) rest) (hb : b ≠ Text.newline) (q : Text) :
    Character (b :: w) (rest ++ Text.newline :: q) := by
  generalize hl : b :: w = l at h
  cases h with
  | encoded => exact .encoded
  | invalid hno =>
    obtain ⟨rfl, -⟩ := List.cons.inj hl
    apply Character.invalid
    intro c hp
    rw [← Utf8.encode_eq] at hp
    by_cases hbreak : Text.newline ∈ Utf8.encode c
    · rw [Utf8.encode_of_ascii hbreak (by decide)] at hp
      exact hb (List.cons_prefix_cons.1 hp).1.symm
    · apply hno c
      rw [← Utf8.encode_eq]
      rw [← List.cons_append] at hp
      exact prefix_before hbreak hp

/-- A piece fits before a line break if it fits at the end of a text, unless it is a string that the
end cuts off. -/
theorem Fits.extend (h : Fits c l rest) (hno : c ≠ .unterminated) (q : Text) :
    Fits c l (rest ++ Text.newline :: q) := by
  have hbreak : Text.newline ∈ blanks := by decide
  cases h with
  | @lexeme f _ _ _ hread hlongest hslash =>
    apply Fits.lexeme hread
    · by_cases hf : f = .string
      · subst hf
        exact hread.string_longest
      · intro m k hm hreads
        rw [← List.append_assoc] at hm
        exact hlongest m k (prefix_before (hreads.not_blank hf hbreak) hm) hreads
    · intro hp
      rw [← List.append_assoc] at hp
      exact hslash (prefix_before (by decide) hp)
  | blank hb => exact .blank hb
  | comment hc hr =>
    apply Fits.comment hc
    intro b hb
    cases rest with
    | nil => exact (Option.some.inj hb).symm
    | cons x rest => exact hr b hb
  | unexpected hs hc => exact .unexpected hs (hc.extend (fun he => hs.1 (he ▸ hbreak)) q)
  | unterminated => exact absurd rfl hno

theorem lineAfter_later {before before' : Text}
    (h : before'.newlines = before.newlines + k) : lineAfter before' = lineAfter before + k := by
  unfold lineAfter
  omega

theorem Tiles.later (h : Tiles before t ts ds) (hk : before'.newlines = before.newlines + k) :
    Tiles before' t (ts.map (Token.later k)) (ds.map (Diagnostic.later k)) := by
  have hgap (g : Text) {b b' : Text} (hb : b'.newlines = b.newlines + k) :
      (b' ++ g).newlines = (b ++ g).newlines + k := by
    rw [newlines_append, newlines_append, hb]
    omega
  induction h generalizing before' with
  | finish =>
    rw [List.map_singleton, Token.later, ← lineAfter_later hk]
    exact .finish
  | lexeme hf _ ih =>
    rw [List.map_cons, Token.later, ← lineAfter_later (hgap _ hk)]
    exact .lexeme hf (ih (hgap _ hk))
  | blank hf _ ih => exact .blank hf (ih (hgap _ hk))
  | comment hf _ ih => exact .comment hf (ih (hgap _ hk))
  | unexpected hf _ ih =>
    rw [List.map_cons, Diagnostic.later, Diagnostic.atLine, ← lineAfter_later (hgap _ hk)]
    exact .unexpected hf (ih (hgap _ hk))
  | unterminated hf _ ih =>
    rw [List.map_cons, Diagnostic.later, Diagnostic.atLine, ← lineAfter_later (hgap _ hk)]
    exact .unterminated hf (ih (hgap _ hk))

theorem Tiles.ne_nil (h : Tiles before t ts ds) : ts ≠ [] := by
  intro he
  have hscan := h.scanned.1
  rw [he] at hscan
  exact absurd hscan.symm (List.append_ne_nil_of_right_ne_nil _ (List.cons_ne_nil _ _))

theorem Tiles.join (h : Tiles before p ts ds) (hds : ∀ d ∈ ds, ¬ d.Unterminated)
    (hq : Tiles (before ++ p) (Text.newline :: q) us es) :
    Tiles before (p ++ Text.newline :: q) (ts.dropLast ++ us) (ds ++ es) := by
  induction h with
  | finish =>
    rw [List.append_nil] at hq
    exact hq
  | lexeme hf ht ih =>
    rw [← List.append_assoc] at hq
    rw [List.dropLast_cons_of_ne_nil ht.ne_nil, List.append_assoc]
    exact .lexeme (hf.extend (by simp) q) (ih hds hq)
  | blank hf _ ih =>
    rw [← List.append_assoc] at hq
    rw [List.append_assoc]
    exact .blank (hf.extend (by simp) q) (ih hds hq)
  | comment hf _ ih =>
    rw [← List.append_assoc] at hq
    rw [List.append_assoc]
    exact .comment (hf.extend (by simp) q) (ih hds hq)
  | unexpected hf _ ih =>
    rw [← List.append_assoc] at hq
    rw [List.append_assoc]
    exact .unexpected (hf.extend (by simp) q) (ih (List.forall_mem_cons.1 hds).2 hq)
  | unterminated => exact absurd rfl (List.forall_mem_cons.1 hds).1

theorem tiles_joined (hp : ∀ d ∈ (ofText p).diagnostics, ¬ d.Unterminated) (q : Text) :
    Tiles [] (p ++ Text.newline :: q)
      ((ofText p).tokens.dropLast ++ (ofText q).tokens.map (Token.later (1 + p.newlines)))
      ((ofText p).diagnostics ++ (ofText q).diagnostics.map (Diagnostic.later (1 + p.newlines))) := by
  have hlines : (p ++ [Text.newline]).newlines = Text.newlines [] + (1 + p.newlines) := by
    rw [newlines_append]
    simp [Text.newlines]
    omega
  exact (tiles_ofText p).join hp (.blank (.blank (by decide)) ((tiles_ofText q).later hlines))

/-- Joining two texts by a line break joins their tokens and their faults, those of the second text
further down, unless the first text leaves a string open. -/
theorem ofText_append_newline (p q : Text) (hp : ∀ d ∈ (ofText p).diagnostics, ¬ d.Unterminated) :
    (ofText (p ++ Text.newline :: q)).tokens =
        (ofText p).tokens.dropLast ++ (ofText q).tokens.map (Token.later (1 + p.newlines)) ∧
      (ofText (p ++ Text.newline :: q)).diagnostics =
        (ofText p).diagnostics ++
          (ofText q).diagnostics.map (Diagnostic.later (1 + p.newlines)) := by
  obtain ⟨htokens, hfaults⟩ := (tiles_joined hp q).eq_ofText
  exact ⟨htokens.symm, hfaults.symm⟩

/-- The first text ends in a character that is cut off, the second in a string that is. -/
theorem ofText_append_newline_cut :
    (∀ d ∈ (ofText [byte '1', byte '.', 0xE2, 0x82]).diagnostics, ¬ d.Unterminated) ∧
      (ofText ([byte '1', byte '.', 0xE2, 0x82] ++ Text.newline :: "5\"")).diagnostics =
        (ofText [byte '1', byte '.', 0xE2, 0x82]).diagnostics ++
          (ofText "5\"").diagnostics.map
            (Diagnostic.later (1 + Text.newlines [byte '1', byte '.', 0xE2, 0x82])) :=
  have hp : ∀ d ∈ (ofText [byte '1', byte '.', 0xE2, 0x82]).diagnostics, ¬ d.Unterminated := by
    decide +kernel
  ⟨hp, (ofText_append_newline _ _ hp).2⟩

/-- The tokens of two texts without faults that are joined by a line break are those of the first
but for its end of input, and then those of the second further down. -/
theorem ofText_joined (hp : (ofText p).diagnostics = []) (hq : (ofText q).diagnostics = []) :
    (ofText (p ++ Text.newline :: q)).tokens =
        (ofText p).tokens.dropLast ++ (ofText q).tokens.map (Token.later (1 + p.newlines)) ∧
      (ofText (p ++ Text.newline :: q)).diagnostics = [] := by
  have hnone : ∀ d ∈ (ofText p).diagnostics, ¬ d.Unterminated := by simp [hp]
  obtain ⟨htokens, hfaults⟩ := (tiles_joined hnone q).eq_ofText
  rw [hp, hq] at hfaults
  exact ⟨htokens.symm, hfaults.symm⟩

end Scan

end LoxLang
