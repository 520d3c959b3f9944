import LoxLang.Proofs.Number.Nearest
import LoxLang.Proofs.Scan.Joined
import LoxLang.Proofs.Tree.Written
import LoxLang.Tree.Print

namespace LoxLang

namespace Scan
set_option autoImplicit true

theorem Form.Reads.not_comment (h : Form.Reads f l k) : ¬ [byte '/', byte '/'] <+: l := by
  intro hp
  obtain ⟨b, w, rfl, hf⟩ := h.first
  obtain ⟨rfl, -⟩ := List.cons_prefix_cons.1 hp
  obtain rfl : Form.operator = f := Option.some.inj (hf.symm.trans (by decide +kernel)).symm
  generalize hl : byte '/' :: w = l at h hp
  cases h with
  | operator hop =>
    have hall : ∀ op ∈ operators, ¬ [byte '/', byte '/'] <+: op.1 := by decide +kernel
    exact hall _ hop hp

theorem Form.Reads.fits (h : Form.Reads f l k) (hr : ∀ b ∈ rest.head?, b ∈ blanks) :
    Fits (.token k) l rest := by
  cases rest with
  | nil =>
    apply Fits.lexeme h
    · intro m k' hm _
      rw [List.append_nil] at hm
      exact hm.length_le
    · rw [List.append_nil]
      exact h.not_comment
  | cons b q =>
    have hb : b ∈ blanks := hr b rfl
    apply Fits.lexeme h
    · by_cases hf : f = .string
      · subst hf
        exact h.string_longest
      · intro m k' hm hread
        exact (prefix_before (hread.not_blank hf hb) hm).length_le
    · intro hp
      have hslash : b ∉ [byte '/', byte '/'] := by
        have hall : ∀ b ∈ blanks, b ∉ [byte '/', byte '/'] :=
          List.all_iff_forall_prop.1 (by decide +kernel)
        exact hall b hb
      exact h.not_comment (prefix_before hslash hp)

theorem Form.Reads.ofText (h : Form.Reads f l k) :
    (Scan.ofText l).tokens =
        [⟨k, l, literal? k l, lineAfter l⟩, ⟨.eof, [], none, lineAfter l⟩] ∧
      (Scan.ofText l).diagnostics = [] := by
  have hfits : Fits (.token k) l [] := h.fits fun b hb => by cases hb
  have htiles : Tiles [] (l ++ []) _ _ := .lexeme hfits .finish
  rw [List.append_nil, List.nil_append] at htiles
  obtain ⟨htokens, hdiagnostics⟩ := htiles.eq_ofText
  exact ⟨htokens.symm, hdiagnostics.symm⟩

theorem Tiles.written (h : Tiles before t ts ds) : ∀ u ∈ ts, u.kind ≠ .eof → u.Scanned := by
  induction h with
  | finish =>
    intro u hu hk
    rw [List.mem_singleton.1 hu] at hk
    exact absurd rfl hk
  | lexeme h _ ih =>
    rw [List.forall_mem_cons]
    refine ⟨fun _ => ?_, ih⟩
    cases h with
    | lexeme hread => exact ⟨⟨_, hread⟩, rfl⟩
  | blank _ _ ih | comment _ _ ih | unexpected _ _ ih | unterminated _ _ ih => exact ih

theorem ofText_scanned (t : Text) :
    ∀ u ∈ (ofText t).tokens, u.kind ≠ .eof → u.Scanned := (tiles_ofText t).written

/-- The text of these tokens with a blank between each two. -/
def spaced (ts : List Token) : Text := Text.join [byte ' '] (ts.map Token.lexeme)

theorem spaced_cons (u v : Token) (ts : List Token) :
    spaced (u :: v :: ts) = u.lexeme ++ byte ' ' :: spaced (v :: ts) := by
  simp only [spaced, Text.join, List.map_cons, List.intersperse_cons_cons, List.flatten_cons]
  rfl

/-- Tokens that were scanned are found again, wherever their text begins, and nothing else. -/
theorem tiles_spaced (ts : List Token) (hts : ∀ u ∈ ts, u.Scanned) (before : Text) :
    ∃ us, Tiles before (spaced ts) us [] ∧
      us.map Token.anywhere = ts.map Token.anywhere ++ [.synthetic .eof []] := by
  induction ts generalizing before with
  | nil => exact ⟨_, .finish, rfl⟩
  | cons u ts ih =>
    obtain ⟨⟨⟨f, hread⟩, hliteral⟩, hrest⟩ := List.forall_mem_cons.1 hts
    have hsame (line : Int) :
        Token.anywhere ⟨u.kind, u.lexeme, literal? u.kind u.lexeme, line⟩ = u.anywhere := by
      rw [← hliteral]
      rfl
    cases ts with
    | nil =>
      have hlast : spaced [u] = u.lexeme ++ [] := rfl
      rw [hlast]
      refine ⟨_, .lexeme (hread.fits (by simp)) .finish, ?_⟩
      rw [List.map_cons, hsame]
      rfl
    | cons v ts =>
      obtain ⟨us, htiles, hus⟩ := ih hrest ((before ++ u.lexeme) ++ [byte ' '])
      rw [spaced_cons]
      have hblank : byte ' ' ∈ blanks := by decide
      refine ⟨_, .lexeme (hread.fits (by simpa using hblank)) (.blank (.blank hblank) htiles), ?_⟩
      rw [List.map_cons, hsame, hus]
      rfl

/-- Scanning what the tokens of a text are written as finds the same tokens, and no fault. -/
theorem ofText_spaced (t : Text) :
    (ofText (spaced (ofText t).tokens.dropLast)).tokens.map Token.anywhere =
        (ofText t).tokens.map Token.anywhere ∧
      (ofText (spaced (ofText t).tokens.dropLast)).diagnostics = [] := by
  obtain ⟨body, eof, htokens, heof, hbody⟩ := ofText_tokens t
  have hscanned : ∀ u ∈ body, u.Scanned := by
    intro u hu
    apply ofText_scanned t u
    · exact htokens ▸ List.mem_append_left _ hu
    · exact (hbody u hu).1
  have hend : eof.anywhere = .synthetic .eof [] := by
    have hlast := (scanned_ofText t).1
    rw [htokens] at hlast
    rw [(List.cons.inj (List.append_inj' hlast rfl).2).1]
    rfl
  rw [htokens, List.dropLast_concat]
  obtain ⟨us, htiles, hus⟩ := tiles_spaced body hscanned []
  obtain ⟨rfl, hnone⟩ := htiles.eq_ofText
  rw [hus, List.map_append, List.map_singleton, hend]
  exact ⟨rfl, hnone.symm⟩

theorem reads_positional (d : Decimal) : Form.Reads .number d.positional .number := by
  obtain ⟨ds, hne, hds, heq | ⟨es, hne', hes, heq⟩⟩ := d.positional_digits
  · rw [heq]
    exact .whole hne hds
  · rw [heq]
    exact .fraction hne hds hne' hes

theorem lineAfter_positional (d : Decimal) : lineAfter d.positional = 1 := by
  have hnone : d.positional.newlines = 0 := by
    refine List.count_eq_zero.2 fun hmem => ?_
    rcases d.positional_numeral.all _ hmem with hdigit | hpoint
    · exact absurd hdigit (by decide)
    · exact absurd hpoint (by decide)
  rw [lineAfter, hnone]
  rfl

/-- What is printed for a finite number without a sign is the same wherever it is printed, and it is
scanned as one number, which is the number itself. A zero whose sign bit is set has a sign, and is
written with it. -/
theorem ofText_printed (hsign : Double.isNegative x = false)
    (h : Double.magnitude x = .finite m q) : ∃ t,
    (Value.number x).text? = some t ∧ Literal.text (some (.number x)) = t ∧
      (∀ kind lexeme line, Token.literalText ⟨kind, lexeme, some (.number x), line⟩ = t) ∧
      (ofText t).tokens = [⟨.number, t, some (.number x), 1⟩, ⟨.eof, [], none, 1⟩] ∧
      (ofText t).diagnostics = [] := by
  have hplain : Layout.plain.write x = (Decimal.shortest m q).positional :=
    Layout.write_positional (fun _ => rfl) hsign h
  have hliteral : Layout.literal.write x = (Decimal.shortest m q).positional :=
    Layout.write_positional (fun _ => rfl) hsign h
  have hread : Double.ofPositional (Decimal.shortest m q).positional = x :=
    Decimal.ofPositional_shortest (Double.unsigned_of_finite hsign h) h
  obtain ⟨htokens, hdiagnostics⟩ := (reads_positional (Decimal.shortest m q)).ofText
  refine ⟨(Decimal.shortest m q).positional, congrArg some hplain, hliteral,
    fun _ _ _ => hliteral, ?_, hdiagnostics⟩
  rw [htokens, lineAfter_positional]
  change [(⟨_, _, some (.number (Double.ofPositional _)), _⟩ : Token), _] = _
  rw [hread]

/-- The least double there is, whose digits begin 324 places after the point. -/
theorem ofText_printed_least : ∃ t,
    (Value.number (Float.ofBits 1)).text? = some t ∧
      Literal.text (some (.number (Float.ofBits 1))) = t ∧
      (∀ kind lexeme line,
        Token.literalText ⟨kind, lexeme, some (.number (Float.ofBits 1)), line⟩ = t) ∧
      (ofText t).tokens =
        [⟨.number, t, some (.number (Float.ofBits 1)), 1⟩, ⟨.eof, [], none, 1⟩] ∧
      (ofText t).diagnostics = [] :=
  ofText_printed (m := 1) (q := -1074) (by decide +kernel) (by decide +kernel)

end Scan

end LoxLang
