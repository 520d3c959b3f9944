import LoxLang.Prompt.Word
import LoxLang.Proofs.Scan.Spaced
import LoxLang.Proofs.Text.Symbols

namespace LoxLang

namespace Scan
set_option autoImplicit true

theorem outside_of_space {r : Utf8.Symbol} (hr : r ∈ Utf8.symbols t)
    (hs : Text.isSpaceSymbol r = true) (hb : b ∈ r.bytes) : Outside b := by
  apply outside_of_toNat
  by_cases hascii : b < 0x80
  · left
    have hlow : b.toNat < 128 := hascii
    rw [Utf8.symbol_of_ascii hr hb hascii] at hs
    have hnat : (Char.ofNat b.toNat).toNat = b.toNat := Utf8.toNat_ofNat (.inl (by omega))
    simp only [Text.isSpaceSymbol, isSpace, hnat, Bool.or_eq_true, Bool.and_eq_true,
      decide_eq_true_eq, beq_iff_eq] at hs
    omega
  · exact .inr (Nat.le_of_not_lt hascii)

theorem Outside.form? (h : Outside b) : form? b = none := by
  have hno : operators.any (·.1.head? == some b) = false := by
    rw [List.any_eq_false]
    intro op hop he
    exact h.operator op hop (List.mem_of_mem_head? (eq_of_beq he))
  rw [Scan.form?, hno, if_neg Bool.false_ne_true, if_neg (not_letter_of_not_word h.word),
    if_neg (not_digit_of_not_word h.word), if_neg h.quote]

/-- A text is tiled without faults. It shows its lexemes, as the tokens they make wherever they
stand, and among them its comments, for which there is `none`. -/
inductive Shows : Text → List (Option Token) → Prop where
  | nil : Shows [] []
  | lexeme : Fits (.token k) l rest → Shows rest ss →
      Shows (l ++ rest) (some ⟨k, l, literal? k l, 0⟩ :: ss)
  | blank : Fits .blank g rest → Shows rest ss → Shows (g ++ rest) ss
  | comment : Fits .comment g rest → Shows rest ss → Shows (g ++ rest) (none :: ss)

theorem Tiles.shows (h : Tiles before t ts []) : ∃ ss, Shows t ss ∧
    ts.map Token.anywhere = ss.filterMap id ++ [.synthetic .eof []] := by
  generalize hds : ([] : List Diagnostic) = ds at h
  induction h with
  | finish => exact ⟨[], .nil, rfl⟩
  | lexeme hf _ ih =>
    obtain ⟨ss, hs, hts⟩ := ih hds
    refine ⟨_, .lexeme hf hs, ?_⟩
    rw [List.map_cons, hts]
    rfl
  | blank hf _ ih =>
    obtain ⟨ss, hs, hts⟩ := ih hds
    exact ⟨ss, .blank hf hs, hts⟩
  | comment hf _ ih =>
    obtain ⟨ss, hs, hts⟩ := ih hds
    exact ⟨none :: ss, .comment hf hs, hts⟩
  | unexpected | unterminated => cases hds

theorem Shows.tiles (h : Shows t ss) (before : Text) : ∃ ts, Tiles before t ts [] ∧
    ts.map Token.anywhere = ss.filterMap id ++ [.synthetic .eof []] := by
  induction h generalizing before with
  | nil => exact ⟨_, .finish, rfl⟩
  | @lexeme _ l _ _ hf _ ih =>
    obtain ⟨ts, ht, hts⟩ := ih (before ++ l)
    refine ⟨_, .lexeme hf ht, ?_⟩
    rw [List.map_cons, hts]
    rfl
  | @blank g _ _ hf _ ih =>
    obtain ⟨ts, ht, hts⟩ := ih (before ++ g)
    exact ⟨ts, .blank hf ht, hts⟩
  | @comment g _ _ hf _ ih =>
    obtain ⟨ts, ht, hts⟩ := ih (before ++ g)
    exact ⟨ts, .comment hf ht, hts⟩

theorem Shows.ofText (h : Shows t ss) : (ofText t).diagnostics = [] ∧
    (ofText t).tokens.map Token.anywhere = ss.filterMap id ++ [.synthetic .eof []] := by
  obtain ⟨ts, ht, hts⟩ := h.tiles []
  obtain ⟨rfl, hds⟩ := ht.eq_ofText
  exact ⟨hds.symm, hts⟩

theorem exists_shows (h : (ofText t).diagnostics = []) : ∃ ss, Shows t ss := by
  obtain ⟨ss, hs, -⟩ := (h ▸ tiles_ofText t : Tiles [] t _ []).shows
  exact ⟨ss, hs⟩

/-- The last of the pieces of a text but for blanks is a comment. -/
def EndsInComment (t : Text) : Prop :=
  (((pieces t).map Piece.cls).filter (· ≠ .blank)).getLast? = some .comment

instance (t : Text) : Decidable (EndsInComment t) := inferInstanceAs (Decidable (_ = _))

theorem Shows.classes (h : Shows t ss) : ((pieces t).map Piece.cls).filter (· ≠ .blank) =
    ss.map fun s => s.elim Class.comment (Class.token ·.kind) := by
  induction h with
  | nil => simp [pieces]
  | lexeme hf _ ih => simp [hf.pieces, ← ih]
  | blank hf _ ih => simp [hf.pieces, ← ih]
  | comment hf _ ih => simp [hf.pieces, ← ih]

theorem Shows.endsInComment_iff (h : Shows t ss) : EndsInComment t ↔ ss.getLast? = some none := by
  rw [EndsInComment, h.classes, List.getLast?_map]
  cases ss.getLast? with
  | none => simp
  | some s => cases s <;> simp

theorem Shows.outside (h : Shows t ss) (hout : ∀ b ∈ t, Outside b) : ss = [] := by
  induction h with
  | nil => rfl
  | lexeme hf =>
    cases hf with
    | lexeme hread =>
      obtain ⟨b, w, rfl, hform⟩ := hread.first
      rw [(hout b (by simp)).form?] at hform
      cases hform
  | blank _ _ ih => exact ih fun b hb => hout b (List.mem_append_right _ hb)
  | comment hf =>
    cases hf with
    | comment =>
      have hslash := (hout (byte '/') (by simp)).form?
      exact absurd hslash (by decide +kernel)

theorem Shows.drop (h : Shows (before ++ t) ss) (hout : ∀ b ∈ before, Outside b) :
    Shows t ss := by
  induction before with
  | nil => exact h
  | cons b before ih =>
    obtain ⟨hb, hbefore⟩ := List.forall_mem_cons.1 hout
    generalize hwhole : b :: before ++ t = whole at h
    cases h with
    | nil => cases hwhole
    | lexeme hf =>
      cases hf with
      | lexeme hread =>
        obtain ⟨c, w, rfl, hform⟩ := hread.first
        obtain rfl : b = c := (List.cons.inj hwhole).1
        rw [hb.form?] at hform
        cases hform
    | blank hf hrest =>
      cases hf with
      | blank =>
        obtain rfl := (List.cons.inj hwhole).2
        exact ih hrest hbefore
    | comment hf =>
      cases hf with
      | comment =>
        obtain rfl := (List.cons.inj hwhole).1
        exact absurd hb.form? (by decide +kernel)

/-- A piece without a fault fits before less than what it stands before. -/
theorem Fits.shorten (h : Fits c l (rest ++ after)) (hc : c ≠ .unexpected) : Fits c l rest := by
  have hle : ∀ m, m <+: l ++ rest → m <+: l ++ (rest ++ after) := by
    intro m hm
    rw [← List.append_assoc]
    exact hm.trans (List.prefix_append _ _)
  generalize hr : rest ++ after = r at h
  cases h with
  | lexeme hread hlongest hslash =>
    subst hr
    exact .lexeme hread (fun m k hm => hlongest m k (hle m hm)) fun hp => hslash (hle _ hp)
  | blank hb => exact .blank hb
  | comment hbody hrest =>
    subst hr
    exact .comment hbody fun b hb => hrest b (by rw [List.head?_append, hb]; rfl)
  | unexpected => exact absurd rfl hc
  | unterminated hbody =>
    obtain ⟨rfl, -⟩ := List.append_eq_nil_iff.1 hr
    exact .unterminated hbody

theorem Form.Reads.ends_inside (h : Form.Reads f (core ++ part) k) (hout : ∀ b ∈ part, Outside b) :
    part = [] := by
  by_contra hne
  by_cases hf : f = .string
  · subst hf
    have hlast : (core ++ part).getLast? = some (byte '"') := by
      generalize core ++ part = l at h
      cases h with
      | string => rw [← List.cons_append, List.getLast?_concat]
    rw [List.getLast?_append_of_ne_nil _ hne] at hlast
    exact (hout _ (List.mem_of_getLast? hlast)).quote rfl
  · obtain ⟨b, part, rfl⟩ := List.exists_cons_of_ne_nil hne
    exact (hout b List.mem_cons_self).not_mem h hf (List.mem_append_right _ List.mem_cons_self)

/-- What comes last but no lexeme can have is not shown, and is cut off from a comment. -/
theorem Shows.take (h : Shows (core ++ after) ss) (hout : ∀ b ∈ after, Outside b) :
    Shows core ss := by
  generalize hwhole : core ++ after = whole at h
  induction h generalizing core with
  | nil =>
    obtain ⟨rfl, -⟩ := List.append_eq_nil_iff.1 hwhole
    exact .nil
  | lexeme hf hrest ih =>
    rcases List.append_eq_append_iff.1 hwhole with ⟨part, rfl, rfl⟩ | ⟨part, rfl, rfl⟩
    · obtain ⟨hpart, hafter⟩ := List.forall_mem_append.1 hout
      obtain rfl := hrest.outside hafter
      have hfits : Fits _ (core ++ part) [] := hf.shorten nofun
      cases hf with
      | lexeme hread =>
        obtain rfl := hread.ends_inside hpart
        rw [List.append_nil] at hfits ⊢
        have hshows := Shows.lexeme hfits .nil
        rwa [List.append_nil] at hshows
    · exact .lexeme (hf.shorten nofun) (ih rfl)
  | blank hf hrest ih =>
    rcases List.append_eq_append_iff.1 hwhole with ⟨part, hg, rfl⟩ | ⟨part, rfl, rfl⟩
    · obtain ⟨hpart, hafter⟩ := List.forall_mem_append.1 hout
      obtain rfl := hrest.outside hafter
      cases hf with
      | blank hb =>
        cases core with
        | nil => exact .nil
        | cons c core =>
          obtain ⟨rfl, hnil⟩ := List.cons.inj hg
          obtain ⟨rfl, -⟩ := List.append_eq_nil_iff.1 hnil.symm
          exact .blank (.blank hb) .nil
    · exact .blank (hf.shorten nofun) (ih rfl)
  | comment hf hrest ih =>
    rcases List.append_eq_append_iff.1 hwhole with ⟨part, hg, rfl⟩ | ⟨part, rfl, rfl⟩
    · obtain ⟨hpart, hafter⟩ := List.forall_mem_append.1 hout
      obtain rfl := hrest.outside hafter
      have hslash : byte '/' ∉ part := by
        intro hm
        exact absurd (hpart _ hm).form? (by decide +kernel)
      cases hf with
      | comment hbody =>
        match core with
        | [] =>
          have hall : byte '/' :: _ = part := hg
          exact absurd (hall ▸ List.mem_cons_self) hslash
        | [_] =>
          have htail : byte '/' :: _ = part := (List.cons.inj hg).2
          exact absurd (htail ▸ List.mem_cons_self) hslash
        | _ :: _ :: c =>
          simp only [List.cons_append, List.cons.injEq] at hg
          obtain ⟨rfl, rfl, rfl⟩ := hg
          have hfits : Fits .comment (byte '/' :: byte '/' :: c) [] :=
            .comment (fun b hb => hbody b (List.mem_append_left _ hb)) nofun
          have hshows := Shows.comment hfits .nil
          rwa [List.append_nil] at hshows
    · exact .comment (hf.shorten nofun) (ih rfl)

theorem Shows.trim (h : Shows t ss) : Shows t.trim ss := by
  obtain ⟨before, after, ht, -, hblanks⟩ := t.trim_cut
  have hout : ∀ b ∈ before ++ after, Outside b := by
    intro b hb
    obtain ⟨r, hr, hspace, hmem⟩ := hblanks b hb
    exact outside_of_space hr hspace hmem
  obtain ⟨hbefore, hafter⟩ := List.forall_mem_append.1 hout
  rw [ht, List.append_assoc] at h
  exact (h.drop hbefore).take hafter

def semicolon : Token := .synthetic .semicolon [byte ';']

/-- What a text shows once a semicolon stands at its end: it as well, unless a comment takes it. -/
def closed (ss : List (Option Token)) : List (Option Token) :=
  if ss.getLast? = some none then ss else ss ++ [some semicolon]

theorem Shows.nil_blank (h : Shows t []) : ∀ b ∈ t, b ∈ blanks := by
  generalize hss : ([] : List (Option Token)) = ss at h
  induction h with
  | nil => exact nofun
  | lexeme | comment => cases hss
  | blank hf _ ih =>
    cases hf with
    | blank hb => exact List.forall_mem_cons.2 ⟨hb, ih hss⟩

theorem Shows.ne_nil (h : Shows t ss) (hlast : t.getLast? = some b) (hb : b ∉ blanks) :
    ss ≠ [] := by
  rintro rfl
  exact hb (h.nil_blank b (List.mem_of_getLast? hlast))

theorem Fits.close (h : Fits (.token k) l rest) : Fits (.token k) l (rest ++ [byte ';']) := by
  cases h with
  | @lexeme f _ _ _ hread hlongest hslash =>
    apply Fits.lexeme hread
    · by_cases hf : f = .string
      · subst hf
        exact hread.string_longest
      · intro m k' hm hreads
        by_cases hin : byte ';' ∈ m
        · have hone : ∀ op ∈ operators, byte ';' ∈ op.1 → op.1.length = 1 := by decide +kernel
          rw [hone _ (hreads.operator_of_mem hf hin (by decide) (by decide)) hin]
          obtain ⟨b, w, rfl, -⟩ := hread.first
          exact Nat.succ_le_succ (Nat.zero_le _)
        · rw [← List.append_assoc] at hm
          exact hlongest m k' (prefix_before hin hm) hreads
    · intro hp
      rw [← List.append_assoc] at hp
      exact hslash (prefix_before (by decide) hp)

theorem closed_cons (s : Option Token) (ss : List (Option Token)) (h : s = none → ss ≠ []) :
    closed (s :: ss) = s :: closed ss := by
  have hlast : (s :: ss).getLast? = some none ↔ ss.getLast? = some none := by
    cases ss with
    | nil => simpa using h
    | cons s' ss => rw [List.getLast?_cons_cons]
  unfold closed
  by_cases hnone : ss.getLast? = some none
  · rw [if_pos hnone, if_pos (hlast.2 hnone)]
  · rw [if_neg hnone, if_neg fun hs => hnone (hlast.1 hs), List.cons_append]

/-- A semicolon after a text that no blank ends is shown, unless a comment ends the text. -/
theorem Shows.close (h : Shows t ss) (hlast : ∀ b ∈ t.getLast?, b ∉ blanks) :
    Shows (t ++ [byte ';']) (closed ss) := by
  have hrest {g rest : Text} (hlast : ∀ b ∈ (g ++ rest).getLast?, b ∉ blanks) :
      ∀ b ∈ rest.getLast?, b ∉ blanks := by
    intro b hb
    exact hlast b (by rw [List.getLast?_append, hb]; rfl)
  induction h with
  | nil =>
    have hfits : Fits (.token .semicolon) [byte ';'] [] := by
      have hread : Form.Reads .operator [byte ';'] .semicolon := .operator (by decide)
      exact hread.fits (by simp)
    exact .lexeme hfits .nil
  | lexeme hf _ ih =>
    rw [closed_cons (some _) _ (fun h => nomatch h), List.append_assoc]
    exact .lexeme hf.close (ih (hrest hlast))
  | blank hf _ ih =>
    cases hf with
    | blank hb =>
      rw [List.append_assoc]
      exact .blank (.blank hb) (ih (hrest hlast))
  | @comment g rest ss hf hs ih =>
    cases hf with
    | @comment c _ hbody hbreak =>
      cases rest with
      | nil =>
        -- The semicolon falls to the comment.
        obtain rfl := hs.outside nofun
        have hfits : Fits .comment (byte '/' :: byte '/' :: (c ++ [byte ';'])) [] := by
          refine .comment ?_ nofun
          rw [List.forall_mem_append, List.forall_mem_singleton]
          exact ⟨hbody, by decide⟩
        have hshows := Shows.comment hfits .nil
        rw [List.append_nil] at hshows ⊢
        exact hshows
      | cons b rest =>
        have hend := List.getLast?_eq_some_getLast (List.cons_ne_nil b rest)
        have hne := hs.ne_nil hend (hrest hlast _ hend)
        rw [closed_cons _ _ fun _ => hne, List.append_assoc]
        exact .comment (.comment hbody hbreak) (ih (hrest hlast))

def ends : Text := [byte ';', byte '}']

def endKinds : List Token.Kind := [.semicolon, .rightBrace]

/-- Only the tokens that end a statement or block are written with those bytes at their end. -/
theorem Form.Reads.ends_iff (h : Form.Reads f l k) (hlast : l.getLast? = some b) :
    b ∈ ends ↔ k ∈ endKinds := by
  by_cases hop : (l, k) ∈ operators
  · have hall : ∀ op ∈ operators,
        op.1.getLast?.all (fun b => b ∈ ends ↔ op.2 ∈ endKinds) = true := by decide +kernel
    exact of_decide_eq_true ((Option.all_eq_true _ _).1 (hall _ hop) b hlast)
  refine iff_of_false (fun hb => ?_) fun hk => ?_
  · have hplain : ∀ b ∈ ends, Text.isWord b = false ∧ b ≠ byte '.' ∧ b ≠ byte '"' :=
      List.all_iff_forall_prop.1 (by decide +kernel)
    obtain ⟨hword, hpoint, hquote⟩ := hplain b hb
    by_cases hf : f = .string
    · subst hf
      cases h with
      | string =>
        rw [← List.cons_append, List.getLast?_concat] at hlast
        exact hquote (Option.some.inj hlast).symm
    · exact hop (h.operator_of_mem hf (List.mem_of_getLast? hlast) hword hpoint)
  · cases h with
    | operator h => exact hop h
    | word =>
      have hkeywords : ∀ word ∈ Token.Kind.keywords, word.2 ∉ endKinds := by decide +kernel
      have hne : ∀ k ∈ endKinds, k ≠ .identifier := by decide
      exact hkeywords _ (Token.Kind.mem_keywords_of_ofWord rfl (hne _ hk)) hk
    | whole | fraction | string => exact absurd hk (by decide)

/-- The last byte of a text that no blank ends tells whether its last token ends a statement or
block, if no comment comes after that. -/
theorem Shows.ends_iff (h : Shows t ss) (hlast : t.getLast? = some b) (hb : b ∉ blanks)
    (hu : ss.getLast? = some (some u)) : b ∈ ends ↔ u.kind ∈ endKinds := by
  -- What comes after a lexeme or comment shows what is shown last.
  have hmore {g rest : Text} {s : Option Token} {ss : List (Option Token)} (hs : Shows rest ss)
      (hne : rest ≠ []) (hlast : (g ++ rest).getLast? = some b)
      (hu : (s :: ss).getLast? = some (some u)) :
      rest.getLast? = some b ∧ ss.getLast? = some (some u) := by
    rw [List.getLast?_append_of_ne_nil _ hne] at hlast
    rw [List.getLast?_cons_of_ne_nil (hs.ne_nil hlast hb)] at hu
    exact ⟨hlast, hu⟩
  induction h with
  | nil => cases hlast
  | @lexeme _ _ rest _ hf hs ih =>
    by_cases hne : rest = []
    · subst hne
      obtain rfl := hs.outside nofun
      obtain rfl := Option.some.inj (Option.some.inj hu)
      rw [List.append_nil] at hlast
      cases hf with
      | lexeme hread => exact hread.ends_iff hlast
    · obtain ⟨hlast, hu⟩ := hmore hs hne hlast hu
      exact ih hlast hu
  | @blank _ rest _ hf _ ih =>
    by_cases hne : rest = []
    · subst hne
      cases hf with
      | blank hblank =>
        obtain rfl := Option.some.inj hlast
        exact absurd hblank hb
    · rw [List.getLast?_append_of_ne_nil _ hne] at hlast
      exact ih hlast hu
  | @comment _ rest _ _ hs ih =>
    by_cases hne : rest = []
    · subst hne
      obtain rfl := hs.outside nofun
      cases hu
    · obtain ⟨hlast, hu⟩ := hmore hs hne hlast hu
      exact ih hlast hu

theorem trim_last_not_blank (hlast : (Text.trim t).getLast? = some b) : b ∉ blanks := by
  intro hb
  have hall : ∀ b ∈ blanks, b < 0x80 ∧
      Text.isSpaceSymbol ⟨some (Char.ofNat b.toNat), [b]⟩ = true :=
    List.all_iff_forall_prop.1 (by decide +kernel)
  obtain ⟨-, -, -, hbare⟩ := Text.trim_part t
  exact hbare.getLast?_ne_ascii (hall b hb).1 (hall b hb).2 hlast

theorem terminated_eq (hlast : t.trim.getLast? = some b) :
    Prompt.terminated t = if b ∈ ends then t.trim else t.trim ++ [byte ';'] := by
  simp only [Prompt.terminated, hlast, ends, List.mem_cons, List.not_mem_nil, or_false,
    Bool.or_eq_true, beq_iff_eq]

theorem Shows.terminated (h : Shows t ss) (hlast : t.trim.getLast? = some b) :
    Shows (Prompt.terminated t) (if b ∈ ends then ss else closed ss) := by
  rw [terminated_eq hlast]
  split
  · exact h.trim
  · apply h.trim.close
    rw [hlast]
    rintro _ ⟨⟩
    exact trim_last_not_blank hlast

/-- A line without faults of which this is the last token is given the semicolon that it lacks: its
tokens are the same, with a semicolon after the last if that does not end a statement or block, and
unless a comment ends the line, which takes the semicolon then. -/
theorem ofText_terminated (h : (ofText t).diagnostics = [])
    (hlast : (ofText t).tokens.dropLast.getLast? = some last) :
    (ofText (Prompt.terminated t)).diagnostics = [] ∧
      (ofText (Prompt.terminated t)).tokens.map Token.anywhere =
        if EndsInComment t ∨ last.kind ∈ endKinds then (ofText t).tokens.map Token.anywhere
        else (ofText t).tokens.dropLast.map Token.anywhere ++ [semicolon, .synthetic .eof []] := by
  obtain ⟨ss, hs⟩ := exists_shows h
  have htokens := hs.ofText.2
  have hbody : (ofText t).tokens.dropLast.map Token.anywhere = ss.filterMap id := by
    rw [List.map_dropLast, htokens, List.dropLast_concat]
  have hshown : (ss.filterMap id).getLast? = some last.anywhere := by
    rw [← hbody, List.getLast?_map, hlast]
    rfl
  have hne : ss ≠ [] := by
    rintro rfl
    cases hshown
  obtain ⟨b, hb⟩ : ∃ b, t.trim.getLast? = some b := by
    cases hb : t.trim.getLast? with
    | some b => exact ⟨b, rfl⟩
    | none =>
      have htrim := hs.trim
      rw [List.getLast?_eq_none_iff.1 hb] at htrim
      exact absurd (htrim.outside nofun) hne
  obtain ⟨hnone, hall⟩ := (hs.terminated hb).ofText
  refine ⟨hnone, ?_⟩
  rw [hall, hbody, htokens]
  obtain ⟨before, s, rfl⟩ := ss.eq_nil_or_concat.resolve_left hne
  rw [List.concat_eq_append] at *
  cases s with
  | none =>
    have hcomment : (before ++ [none]).getLast? = some (none : Option Token) :=
      List.getLast?_concat
    have hclosed : closed (before ++ [none]) = before ++ [none] := if_pos hcomment
    rw [hclosed, ite_self, if_pos (.inl (hs.endsInComment_iff.2 hcomment))]
  | some u =>
    have hu : (before ++ [some u]).getLast? = some (some u) := List.getLast?_concat
    have hplain : ¬ (before ++ [some u]).getLast? = some none := by
      rw [hu]
      exact nofun
    obtain rfl : u = last.anywhere := by
      rw [List.filterMap_append] at hshown
      exact Option.some.inj (List.getLast?_concat.symm.trans hshown)
    have hends : b ∈ ends ↔ last.kind ∈ endKinds :=
      hs.trim.ends_iff (u := last.anywhere) hb (trim_last_not_blank hb) hu
    have hclosed : closed (before ++ [some last.anywhere]) =
        before ++ [some last.anywhere] ++ [some semicolon] := if_neg hplain
    rw [hclosed]
    by_cases hk : last.kind ∈ endKinds
    · rw [if_pos (hends.2 hk), if_pos (.inr hk)]
    · rw [if_neg fun hb => hk (hends.1 hb), if_neg fun hor =>
        hor.elim (fun hc => hplain (hs.endsInComment_iff.1 hc)) hk, List.filterMap_append,
        List.append_assoc]
      rfl

/-- A comment that ends in a semicolon stands before the last token, and a blank after it. -/
theorem ofText_terminated_blanks :
    (ofText "a // ;\n.b\t").diagnostics = [] ∧
      (ofText (Prompt.terminated "a // ;\n.b\t")).tokens.map Token.anywhere =
        (ofText "a.b;").tokens.map Token.anywhere := by
  have h : (ofText "a // ;\n.b\t").diagnostics = [] := by decide +kernel
  have hlast : (ofText "a // ;\n.b\t").tokens.dropLast.getLast? =
      some ⟨.identifier, "b", none, 2⟩ := by decide +kernel
  have hplain : ¬ (EndsInComment "a // ;\n.b\t" ∨ Token.Kind.identifier ∈ endKinds) := by
    decide +kernel
  refine ⟨h, (ofText_terminated h hlast).2.trans ?_⟩
  rw [if_neg hplain]
  decide +kernel

/-- The semicolon falls to the comment. -/
theorem ofText_terminated_comment :
    (ofText "a // b").diagnostics = [] ∧
      (ofText "a // b").tokens.dropLast = [⟨.identifier, "a", none, 1⟩] ∧
      (ofText (Prompt.terminated "a // b")).tokens.map Token.anywhere ≠
        (ofText "a // b").tokens.dropLast.map Token.anywhere ++
          [semicolon, .synthetic .eof []] := by
  decide +kernel

end Scan

end LoxLang
