import LoxLang.Proofs.Scan.Words
import LoxLang.Proofs.Text.Utf8
import Mathlib.Data.Bool.AllAny
import Mathlib.Data.List.Basic

namespace LoxLang

namespace Scan
set_option autoImplicit true

inductive Form where
  | operator | word | number | string
  deriving DecidableEq

def operators : List (Text × Token.Kind) :=
  [([byte '('], .leftParen), ([byte ')'], .rightParen), ([byte '{'], .leftBrace),
    ([byte '}'], .rightBrace), ([byte ','], .comma), ([byte '.'], .dot), ([byte '-'], .minus),
    ([byte '+'], .plus), ([byte ';'], .semicolon), ([byte '/'], .slash), ([byte '*'], .star),
    ([byte '!'], .bang), ([byte '!', byte '='], .bangEqual),
    ([byte '='], .equal), ([byte '=', byte '='], .equalEqual),
    ([byte '>'], .greater), ([byte '>', byte '='], .greaterEqual),
    ([byte '<'], .less), ([byte '<', byte '='], .lessEqual)]

/-- The text is a lexeme of this form and makes a token of this kind. -/
inductive Form.Reads : Form → Text → Token.Kind → Prop where
  | operator : (l, k) ∈ operators → Reads .operator l k
  | word : Text.isLetter b → (∀ c ∈ w, Text.isWord c) →
      Reads .word (b :: w) (Token.Kind.ofWord (b :: w))
  | whole : ds ≠ [] → (∀ d ∈ ds, Text.isDigit d) → Reads .number ds .number
  | fraction : ds ≠ [] → (∀ d ∈ ds, Text.isDigit d) → es ≠ [] → (∀ e ∈ es, Text.isDigit e) →
      Reads .number (ds ++ byte '.' :: es) .number
  | string : (∀ c ∈ body, c ≠ byte '"') →
      Reads .string (byte '"' :: (body ++ [byte '"'])) .string

def Form.Longest (f : Form) (l rest : Text) : Prop :=
  ∀ m k, m <+: l ++ rest → f.Reads m k → m.length ≤ l.length

def blanks : Text := [byte ' ', byte '\r', byte '\t', Text.newline]

def Stray (b : UInt8) : Prop := b ∉ blanks ∧ ∀ f w k, ¬ Form.Reads f (b :: w) k

/-- One character in UTF-8, or a byte that is part of none. -/
inductive Character : Text → Text → Prop where
  | encoded : Character (String.utf8EncodeChar c) rest
  | invalid : (∀ c, ¬ String.utf8EncodeChar c <+: b :: rest) → Character [b] rest

/-- A piece of this class stands before `rest`. -/
inductive Fits : Class → Text → Text → Prop where
  | lexeme : Form.Reads f l k → f.Longest l rest → ¬ [byte '/', byte '/'] <+: l ++ rest →
      Fits (.token k) l rest
  | blank : b ∈ blanks → Fits .blank [b] rest
  | comment : (∀ b ∈ c, b ≠ Text.newline) → (∀ b ∈ rest.head?, b = Text.newline) →
      Fits .comment (byte '/' :: byte '/' :: c) rest
  | unexpected : Stray b → Character (b :: w) rest → Fits .unexpected (b :: w) rest
  | unterminated : (∀ b ∈ body, b ≠ byte '"') → Fits .unterminated (byte '"' :: body) []

/-- The line on which a text ends that begins on the first line. -/
def lineAfter (t : Text) : Int := ((1 + t.newlines : Nat) : Int)

/-- After the text `before`, the rest of the text is tiled by lexemes, which give the tokens, and by
gaps, of which the faults among them give the diagnostics. -/
inductive Tiles : Text → Text → List Token → List Diagnostic → Prop where
  | finish : Tiles before [] [⟨.eof, [], none, lineAfter before⟩] []
  | lexeme : Fits (.token k) l rest → Tiles (before ++ l) rest ts ds →
      Tiles before (l ++ rest) (⟨k, l, literal? k l, lineAfter (before ++ l)⟩ :: ts) ds
  | blank : Fits .blank g rest → Tiles (before ++ g) rest ts ds → Tiles before (g ++ rest) ts ds
  | comment : Fits .comment g rest → Tiles (before ++ g) rest ts ds →
      Tiles before (g ++ rest) ts ds
  | unexpected : Fits .unexpected g rest → Tiles (before ++ g) rest ts ds →
      Tiles before (g ++ rest) ts
        (.atLine .scanning (lineAfter (before ++ g)) "Unexpected character." :: ds)
  | unterminated : Fits .unterminated g rest → Tiles (before ++ g) rest ts ds →
      Tiles before (g ++ rest) ts
        (.atLine .scanning (lineAfter (before ++ g)) "Unterminated string." :: ds)

def form? (b : UInt8) : Option Form :=
  if operators.any (·.1.head? == some b) then some .operator
  else if Text.isLetter b then some .word
  else if Text.isDigit b then some .number
  else if b = byte '"' then some .string
  else none

/-- The bytes that operators begin with. -/
def heads : Text :=
  [byte '(', byte ')', byte '{', byte '}', byte ',', byte '.', byte '-', byte '+', byte ';',
    byte '*', byte '!', byte '=', byte '<', byte '>', byte '/']

theorem mem_heads (h : operators.any (·.1.head? == some b) = true) : b ∈ heads := by
  obtain ⟨op, hop, hb⟩ := List.any_eq_true.1 h
  have hall : ∀ op ∈ operators, op.1.head?.all (· ∈ heads) = true := by decide +kernel
  exact of_decide_eq_true ((Option.all_eq_true _ _).1 (hall op hop) b (eq_of_beq hb))

theorem operators_head (h : (b :: w, k) ∈ operators) :
    form? b = some .operator ∧ b ∉ blanks ∧ b ≠ byte '"' := by
  have hall : ∀ op ∈ operators, op.1.head?.all (fun b =>
      form? b = some .operator ∧ b ∉ blanks ∧ b ≠ byte '"') = true := by decide +kernel
  exact of_decide_eq_true (hall _ h)

theorem operators_ne_nil : ([], k) ∉ operators := by
  intro h
  have hall : ∀ op ∈ operators, op.1 ≠ [] := by decide
  exact hall _ h rfl

theorem operators_kind (h : (l, k) ∈ operators) (h' : (l, k') ∈ operators) : k = k' := by
  have hall : ∀ op ∈ operators, ∀ op' ∈ operators, op.1 = op'.1 → op.2 = op'.2 := by decide
  exact hall _ h _ h' rfl

theorem operators_length (h : (l, k) ∈ operators) : l.length ≤ 1 ∨ l.tail = [byte '='] := by
  have hall : ∀ op ∈ operators, op.1.length ≤ 1 ∨ op.1.tail = [byte '='] := by decide
  exact hall _ h

theorem isLetter_iff (b : UInt8) : Text.isLetter b = true ↔
    (97 ≤ b.toNat ∧ b.toNat ≤ 122) ∨ (65 ≤ b.toNat ∧ b.toNat ≤ 90) ∨ b.toNat = 95 := by
  simp [Text.isLetter, byte, UInt8.le_iff_toNat_le, ← UInt8.toNat_inj, or_assoc]

theorem isDigit_iff (b : UInt8) : Text.isDigit b = true ↔ 48 ≤ b.toNat ∧ b.toNat ≤ 57 := by
  simp [Text.isDigit, byte, UInt8.le_iff_toNat_le]

theorem operators_any (h : form? b ≠ some .operator) :
    operators.any (·.1.head? == some b) = false := by
  rw [form?] at h
  split at h
  · exact absurd rfl h
  · exact Bool.eq_false_iff.2 ‹_›

theorem form?_letter (h : Text.isLetter b) : form? b = some .word := by
  have hno : operators.any (·.1.head? == some b) = false := by
    have hall : ∀ b ∈ heads, ¬ Text.isLetter b := List.all_iff_forall_prop.1 (by decide +kernel)
    exact Bool.eq_false_iff.2 fun hany => hall b (mem_heads hany) h
  rw [form?, hno, if_neg (by simp), if_pos h]

theorem form?_digit (h : Text.isDigit b) : form? b = some .number := by
  have hno : operators.any (·.1.head? == some b) = false := by
    have hall : ∀ b ∈ heads, ¬ Text.isDigit b := List.all_iff_forall_prop.1 (by decide +kernel)
    exact Bool.eq_false_iff.2 fun hany => hall b (mem_heads hany) h
  have hletter : ¬ Text.isLetter b := by
    rw [isDigit_iff] at h
    rw [isLetter_iff]
    omega
  rw [form?, hno, if_neg (by simp), if_neg hletter, if_pos h]

theorem Form.Reads.first (h : Form.Reads f l k) : ∃ b w, l = b :: w ∧ form? b = some f := by
  cases h with
  | operator h =>
    cases l with
    | nil => exact absurd h operators_ne_nil
    | cons b w => exact ⟨b, w, rfl, (operators_head h).1⟩
  | word hb => exact ⟨_, _, rfl, form?_letter hb⟩
  | whole hne hds =>
    obtain ⟨d, ds, rfl⟩ := List.exists_cons_of_ne_nil hne
    exact ⟨d, ds, rfl, form?_digit (hds d List.mem_cons_self)⟩
  | fraction hne hds =>
    obtain ⟨d, ds, rfl⟩ := List.exists_cons_of_ne_nil hne
    exact ⟨d, _, rfl, form?_digit (hds d List.mem_cons_self)⟩
  | string => exact ⟨_, _, rfl, by decide⟩

theorem Form.Reads.number (h : Form.Reads .number l k) : k = .number := by
  cases h with
  | whole | fraction => rfl

theorem Form.Reads.word_kind (h : Form.Reads .word l k) : k = Token.Kind.ofWord l := by
  cases h with
  | word => rfl

theorem Form.Reads.string_kind (h : Form.Reads .string l k) : k = .string := by
  cases h with
  | string => rfl

theorem Form.Reads.kind (h : Form.Reads f l k) (h' : Form.Reads f l k') : k = k' := by
  cases f with
  | operator =>
    cases h with
    | operator h =>
      cases h' with
      | operator h' => exact operators_kind h h'
  | word => exact h.word_kind.trans h'.word_kind.symm
  | number => exact h.number.trans h'.number.symm
  | string => exact h.string_kind.trans h'.string_kind.symm

def Class.gap? : Class → Option Class
  | .token _ => none
  | c => some c

/-- The gap at the front of a text, unless a lexeme stands there. -/
def gapAt : Text → Option Class
  | [] => none
  | b :: rest =>
    if b ∈ blanks then some .blank
    else if b = byte '"' then if byte '"' ∈ rest then none else some .unterminated
    else if [byte '/', byte '/'] <+: b :: rest then some .comment
    else if (form? b).isSome then none
    else some .unexpected

theorem form?_not_blank (h : form? b = some f) : b ∉ blanks := by
  intro hb
  have hall : ∀ b ∈ blanks, form? b = none := List.all_iff_forall_prop.1 (by decide +kernel)
  rw [hall b hb] at h
  cases h

theorem Stray.no_form (h : Stray b) : form? b = none := by
  obtain ⟨-, hno⟩ := h
  rw [form?]
  split
  · rename_i hany
    obtain ⟨⟨l, k⟩, hop, hb⟩ := List.any_eq_true.1 hany
    cases l with
    | nil => exact absurd hop operators_ne_nil
    | cons c w =>
      obtain rfl : c = b := by simpa using hb
      exact absurd (.operator hop) (hno .operator w k)
  split
  · rename_i hb
    exact absurd (.word hb (by simp)) (hno .word [] _)
  split
  · rename_i hb
    exact absurd (.whole (by simp) (by simpa using hb)) (hno .number [] _)
  split
  · rename_i hb
    subst hb
    have hstring : Form.Reads .string (byte '"' :: ([] ++ [byte '"'])) .string := .string (by simp)
    exact absurd hstring (hno .string _ _)
  · rfl

theorem Fits.gapAt (h : Fits c l rest) : gapAt (l ++ rest) = c.gap? := by
  cases h with
  | lexeme hr hl hc =>
    obtain ⟨b, w, rfl, hf⟩ := hr.first
    rw [List.cons_append, Scan.gapAt, if_neg (form?_not_blank hf)]
    split
    · rename_i hb
      subst hb
      obtain rfl : _ = Form.string := (Option.some.inj hf).symm
      generalize hw : byte '"' :: w = l at hr
      cases hr with
      | string hbody =>
        obtain rfl := (List.cons.inj hw).2
        rw [if_pos (by simp)]
        rfl
    · rw [List.cons_append] at hc
      rw [if_neg hc, hf]
      rfl
  | blank hb =>
    rw [List.cons_append, Scan.gapAt, if_pos hb]
    rfl
  | comment =>
    rw [List.cons_append, Scan.gapAt, if_neg (by decide), if_neg (by decide), if_pos (by simp)]
    rfl
  | @unexpected b w _ hs =>
    have hquote : b ≠ byte '"' := by
      intro hb
      have hf := hs.no_form
      rw [hb] at hf
      exact absurd hf (by decide)
    have hslash : ¬ [byte '/', byte '/'] <+: b :: (w ++ rest) := by
      intro hp
      have hf := hs.no_form
      rw [← (List.cons_prefix_cons.1 hp).1] at hf
      exact absurd hf (by decide)
    rw [List.cons_append, Scan.gapAt, if_neg hs.1, if_neg hquote, if_neg hslash, hs.no_form]
    rfl
  | unterminated hbody =>
    rw [List.append_nil, Scan.gapAt, if_neg (by decide), if_pos rfl,
      if_neg fun hm => hbody _ hm rfl]
    rfl

/-- A text without a certain byte is all of what comes before that byte, if it comes next. -/
theorem takeWhile_upTo {x : UInt8} {c rest : Text} (hc : ∀ b ∈ c, b ≠ x)
    (hr : ∀ b ∈ rest.head?, b = x) : (c ++ rest).takeWhile (· ≠ x) = c := by
  rw [List.takeWhile_append_of_pos (by simpa using hc)]
  cases rest with
  | nil => simp
  | cons b rest => simp [hr b rfl]

theorem Character.take (h : Character (b :: w) rest) : w.length = Utf8.extent b (w ++ rest) := by
  generalize hl : b :: w = l at h
  rw [Utf8.extent]
  cases h with
  | encoded =>
    rw [← Utf8.encode_eq] at hl
    rw [Utf8.character?_encode _ rest hl.symm]
  | invalid hno =>
    obtain ⟨rfl, rfl⟩ := List.cons.inj hl
    cases hc : Utf8.character? b ([] ++ rest) with
    | none => rfl
    | some cn =>
      obtain ⟨c, n⟩ := cn
      obtain ⟨-, henc⟩ := Utf8.encode_of_character? hc
      refine absurd ?_ (hno c)
      rw [← Utf8.encode_eq, henc]
      exact List.prefix_cons_inj b |>.2 (List.take_prefix n _)

theorem Fits.unique (h : Fits c l rest) (h' : Fits c' l' rest') (he : l ++ rest = l' ++ rest') :
    c = c' ∧ l = l' := by
  have hgap : c.gap? = c'.gap? := by
    rw [← h.gapAt, he, h'.gapAt]
  cases h with
  | lexeme hr hl =>
    cases h' with
    | lexeme hr' hl' =>
      obtain ⟨b, w, rfl, hf⟩ := hr.first
      obtain ⟨b', w', rfl, hf'⟩ := hr'.first
      obtain rfl : b = b' := (List.cons.inj he).1
      obtain rfl := Option.some.inj (hf.symm.trans hf')
      have hle := hl _ _ (he ▸ List.prefix_append _ _) hr'
      have hle' := hl' _ _ (he ▸ List.prefix_append _ _) hr
      have hw := (List.append_inj he (by omega)).1
      rw [hw] at hr
      exact ⟨congrArg Class.token (hr.kind hr'), hw⟩
    | _ => cases hgap
  | blank =>
    cases h' with
    | blank => exact ⟨rfl, congrArg (fun b => [b]) (List.cons.inj he).1⟩
    | _ => cases hgap
  | comment hc hr =>
    cases h' with
    | comment hc' hr' =>
      have htail := (List.cons.inj (List.cons.inj he).2).2
      have hbody := takeWhile_upTo hc hr
      rw [show _ ++ rest = _ ++ rest' from htail, takeWhile_upTo hc' hr'] at hbody
      exact ⟨rfl, congrArg (byte '/' :: byte '/' :: ·) hbody.symm⟩
    | _ => cases hgap
  | unexpected _ hc =>
    cases h' with
    | unexpected _ hc' =>
      simp only [List.cons_append, List.cons.injEq] at he
      obtain ⟨rfl, hw⟩ := he
      have hlen := hc.take
      rw [hw, ← hc'.take] at hlen
      exact ⟨rfl, congrArg _ (List.append_inj hw hlen).1⟩
    | _ => cases hgap
  | unterminated =>
    cases h' with
    | unterminated => exact ⟨rfl, by simpa using he⟩
    | _ => cases hgap

/-- The piece of this class that takes so many bytes of `t` after its first fits. -/
def Placed (b : UInt8) (t : Text) (front : Class × Nat) : Prop :=
  Fits front.1 (b :: t.take front.2) (t.drop front.2)

theorem Placed.of_fits (h : Fits c (b :: w) rest) : Placed b (w ++ rest) (c, w.length) := by
  rw [Placed, List.take_left, List.drop_left]
  exact h

theorem Placed.single (h : ([b], k) ∈ operators)
    (hnext : t.head? ≠ some (byte '=') ∨ ∀ op ∈ operators, op.1 ≠ [b, byte '='])
    (hslash : b ≠ byte '/' ∨ t.head? ≠ some (byte '/')) : Placed b t (.token k, 0) := by
  refine .of_fits (w := []) (.lexeme (.operator h) ?_ ?_)
  · intro m k' hm hr
    cases hr with
    | operator hop =>
      rcases operators_length hop with hlen | htail
      · exact hlen
      · cases m with
        | nil => cases htail
        | cons x m =>
          cases htail
          obtain ⟨rfl, hrest⟩ := List.cons_prefix_cons.1 hm
          obtain ⟨u, hu⟩ := hrest
          rcases hnext with hne | hno
          · exact absurd (congrArg List.head? hu).symm hne
          · exact absurd rfl (hno _ hop)
  · intro hp
    obtain ⟨rfl, hrest⟩ := List.cons_prefix_cons.1 hp
    obtain ⟨u, hu⟩ := hrest
    rcases hslash with hne | hne
    · exact hne rfl
    · exact hne (congrArg List.head? hu).symm

theorem Placed.double (h : ([b, byte '='], k) ∈ operators) (hb : b ≠ byte '/') :
    Placed b (byte '=' :: t) (.token k, 1) := by
  refine .of_fits (w := [byte '=']) (.lexeme (.operator h) ?_ ?_)
  · intro m k' hm hr
    cases hr with
    | operator hop =>
      rcases operators_length hop with hlen | htail
      · exact Nat.le_succ_of_le hlen
      · cases m with
        | nil => cases htail
        | cons x m =>
          cases htail
          exact Nat.le_refl 2
  · intro hp
    exact hb (List.cons_prefix_cons.1 hp).1.symm

theorem Placed.operator (h₁ : ([b], one) ∈ operators) (h₂ : ([b, byte '='], two) ∈ operators)
    (hb : b ≠ byte '/') : Placed b t (operator one two t) := by
  unfold Scan.operator
  split
  · split
    · rename_i he
      rw [he]
      exact .double h₂ hb
    · rename_i hne
      exact .single h₁ (.inl (by simpa using hne)) (.inl hb)
  · exact .single h₁ (.inl (by simp)) (.inl hb)

theorem exists_run (p : UInt8 → Bool) (t : Text) : ∃ w rest, t = w ++ rest ∧ t.takeWhile p = w ∧
    (∀ b ∈ w, p b) ∧ ∀ b ∈ rest.head?, p b = false := by
  refine ⟨t.takeWhile p, t.dropWhile p, List.takeWhile_append_dropWhile.symm, rfl,
    List.all_eq_true.1 List.all_takeWhile, fun b hb => ?_⟩
  have hnot := List.head?_dropWhile_not p t
  rw [Option.mem_def.1 hb] at hnot
  exact hnot

theorem length_le_run {p : UInt8 → Bool} {w rest : Text} (hm : m <+: w ++ rest)
    (hall : ∀ b ∈ m, p b) (hr : ∀ b ∈ rest.head?, p b = false) : m.length ≤ w.length := by
  rcases List.prefix_or_prefix_of_prefix hm (List.prefix_append w rest) with h | h
  · exact h.length_le
  · obtain ⟨u, rfl⟩ := h
    cases u with
    | nil => simp
    | cons x u =>
      obtain ⟨v, hv⟩ := (List.prefix_append_right_inj w).1 hm
      have hx := hr x (by rw [← hv]; rfl)
      rw [hall x (by simp)] at hx
      cases hx

theorem Placed.comment : Placed (byte '/') (byte '/' :: t)
    (.comment, ((byte '/' :: t).takeWhile (· ≠ Text.newline)).length) := by
  obtain ⟨w, rest, rfl, hw, hall, hr⟩ := exists_run (· ≠ Text.newline) t
  rw [List.takeWhile_cons_of_pos (by decide), hw, ← List.cons_append]
  exact .of_fits (.comment (by simpa using hall) (by simpa using hr))

theorem Placed.string (t : Text) : Placed (byte '"') t (stringExtent t) := by
  obtain ⟨w, rest, rfl, hw, hall, hr⟩ := exists_run (· ≠ byte '"') t
  have hbody : ∀ b ∈ w, b ≠ byte '"' := by simpa using hall
  simp only [stringExtent, hw]
  cases rest with
  | nil =>
    rw [if_neg (by simp)]
    exact .of_fits (.unterminated hbody)
  | cons q rest =>
    obtain rfl : q = byte '"' := by simpa using hr q rfl
    rw [if_pos (by simp)]
    have hsplit : w ++ byte '"' :: rest = (w ++ [byte '"']) ++ rest := by simp
    rw [hsplit, show w.length + 1 = (w ++ [byte '"']).length by simp]
    refine .of_fits (.lexeme (.string hbody) ?_ ?_)
    · intro m k hm hread
      cases hread with
      | string hm' =>
        rename_i body
        have hprefix : body ++ [byte '"'] <+: w ++ byte '"' :: rest := by
          simpa using (List.cons_prefix_cons.1 hm).2
        have hlen := length_le_run (p := (· ≠ byte '"')) ((List.prefix_append _ _).trans hprefix)
          (by simpa using hm') (by simp)
        simpa using hlen
    · intro hp
      exact absurd (List.cons_prefix_cons.1 hp).1 (by decide)

theorem Placed.word (hb : Text.isLetter b) (t : Text) :
    Placed b t (.token (Token.Kind.ofWord (b :: t.takeWhile Text.isWord)),
      (t.takeWhile Text.isWord).length) := by
  obtain ⟨w, rest, rfl, hw, hall, hr⟩ := exists_run Text.isWord t
  rw [hw]
  refine .of_fits (.lexeme (.word hb hall) ?_ ?_)
  · intro m k hm hread
    cases hread with
    | word _ hm' =>
      exact Nat.succ_le_succ (length_le_run (List.cons_prefix_cons.1 hm).2 hm' hr)
  · intro hp
    rw [← (List.cons_prefix_cons.1 hp).1] at hb
    exact absurd hb (by decide)

def fractionExtent : Text → Nat
  | p :: d :: more =>
    if p = byte '.' ∧ Text.isDigit d then 1 + ((d :: more).takeWhile Text.isDigit).length else 0
  | _ => 0

theorem numberExtent_run (hall : ∀ b ∈ w, Text.isDigit b)
    (hr : ∀ b ∈ rest.head?, Text.isDigit b = false) :
    numberExtent (w ++ rest) = w.length + fractionExtent rest := by
  have htake : (w ++ rest).takeWhile Text.isDigit = w := by
    rw [List.takeWhile_append_of_pos hall]
    cases rest with
    | nil => simp
    | cons b rest => simp [hr b rfl]
  simp only [numberExtent, htake, List.drop_left]
  match rest with
  | p :: d :: more =>
    simp only [fractionExtent]
    split
    · exact Nat.add_assoc _ _ _
    · rfl
  | [p] => rfl
  | [] => rfl

theorem fractionExtent_le (hm : byte '.' :: es <+: rest) (hne : es ≠ [])
    (hes : ∀ e ∈ es, Text.isDigit e) : es.length + 1 ≤ fractionExtent rest := by
  obtain ⟨u, rfl⟩ := hm
  obtain ⟨e, es, rfl⟩ := List.exists_cons_of_ne_nil hne
  have hlen : (e :: es).length ≤ ((e :: (es ++ u)).takeWhile Text.isDigit).length := by
    rw [← List.cons_append, List.takeWhile_append_of_pos hes]
    simp
  rw [List.cons_append, List.cons_append, fractionExtent,
    if_pos ⟨rfl, hes e List.mem_cons_self⟩]
  omega

theorem digits_eq {ds es w rest : Text} (hm : ds ++ byte '.' :: es <+: w ++ rest)
    (hds : ∀ d ∈ ds, Text.isDigit d) (hall : ∀ b ∈ w, Text.isDigit b)
    (hr : ∀ b ∈ rest.head?, Text.isDigit b = false) : ds = w := by
  have hle := length_le_run ((List.prefix_append _ _).trans hm) hds hr
  obtain ⟨v, hv⟩ := hm
  rw [List.append_assoc] at hv
  have hpoint : ∀ b ∈ (byte '.' :: (es ++ v)).head?, Text.isDigit b = false := by
    simp
    decide
  have hprefix : w <+: ds ++ byte '.' :: (es ++ v) := by
    rw [← List.cons_append, hv]
    exact List.prefix_append _ _
  have hge : w.length ≤ ds.length := length_le_run hprefix hall hpoint
  exact (List.append_inj hv (by omega)).1

theorem length_le_number {w : Text} (hm : m <+: w ++ rest) (hread : Form.Reads .number m k)
    (hall : ∀ b ∈ w, Text.isDigit b) (hr : ∀ b ∈ rest.head?, Text.isDigit b = false) :
    m.length ≤ w.length + fractionExtent rest := by
  cases hread with
  | whole _ hds => exact Nat.le_add_right_of_le (length_le_run hm hds hr)
  | fraction _ hds hne hes =>
    obtain rfl := digits_eq hm hds hall hr
    have hlen := fractionExtent_le ((List.prefix_append_right_inj _).1 hm) hne hes
    rw [List.length_append, List.length_cons]
    omega

theorem fractionExtent_cases (rest : Text) :
    fractionExtent rest = 0 ∨ ∃ es rest', rest = byte '.' :: es ++ rest' ∧ es ≠ [] ∧
      (∀ e ∈ es, Text.isDigit e) ∧ fractionExtent rest = (byte '.' :: es).length := by
  match rest with
  | p :: d :: more =>
    rw [fractionExtent]
    split
    · rename_i hpoint
      obtain ⟨rfl, hd⟩ := hpoint
      obtain ⟨es, rest', he, htake, hes, -⟩ := exists_run Text.isDigit (d :: more)
      refine .inr ⟨es, rest', congrArg _ he, ?_, hes, ?_⟩
      · rintro rfl
        rw [List.takeWhile_cons_of_pos hd] at htake
        cases htake
      · rw [htake, List.length_cons, Nat.add_comm]
    · exact .inl rfl
  | [p] => exact .inl rfl
  | [] => exact .inl rfl

theorem Placed.number (hb : Text.isDigit b) (t : Text) :
    Placed b t (.token .number, numberExtent t) := by
  obtain ⟨w, rest, rfl, -, hall, hr⟩ := exists_run Text.isDigit t
  have hdigits : ∀ d ∈ b :: w, Text.isDigit d := List.forall_mem_cons.2 ⟨hb, hall⟩
  have hslash : ∀ u, ¬ [byte '/', byte '/'] <+: b :: u := by
    intro u hp
    rw [← (List.cons_prefix_cons.1 hp).1] at hb
    exact absurd hb (by decide)
  rw [numberExtent_run hall hr]
  rcases fractionExtent_cases rest with h0 | ⟨es, rest', rfl, hne, hes, hlen⟩
  · rw [h0]
    refine .of_fits (.lexeme (.whole (List.cons_ne_nil b w) hdigits) ?_ (hslash _))
    intro m k hm hread
    have hle := length_le_number (w := b :: w) hm hread hdigits hr
    rwa [h0] at hle
  · rw [hlen, ← List.length_append, ← List.append_assoc]
    have hfraction : Form.Reads .number (b :: w ++ byte '.' :: es) .number :=
      .fraction (List.cons_ne_nil b w) hdigits hne hes
    refine .of_fits (.lexeme hfraction ?_ (hslash _))
    intro m k hm hread
    rw [← List.cons_append, List.append_assoc] at hm
    have hle := length_le_number (w := b :: w) hm hread hdigits hr
    rwa [hlen, ← List.length_append] at hle

theorem character_front (b : UInt8) (t : Text) :
    Character (b :: t.take (Utf8.extent b t)) (t.drop (Utf8.extent b t)) := by
  rw [Utf8.extent]
  cases hc : Utf8.character? b t with
  | none =>
    refine .invalid fun c hp => ?_
    obtain ⟨u, hu⟩ := hp
    obtain ⟨w, hw⟩ : ∃ w, String.utf8EncodeChar c = b :: w := by
      cases he : String.utf8EncodeChar c with
      | nil => exact absurd he (by simp)
      | cons x w =>
        rw [he] at hu
        exact ⟨w, by rw [(List.cons.inj hu).1]⟩
    rw [hw, List.cons_append, List.cons.injEq] at hu
    rw [← Utf8.encode_eq] at hw
    have hdecode := Utf8.character?_encode c u hw
    rw [hu.2, List.drop_zero, hc] at hdecode
    cases hdecode
  | some cn =>
    obtain ⟨c, n⟩ := cn
    obtain ⟨-, henc⟩ := Utf8.encode_of_character? hc
    dsimp only
    rw [← henc, Utf8.encode_eq]
    exact .encoded

theorem form?_operator (h : form? b = some .operator) : b ∈ heads := by
  rw [form?] at h
  split at h
  · exact mem_heads ‹_›
  · split at h
    · cases h
    · split at h
      · cases h
      · split at h <;> cases h

theorem Stray.of_not (hop : form? b ≠ some .operator) (hblank : b ∉ blanks) (hquote : b ≠ byte '"')
    (hdigit : ¬ Text.isDigit b) (hletter : ¬ Text.isLetter b) : Stray b := by
  refine ⟨hblank, fun f w k hread => ?_⟩
  obtain ⟨b', w', he, hf⟩ := hread.first
  obtain ⟨rfl, rfl⟩ := List.cons.inj he
  rw [form?, operators_any hop, if_neg (by simp), if_neg hletter, if_neg hdigit,
    if_neg hquote] at hf
  cases hf

theorem front_placed (b : UInt8) (t : Text) : Placed b t (front b t) := by
  unfold front
  iterate 10
    refine iteInduction (fun hb => hb ▸ .single (by decide) (.inr (by decide)) (.inl (by decide)))
      fun _ => ?_
  iterate 4
    refine iteInduction (fun hb => hb ▸ .operator (by decide) (by decide) (by decide)) fun _ => ?_
  refine iteInduction (fun hb => ?_) fun _ => ?_
  · subst hb
    refine iteInduction (fun hslash => ?_) fun hslash => ?_
    · obtain ⟨t, rfl⟩ : ∃ u, t = byte '/' :: u := by
        cases t with
        | nil => cases hslash
        | cons x t => exact ⟨t, by rw [Option.some.inj hslash]⟩
      exact .comment
    · exact .single (by decide) (.inr (by decide)) (.inr hslash)
  refine iteInduction (fun hb => .of_fits (w := []) (.blank (by simpa [blanks] using hb)))
    fun hblank => ?_
  refine iteInduction (fun hb => hb ▸ .string t) fun _ => ?_
  refine iteInduction (fun hb => .number hb t) fun hdigit => ?_
  refine iteInduction (fun hb => .word hb t) fun hletter => ?_
  refine Fits.unexpected (.of_not ?_ (by simpa [blanks] using hblank) ‹_› hdigit hletter)
    (character_front b t)
  intro hop
  have hhead := form?_operator hop
  simp only [heads, List.mem_cons, List.not_mem_nil, or_false] at hhead
  grind

theorem Fits.exists_cons (h : Fits c l rest) : ∃ b w, l = b :: w := by
  cases h with
  | lexeme hr =>
    obtain ⟨b, w, he, -⟩ := hr.first
    exact ⟨b, w, he⟩
  | _ => exact ⟨_, _, rfl⟩

theorem Fits.pieces (h : Fits c l rest) : pieces (l ++ rest) = ⟨c, l⟩ :: pieces rest := by
  obtain ⟨b, w, rfl⟩ := h.exists_cons
  have hfront : Fits _ _ _ := front_placed b (w ++ rest)
  obtain ⟨hc, hl⟩ := hfront.unique h (congrArg (b :: ·) (List.take_append_drop _ _))
  have hw : (w ++ rest).take (front b (w ++ rest)).2 = w := (List.cons.inj hl).2
  have hrest : (w ++ rest).drop (front b (w ++ rest)).2 = rest := by
    have hsplit := List.take_append_drop (front b (w ++ rest)).2 (w ++ rest)
    rw [hw] at hsplit
    exact List.append_cancel_left hsplit
  rw [List.cons_append, Scan.pieces]
  dsimp only
  rw [hc, hw, hrest]

def tokensFrom (line : Nat) (ps : List Piece) : List Token :=
  (located line ps).filterMap fun (p, line) => p.token? line

def faultsFrom (line : Nat) (ps : List Piece) : List Diagnostic :=
  (located line ps).filterMap fun (p, line) => p.fault? line

theorem tokensFrom_cons (line : Nat) (p : Piece) (ps : List Piece) :
    tokensFrom line (p :: ps) = (p.token? (line + p.text.newlines)).toList ++
      tokensFrom (line + p.text.newlines) ps := by
  rw [tokensFrom, located, List.filterMap_cons, tokensFrom]
  dsimp only
  cases p.token? (line + p.text.newlines) <;> rfl

theorem faultsFrom_cons (line : Nat) (p : Piece) (ps : List Piece) :
    faultsFrom line (p :: ps) = (p.fault? (line + p.text.newlines)).toList ++
      faultsFrom (line + p.text.newlines) ps := by
  rw [faultsFrom, located, List.filterMap_cons, faultsFrom]
  dsimp only
  cases p.fault? (line + p.text.newlines) <;> rfl

theorem newlines_append (s t : Text) : (s ++ t).newlines = s.newlines + t.newlines :=
  List.count_append

def Scanned (before t : Text) (ts : List Token) (ds : List Diagnostic) : Prop :=
  ts = tokensFrom (1 + before.newlines) (pieces t) ++ [⟨.eof, [], none, lineAfter (before ++ t)⟩] ∧
    ds = faultsFrom (1 + before.newlines) (pieces t)

theorem Scanned.cons (h : Fits c g rest) (hs : Scanned (before ++ g) rest ts ds) :
    Scanned before (g ++ rest)
      ((Piece.token? ⟨c, g⟩ (1 + (before ++ g).newlines)).toList ++ ts)
      ((Piece.fault? ⟨c, g⟩ (1 + (before ++ g).newlines)).toList ++ ds) := by
  obtain ⟨rfl, rfl⟩ := hs
  have hline : 1 + before.newlines + g.newlines = 1 + (before ++ g).newlines := by
    rw [newlines_append, Nat.add_assoc]
  constructor
  · rw [h.pieces, tokensFrom_cons]
    dsimp only
    rw [hline, List.append_assoc, List.append_assoc]
  · rw [h.pieces, faultsFrom_cons]
    dsimp only
    rw [hline]

theorem Tiles.scanned (h : Tiles before t ts ds) : Scanned before t ts ds := by
  induction h with
  | finish => exact ⟨by simp [tokensFrom, located, pieces], by simp [faultsFrom, located, pieces]⟩
  | lexeme hf _ ih => exact .cons hf ih
  | blank hf _ ih => exact .cons hf ih
  | comment hf _ ih => exact .cons hf ih
  | unexpected hf _ ih => exact .cons hf ih
  | unterminated hf _ ih => exact .cons hf ih

theorem Tiles.cons (h : Fits c g rest) (ht : Tiles (before ++ g) rest ts ds) :
    Tiles before (g ++ rest)
      ((Piece.token? ⟨c, g⟩ (1 + (before ++ g).newlines)).toList ++ ts)
      ((Piece.fault? ⟨c, g⟩ (1 + (before ++ g).newlines)).toList ++ ds) := by
  cases c with
  | token k => exact .lexeme h ht
  | blank => exact .blank h ht
  | comment => exact .comment h ht
  | unexpected => exact .unexpected h ht
  | unterminated => exact .unterminated h ht

theorem exists_tiles (before t : Text) : ∃ ts ds, Tiles before t ts ds := by
  induction t using pieces.induct generalizing before with
  | case1 => exact ⟨_, _, .finish⟩
  | case2 b rest cls n hf ih =>
    have hfront : Fits _ _ _ := front_placed b rest
    rw [hf] at hfront
    obtain ⟨ts, ds, ht⟩ := ih (before ++ b :: rest.take n)
    have hsplit : (b :: rest.take n) ++ rest.drop n = b :: rest := by
      rw [List.cons_append, List.take_append_drop]
    exact ⟨_, _, hsplit ▸ Tiles.cons hfront ht⟩

theorem scanned_ofText (t : Text) : Scanned [] t (ofText t).tokens (ofText t).diagnostics :=
  ⟨rfl, rfl⟩

theorem Tiles.eq_ofText (h : Tiles [] t ts ds) :
    ts = (ofText t).tokens ∧ ds = (ofText t).diagnostics := by
  obtain ⟨hts, hds⟩ := h.scanned
  obtain ⟨hts', hds'⟩ := scanned_ofText t
  exact ⟨hts.trans hts'.symm, hds.trans hds'.symm⟩

theorem tiles_ofText (t : Text) : Tiles [] t (ofText t).tokens (ofText t).diagnostics := by
  obtain ⟨ts, ds, h⟩ := exists_tiles [] t
  obtain ⟨rfl, rfl⟩ := h.eq_ofText
  exact h

/-- Scanning tiles a text in the one way there is, and closes the tokens with the only end of
input, on the last line. -/
theorem ofText_tiles (t : Text) :
    (∀ ts ds, Tiles [] t ts ds ↔ ts = (ofText t).tokens ∧ ds = (ofText t).diagnostics) ∧
      ∃ body, (ofText t).tokens = body ++ [⟨.eof, [], none, lineAfter t⟩] ∧
        ∀ u ∈ body, u.kind ≠ .eof := by
  refine ⟨fun ts ds => ⟨Tiles.eq_ofText, ?_⟩, ?_⟩
  · rintro ⟨rfl, rfl⟩
    exact tiles_ofText t
  · obtain ⟨body, eof, he, -, hall⟩ := ofText_tokens t
    obtain ⟨rfl, -⟩ := List.append_inj' he rfl
    exact ⟨_, rfl, fun u hu => (hall u hu).1⟩

end Scan

end LoxLang
