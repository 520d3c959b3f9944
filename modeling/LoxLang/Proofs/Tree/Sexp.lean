import LoxLang.Proofs.Number.Layout
import LoxLang.Proofs.Text.Quoted
import LoxLang.Proofs.Tree.Written
import LoxLang.Tree.Print

namespace LoxLang
set_option autoImplicit true

namespace Text

def marks : Text := [byte ' ', byte '(', byte ')', byte '"', newline]

def Solid (w : Text) : Prop := w ≠ [] ∧ ∀ b ∈ w, b ∉ marks

instance (w : Text) : Decidable (Solid w) :=
  @instDecidableAnd _ _ inferInstance (List.decidableBAll (· ∉ marks) w)

def Stops (t : Text) : Prop := ∀ b ∈ t.head?, b ∈ marks

theorem Stops.cons (h : b ∈ marks) : Stops (b :: t) := by
  intro c hc
  cases hc
  exact h

theorem takeWhile_solid (h : Solid w) (ht : Stops t) :
    (w ++ t).takeWhile (fun b => !marks.contains b) = w := by
  have hplain : ∀ b ∈ w, (!marks.contains b) = true := by
    intro b hb
    simpa using h.2 b hb
  rw [List.takeWhile_append_of_pos hplain]
  cases t with
  | nil => rw [List.takeWhile_nil, List.append_nil]
  | cons b t =>
    have hb : ¬ (!marks.contains b) = true := by simpa using ht b rfl
    rw [List.takeWhile_cons_of_neg (p := fun b => !marks.contains b) hb, List.append_nil]

theorem Solid.unique (h : Solid v) (h' : Solid w) (hx : Stops x) (hy : Stops y)
    (he : v ++ x = w ++ y) : v = w ∧ x = y := by
  have hword := congrArg (List.takeWhile fun b => !marks.contains b) he
  rw [takeWhile_solid h hx, takeWhile_solid h' hy] at hword
  subst hword
  exact ⟨rfl, List.append_cancel_left he⟩

end Text

namespace Literal

def constants : List (Text × Option Literal) :=
  [("nil", none), ("true", some (.bool true)), ("false", some (.bool false))]

def Numeric (w : Text) : Prop := w = "+Inf" ∨ Decimal.Numeral w

theorem Numeric.solid (h : Numeric w) : w.Solid := by
  rcases h with rfl | h
  · decide
  · obtain ⟨b, v, rfl, -⟩ := h.first
    refine ⟨List.cons_ne_nil _ _, ?_⟩
    intro c hc hmark
    have hall : (Text.marks.any fun c => Text.isDigit c || c == byte '.') = false := by decide
    exact List.any_eq_false.1 hall c hmark (by simpa using h.all c hc)

theorem Numeric.not_constant (h : Numeric w) : constants.lookup w = none := by
  rcases h with rfl | h
  · decide
  · have hall : ∀ e ∈ constants, e.1.head?.any Text.isDigit = false := by decide
    obtain ⟨b, v, rfl, hb⟩ := h.first
    apply List.lookup_eq_none_iff.2
    intro e he
    apply bne_iff_ne.2
    intro heq
    have hfirst := hall e he
    rw [← heq] at hfirst
    exact Bool.eq_false_iff.1 hfirst hb

theorem text_cases (v : Option Literal) (h : Written v) :
    (∃ s, v = some (.string s)) ∨
      (∃ x, v = some (.number x) ∧ Double.Unsigned x ∧ Numeric (text v)) ∨
      (constants.lookup (text v) = some v ∧ (text v).Solid ∧ ∀ s, v ≠ some (.string s)) := by
  rcases v with _ | x | s | b
  · exact .inr (.inr ⟨rfl, by decide, by simp⟩)
  · have hx := h x rfl
    exact .inr (.inl ⟨x, rfl, hx, Layout.write_numeral hx⟩)
  · exact .inl ⟨s, rfl⟩
  · cases b with
    | false => exact .inr (.inr ⟨rfl, by decide, by simp⟩)
    | true => exact .inr (.inr ⟨rfl, by decide, by simp⟩)

theorem text_inj (h : Written v) (h' : Written v') (hs : ∀ s, v ≠ some (.string s))
    (hs' : ∀ s, v' ≠ some (.string s)) (he : text v = text v') : v = v' := by
  rcases text_cases v h with ⟨s, hv⟩ | ⟨x, rfl, hx, hw⟩ | ⟨hv, -⟩
  · exact absurd hv (hs s)
  · rcases text_cases v' h' with ⟨s, hv'⟩ | ⟨y, rfl, hy, -⟩ | ⟨hv', -⟩
    · exact absurd hv' (hs' s)
    · rw [Layout.write_inj hx hy he]
    · have hnone := hw.not_constant
      rw [he, hv'] at hnone
      cases hnone
  · rcases text_cases v' h' with ⟨s, hv'⟩ | ⟨y, rfl, -, hw⟩ | ⟨hv', -⟩
    · exact absurd hv' (hs' s)
    · have hnone := hw.not_constant
      rw [← he, hv] at hnone
      cases hnone
    · rw [he, hv'] at hv
      exact (Option.some.inj hv).symm

end Literal

inductive Atom where
  | word (w : Text)
  | value (v : Option Literal)

namespace Atom

def text : Atom → Text
  | word w => w
  | value v => Literal.text v

def IsWord (w : Text) : Prop :=
  w.Solid ∧ (w ≠ "+Inf" ∧ w.head?.any Text.isDigit = false) ∧
    Literal.constants.lookup w = none

instance (w : Text) : Decidable (IsWord w) := inferInstanceAs (Decidable (_ ∧ _ ∧ _))

theorem IsWord.not_numeric (h : IsWord w) : ¬ Literal.Numeric w := by
  rintro (rfl | hnum)
  · exact h.2.1.1 rfl
  · obtain ⟨b, v, rfl, hb⟩ := hnum.first
    exact Bool.eq_false_iff.1 h.2.1.2 hb

def Proper : Atom → Prop
  | word w => IsWord w
  | value v => Literal.Written v

theorem Proper.cases {a : Atom} (h : a.Proper) :
    (∃ s, a = value (some (.string s))) ∨
      (a.text.Solid ∧ ∀ s, a ≠ value (some (.string s))) := by
  cases a with
  | word w => exact .inr ⟨h.1, fun s hs => by cases hs⟩
  | value v =>
    rcases Literal.text_cases v h with ⟨s, rfl⟩ | ⟨x, rfl, -, hw⟩ | ⟨-, hsolid, hs⟩
    · exact .inl ⟨s, rfl⟩
    · exact .inr ⟨hw.solid, fun s hs => by cases hs⟩
    · refine .inr ⟨hsolid, fun s he => ?_⟩
      cases he
      exact hs s rfl

theorem IsWord.ne_text (h : IsWord w) (hv : Literal.Written v) (hs : ∀ s, v ≠ some (.string s)) :
    w ≠ Literal.text v := by
  rintro rfl
  rcases Literal.text_cases v hv with ⟨s, rfl⟩ | ⟨x, rfl, -, hw⟩ | ⟨hlook, -⟩
  · exact hs s rfl
  · exact h.not_numeric hw
  · exact absurd (hlook.symm.trans h.2.2) (Option.some_ne_none _)

theorem text_inj {a b : Atom} (h : a.Proper) (h' : b.Proper)
    (hs : ∀ s, a ≠ value (some (.string s))) (hs' : ∀ s, b ≠ value (some (.string s)))
    (he : a.text = b.text) : a = b := by
  cases a with
  | word v =>
    cases b with
    | word w => exact congrArg word he
    | value v' => exact absurd he (h.ne_text h' fun s hv => hs' s (congrArg value hv))
  | value v =>
    cases b with
    | word w => exact absurd he.symm (IsWord.ne_text h' h fun s hv => hs s (congrArg value hv))
    | value v' =>
      exact congrArg value (Literal.text_inj h h' (fun s hv => hs s (congrArg value hv))
        (fun s hv => hs' s (congrArg value hv)) he)

theorem solid_ne_quoted (h : Text.Solid w) (he : w ++ x = Quoted.encode s ++ y) : False := by
  obtain ⟨b, v, rfl⟩ := List.exists_cons_of_ne_nil h.1
  obtain ⟨rfl, -⟩ := List.cons.inj he
  exact h.2 (byte '"') List.mem_cons_self (by decide)

theorem text_unique {a b : Atom} (h : a.Proper) (h' : b.Proper) (hx : Text.Stops x)
    (hy : Text.Stops y) (he : a.text ++ x = b.text ++ y) : a = b ∧ x = y := by
  rcases h.cases with ⟨s, rfl⟩ | ⟨hsolid, hs⟩
  · rcases h'.cases with ⟨t, rfl⟩ | ⟨hsolid', hs'⟩
    · obtain ⟨rfl, hxy⟩ := Quoted.encode_unique he
      exact ⟨rfl, hxy⟩
    · exact (solid_ne_quoted hsolid' he.symm).elim
  · rcases h'.cases with ⟨t, rfl⟩ | ⟨hsolid', hs'⟩
    · exact (solid_ne_quoted hsolid he).elim
    · obtain ⟨htext, hxy⟩ := hsolid.unique hsolid' hx hy he
      exact ⟨text_inj h h' hs hs' htext, hxy⟩

theorem Proper.head {a : Atom} (h : a.Proper) :
    ∃ b w, a.text = b :: w ∧ b ≠ byte '(' ∧ b ≠ byte ')' := by
  rcases h.cases with ⟨s, rfl⟩ | ⟨hsolid, -⟩
  · exact ⟨byte '"', _, rfl, by decide, by decide⟩
  · obtain ⟨b, w, hb⟩ := List.exists_cons_of_ne_nil hsolid.1
    have hmark := hsolid.2 b (hb ▸ List.mem_cons_self)
    refine ⟨b, w, hb, ?_, ?_⟩
    · rintro rfl
      exact hmark (by decide)
    · rintro rfl
      exact hmark (by decide)

end Atom

inductive Sexp where
  | atom (a : Atom)
  | list (items : List Sexp)

namespace Sexp

mutual
/-- The text, with a blank between the items of a list. -/
def text : Sexp → Text
  | atom a => a.text
  | list [] => "()"
  | list (a :: items) => byte '(' :: (a.text ++ rest items)

/-- What follows an item of a list. -/
def rest : List Sexp → Text
  | [] => [byte ')']
  | a :: items => byte ' ' :: (a.text ++ rest items)
end

mutual
def Proper : Sexp → Prop
  | atom a => a.Proper
  | list items => ProperAll items

def ProperAll : List Sexp → Prop
  | [] => True
  | a :: items => a.Proper ∧ ProperAll items
end

theorem head (h : Proper a) : ∃ b w, a.text = b :: w ∧ b ≠ byte ')' := by
  cases a with
  | atom a =>
    obtain ⟨b, w, hb, -, hne⟩ := Atom.Proper.head h
    exact ⟨b, w, hb, hne⟩
  | list items =>
    cases items with
    | nil => exact ⟨byte '(', _, rfl, by decide⟩
    | cons a items => exact ⟨byte '(', _, rfl, by decide⟩

theorem stops_rest (items : List Sexp) (t : Text) : Text.Stops (rest items ++ t) := by
  cases items with
  | nil => exact .cons (by decide)
  | cons a items => exact .cons (by decide)

mutual
theorem text_unique (a b : Sexp) (h : a.Proper) (h' : b.Proper) (hx : Text.Stops x)
    (hy : Text.Stops y) (he : a.text ++ x = b.text ++ y) : a = b ∧ x = y := by
  -- By recursion on `a`. What follows an item changes from item to item, so nothing is fixed about
  -- `x` and `y` but how they begin.
  cases a with
  | atom a =>
    cases b with
    | atom b =>
      obtain ⟨rfl, hxy⟩ := Atom.text_unique h h' hx hy he
      exact ⟨rfl, hxy⟩
    | list items =>
      obtain ⟨c, w, hc, hne, -⟩ := Atom.Proper.head h
      rw [text, hc] at he
      cases items with
      | nil => exact absurd (List.cons.inj he).1 hne
      | cons b items => exact absurd (List.cons.inj he).1 hne
  | list items =>
    cases b with
    | atom b =>
      obtain ⟨c, w, hc, hne, -⟩ := Atom.Proper.head h'
      rw [text.eq_1 b, hc] at he
      cases items with
      | nil => exact absurd (List.cons.inj he).1.symm hne
      | cons a items => exact absurd (List.cons.inj he).1.symm hne
    | list items' =>
      cases items with
      | nil =>
        cases items' with
        | nil => exact ⟨rfl, List.append_cancel_left he⟩
        | cons b items' =>
          obtain ⟨c, w, hc, hne⟩ := head h'.1
          rw [text.eq_3, hc] at he
          exact absurd (List.cons.inj (List.cons.inj he).2).1.symm hne
      | cons a items =>
        cases items' with
        | nil =>
          obtain ⟨c, w, hc, hne⟩ := head h.1
          rw [text.eq_3, hc] at he
          exact absurd (List.cons.inj (List.cons.inj he).2).1 hne
        | cons b items' =>
          simp only [text, List.cons_append, List.append_assoc, List.cons.injEq, true_and] at he
          obtain ⟨rfl, hrest⟩ :=
            text_unique a b h.1 h'.1 (stops_rest items x) (stops_rest items' y) he
          obtain ⟨rfl, hxy⟩ := rest_unique items items' h.2 h'.2 hrest
          exact ⟨rfl, hxy⟩

theorem rest_unique (items items' : List Sexp) (h : ProperAll items) (h' : ProperAll items')
    (he : rest items ++ x = rest items' ++ y) : items = items' ∧ x = y := by
  cases items with
  | nil =>
    cases items' with
    | nil => exact ⟨rfl, (List.cons.inj he).2⟩
    | cons b items' => exact absurd (List.cons.inj he).1 (by decide)
  | cons a items =>
    cases items' with
    | nil => exact absurd (List.cons.inj he).1 (by decide)
    | cons b items' =>
      simp only [rest, List.cons_append, List.append_assoc, List.cons.injEq, true_and] at he
      obtain ⟨rfl, hrest⟩ :=
        text_unique a b h.1 h'.1 (stops_rest items x) (stops_rest items' y) he
      obtain ⟨rfl, hxy⟩ := rest_unique items items' h.2 h'.2 hrest
      exact ⟨rfl, hxy⟩
end

theorem lines_unique (items items' : List Sexp) (h : ProperAll items) (h' : ProperAll items')
    (he : (items.flatMap fun a => a.text ++ [Text.newline]) =
      items'.flatMap fun a => a.text ++ [Text.newline]) : items = items' := by
  induction items generalizing items' with
  | nil =>
    cases items' with
    | nil => rfl
    | cons b items' =>
      rw [List.flatMap_nil, List.flatMap_cons] at he
      exact absurd he.symm (by simp)
  | cons a items ih =>
    cases items' with
    | nil =>
      rw [List.flatMap_nil, List.flatMap_cons] at he
      exact absurd he (by simp)
    | cons b items' =>
      rw [List.flatMap_cons, List.flatMap_cons, List.append_assoc, List.append_assoc] at he
      obtain ⟨rfl, hrest⟩ := text_unique a b h.1 h'.1 (.cons (by decide)) (.cons (by decide)) he
      rw [ih items' h.2 h'.2 (List.cons.inj hrest).2]

def form (head : Text) (parts : List Sexp) : Sexp := list (atom (.word head) :: parts)

theorem rest_eq (items : List Sexp) :
    rest items = (items.map text).flatMap (byte ' ' :: ·) ++ [byte ')'] := by
  induction items with
  | nil => rfl
  | cons a items ih =>
    rw [rest, ih, List.map_cons, List.flatMap_cons, List.append_assoc]
    rfl

theorem text_form (head : Text) (parts : List Sexp) :
    (form head parts).text = LoxLang.form head (parts.map text) := by
  rw [form, text, rest_eq, LoxLang.form, List.append_assoc, List.append_assoc]
  rfl

def words (ws : List Text) : Sexp := list (ws.map fun w => atom (.word w))

theorem text_words (ws : List Text) : (words ws).text = "(" ++ Text.join " " ws ++ ")" := by
  have hrest (v : Text) (vs : List Text) : v ++ rest (vs.map fun w => atom (.word w)) =
      Text.join " " (v :: vs) ++ ")" := by
    induction vs generalizing v with
    | nil =>
      change v ++ _ = v ++ [] ++ _
      rw [List.append_nil]
      rfl
    | cons w ws ih =>
      change v ++ byte ' ' :: (w ++ _) = v ++ ((" " : Text) ++ Text.join " " (w :: ws)) ++ _
      rw [ih, List.append_assoc, List.append_assoc]
      rfl
  cases ws with
  | nil => rfl
  | cons v vs =>
    change byte '(' :: (v ++ _) = _
    rw [hrest, List.append_assoc]
    rfl

end Sexp

end LoxLang
