import LoxLang.Proofs.Prompt.Word
import Mathlib.Data.Set.Card

namespace LoxLang.Prompt
set_option autoImplicit true

/-- Every parenthesis of the text is one of a pair. -/
inductive Balanced : Text → Prop where
  | nil : Balanced []
  | other : b ≠ byte '(' → b ≠ byte ')' → Balanced t → Balanced (b :: t)
  | pair : Balanced s → Balanced t → Balanced (byte '(' :: (s ++ byte ')' :: t))

/-- What lies strictly between two positions. -/
def interior (t : Text) (i j : Nat) : Text := (t.take j).drop (i + 1)

/-- The parenthesis at `i` is still open at `j`, and all those between are closed. -/
structure OpenAt (t : Text) (i j : Nat) : Prop where
  before : i < j
  paren : t[i]? = some (byte '(')
  balanced : Balanced (interior t i j)

/-- At `k` stands a comma that no pair of parentheses of the text encloses. -/
def Separates (t : Text) (k : Nat) : Prop :=
  t[k]? = some (byte ',') ∧
    ∀ i j, OpenAt t i j → t[j]? = some (byte ')') → ¬ (i < k ∧ k < j)

/-- The bytes from `start` to `stop` belong to words, and the one before them does not. -/
structure RunAt (t : Text) (start stop : Nat) : Prop where
  le : start ≤ stop
  word : ∀ b ∈ (t.take stop).drop start, Text.isWord b = true
  maximal : ∀ b ∈ (t.take start).getLast?, Text.isWord b = false

/-- How many more parentheses a text opens than it closes. -/
def nesting (t : Text) : Int := (t.count (byte '(') : Int) - t.count (byte ')')

@[simp] theorem nesting_nil : nesting [] = 0 := rfl

theorem nesting_append (s t : Text) : nesting (s ++ t) = nesting s + nesting t := by
  simp only [nesting, List.count_append]
  omega

@[simp] theorem nesting_open : nesting [byte '('] = 1 := by decide

@[simp] theorem nesting_close : nesting [byte ')'] = -1 := by decide

theorem nesting_other (ho : b ≠ byte '(') (hc : b ≠ byte ')') : nesting [b] = 0 := by
  simp [nesting, ho, hc]

theorem nesting_cons (b : UInt8) (t : Text) : nesting (b :: t) = nesting [b] + nesting t :=
  nesting_append [b] t

theorem Balanced.nesting (h : Balanced t) : nesting t = 0 := by
  induction h with
  | nil => rfl
  | other ho hc _ ih => rw [nesting_cons, nesting_other ho hc, ih, Int.add_zero]
  | pair _ _ ihs iht =>
    rw [nesting_cons, nesting_append, nesting_cons (byte ')'), ihs, iht, nesting_open,
      nesting_close]
    rfl

theorem Balanced.nesting_take (h : Balanced t) (k : Nat) : 0 ≤ Prompt.nesting (t.take k) := by
  induction h generalizing k with
  | nil =>
    rw [List.take_nil]
    exact Int.le_refl 0
  | other ho hc _ ih =>
    cases k with
    | zero => exact Int.le_refl 0
    | succ k =>
      rw [List.take_succ_cons, nesting_cons, nesting_other ho hc, Int.zero_add]
      exact ih k
  | @pair s t hs _ ihs iht =>
    cases k with
    | zero => exact Int.le_refl 0
    | succ k =>
      rw [List.take_succ_cons, nesting_cons, nesting_open, List.take_append]
      rcases Nat.le_total k s.length with hk | hk
      · have hin := ihs k
        rw [Nat.sub_eq_zero_of_le hk, List.take_zero, List.append_nil]
        omega
      · rw [List.take_of_length_le hk, nesting_append, hs.nesting]
        cases k - s.length with
        | zero =>
          rw [List.take_zero]
          decide
        | succ j =>
          have hafter := iht j
          rw [List.take_succ_cons, nesting_cons, nesting_close]
          omega

theorem commas_append (d : Int) (p q : Text) :
    commas d (p ++ q) = commas d p + commas (d + nesting p) q := by
  induction p generalizing d with
  | nil => simp [commas]
  | cons b p ih =>
    rw [List.cons_append, commas, commas, nesting_cons]
    by_cases ho : b = byte '('
    · subst ho
      rw [if_pos (by decide), if_pos (by decide), ih, nesting_open, Int.add_assoc]
    · by_cases hc : b = byte ')'
      · subst hc
        rw [if_neg (by decide), if_pos (by decide), if_neg (by decide), if_pos (by decide), ih,
          nesting_close, Int.sub_eq_add_neg, Int.add_assoc]
      · simp only [beq_iff_eq, ho, hc, if_false, nesting_other ho hc, Int.zero_add, ih]
        split <;> omega

/-- The positions of the commas at which the depth is zero. -/
def level (d : Int) (t : Text) : Set Nat :=
  {k | t[k]? = some (byte ',') ∧ d + nesting (t.take k) = 0}

theorem level_finite (d : Int) (t : Text) : (level d t).Finite := by
  refine (Set.finite_lt_nat t.length).subset fun k hk => ?_
  obtain ⟨hlt, -⟩ := List.getElem?_eq_some_iff.1 hk.1
  exact hlt

theorem mem_level_succ (d : Int) (b : UInt8) (t : Text) (k : Nat) :
    k + 1 ∈ level d (b :: t) ↔ k ∈ level (d + nesting [b]) t := by
  simp only [level, Set.mem_ofPred_eq, List.getElem?_cons_succ, List.take_succ_cons,
    nesting_cons b (t.take k), Int.add_assoc]

theorem commas_eq (d : Int) (t : Text) : commas d t = (level d t).ncard := by
  induction t generalizing d with
  | nil =>
    have hempty : level d [] = ∅ := Set.eq_empty_of_forall_notMem fun k hk => by cases hk.1
    rw [hempty, Set.ncard_empty, commas]
  | cons b t ih =>
    have hsucc : Nat.succ '' level (d + nesting [b]) t ⊆ level d (b :: t) := by
      rintro _ ⟨k, hk, rfl⟩
      exact (mem_level_succ d b t k).2 hk
    have hcard : (Nat.succ '' level (d + nesting [b]) t).ncard =
        (level (d + nesting [b]) t).ncard :=
      Set.ncard_image_of_injective _ Nat.succ_injective
    have hsplit := commas_append d [b] t
    rw [List.singleton_append, ih, ← hcard] at hsplit
    rw [hsplit]
    have hzero : 0 ∈ level d (b :: t) ↔ b = byte ',' ∧ d = 0 := by simp [level]
    by_cases hcomma : b = byte ',' ∧ d = 0
    · have hset : level d (b :: t) = insert 0 (Nat.succ '' level (d + nesting [b]) t) := by
        apply Set.Subset.antisymm
        · intro k hk
          cases k with
          | zero => exact .inl rfl
          | succ k => exact .inr ⟨k, (mem_level_succ d b t k).1 hk, rfl⟩
        · exact Set.insert_subset (hzero.2 hcomma) hsucc
      rw [hset, Set.ncard_insert_of_notMem (by simp) ((level_finite _ t).image _)]
      obtain ⟨rfl, rfl⟩ := hcomma
      rw [Nat.add_comm]
      rfl
    · have hset : level d (b :: t) = Nat.succ '' level (d + nesting [b]) t := by
        refine Set.Subset.antisymm (fun k hk => ?_) hsucc
        cases k with
        | zero => exact absurd (hzero.1 hk) hcomma
        | succ k => exact ⟨k, (mem_level_succ d b t k).1 hk, rfl⟩
      have hnone : commas d [b] = 0 := by
        simp only [commas, Bool.and_eq_true, beq_iff_eq, if_neg hcomma, ite_self]
      rw [hset, hnone, Nat.zero_add]

theorem openParen?_close (d : Nat) (w : Text) :
    openParen? d (byte ')' :: w) = openParen? (d + 1) w := by
  cases d <;> rfl

theorem openParen?_other (ho : b ≠ byte '(') (hc : b ≠ byte ')') (d : Nat) (w : Text) :
    openParen? d (b :: w) = openParen? d w := by
  cases d <;> simp only [openParen?, beq_iff_eq, ho, hc, if_false]

theorem openParen?_balanced (h : Balanced t) (d : Nat) (w : Text) :
    openParen? d (t.reverse ++ w) = openParen? d w := by
  induction h generalizing d w with
  | nil => rfl
  | other ho hc _ ih =>
    rw [List.reverse_cons, List.append_assoc, ih, List.singleton_append, openParen?_other ho hc]
  | @pair s t _ _ ihs iht =>
    have hreverse : (byte '(' :: (s ++ byte ')' :: t)).reverse ++ w =
        t.reverse ++ byte ')' :: (s.reverse ++ byte '(' :: w) := by simp
    rw [hreverse, iht, openParen?_close, ihs]
    rfl

inductive Closing : Nat → Text → Prop where
  | balanced : Balanced t → Closing 0 t
  | more : Balanced s → Closing n t → Closing (n + 1) (s ++ byte ')' :: t)

theorem Closing.other (h : Closing n t) (ho : b ≠ byte '(') (hc : b ≠ byte ')') :
    Closing n (b :: t) := by
  cases h with
  | balanced h => exact .balanced (.other ho hc h)
  | more hs ht => exact .more (.other ho hc hs) ht

theorem Closing.pair (h : Closing n t) (hs : Balanced s) :
    Closing n (byte '(' :: (s ++ byte ')' :: t)) := by
  cases h with
  | balanced h => exact .balanced (.pair hs h)
  | @more u _ v hu hv =>
    have hjoin : byte '(' :: (s ++ byte ')' :: (u ++ byte ')' :: v)) =
        (byte '(' :: (s ++ byte ')' :: u)) ++ byte ')' :: v := by simp
    rw [hjoin]
    exact .more (.pair hs hu) hv

/-- The parenthesis at which the walk back stops is followed by what it walked over, which is
balanced with the text that it set out from. -/
theorem openParen?_some (h : openParen? d w = some r) (hu : Closing d u) :
    ∃ m, w = m ++ byte '(' :: r ∧ Balanced (m.reverse ++ u) := by
  induction w generalizing d u with
  | nil => cases h
  | cons b w ih =>
    have hback {d : Nat} (hstep : openParen? d w = some r) (hbu : Closing d (b :: u)) :
        ∃ m, b :: w = m ++ byte '(' :: r ∧ Balanced (m.reverse ++ u) := by
      obtain ⟨m, hw, hm⟩ := ih hstep hbu
      refine ⟨b :: m, congrArg _ hw, ?_⟩
      rwa [List.reverse_cons, List.append_assoc, List.singleton_append]
    by_cases hc : b = byte ')'
    · subst hc
      rw [openParen?_close] at h
      exact hback h (.more .nil hu)
    by_cases ho : b = byte '('
    · subst ho
      cases hu with
      | balanced hu =>
        cases h
        exact ⟨[], rfl, hu⟩
      | more hs ht => exact hback h (ht.pair hs)
    · rw [openParen?_other ho hc] at h
      exact hback h (hu.other ho hc)

theorem openParen?_iff (t r : Text) :
    openParen? 0 t.reverse = some r ↔ ∃ u, t = r.reverse ++ byte '(' :: u ∧ Balanced u := by
  constructor
  · intro h
    obtain ⟨m, ht, hm⟩ := openParen?_some h (.balanced .nil)
    rw [List.append_nil] at hm
    refine ⟨m.reverse, ?_, hm⟩
    rw [← List.reverse_reverse t, ht]
    simp
  · rintro ⟨u, rfl, hu⟩
    have hreverse : (r.reverse ++ byte '(' :: u).reverse = u.reverse ++ byte '(' :: r := by simp
    rw [hreverse, openParen?_balanced hu, openParen?]
    rfl

theorem OpenAt.take (h : OpenAt t i j) : t.take j = t.take i ++ byte '(' :: interior t i j := by
  obtain ⟨hlt, hget⟩ := List.getElem?_eq_some_iff.1 h.paren
  have hi : i < (t.take j).length := by
    rw [List.length_take]
    exact Nat.lt_min.2 ⟨h.before, hlt⟩
  have hcut := List.take_append_drop i (t.take j)
  rw [List.drop_eq_getElem_cons hi, List.getElem_take, hget, List.take_take,
    Nat.min_eq_left h.before.le] at hcut
  exact hcut.symm

theorem OpenAt.of_take (h : t.take j = s ++ byte '(' :: u) (hu : Balanced u) :
    OpenAt t s.length j := by
  have hlen : s.length < j := by
    have hle := List.length_take_le j t
    rw [h, List.length_append, List.length_cons] at hle
    omega
  refine ⟨hlen, ?_, ?_⟩
  · rw [← List.getElem?_take_of_lt hlen, h, List.getElem?_append_right (Nat.le_refl _),
      Nat.sub_self]
    rfl
  · rw [interior, h, ← List.drop_drop, List.drop_left]
    exact hu

theorem OpenAt.found (h : OpenAt t i j) :
    openParen? 0 (t.take j).reverse = some (t.take i).reverse :=
  (openParen?_iff _ _).2 ⟨interior t i j, by rw [List.reverse_reverse, ← h.take], h.balanced⟩

theorem OpenAt.lt_length (h : OpenAt t i j) : i < t.length :=
  (List.getElem?_eq_some_iff.1 h.paren).1

theorem OpenAt.unique (h : OpenAt t i k) (h' : OpenAt t j k) : i = j := by
  have hreverse := Option.some.inj (h.found.symm.trans h'.found)
  have hlen := congrArg List.length hreverse
  rw [List.length_reverse, List.length_reverse, List.length_take_of_le h.lt_length.le,
    List.length_take_of_le h'.lt_length.le] at hlen
  exact hlen

theorem OpenAt.cons (h : OpenAt t i j) (b : UInt8) : OpenAt (b :: t) (i + 1) (j + 1) :=
  ⟨Nat.succ_lt_succ h.before, h.paren, h.balanced⟩

theorem OpenAt.append (h : OpenAt t i j) (s : Text) :
    OpenAt (s ++ t) (s.length + i) (s.length + j) := by
  induction s with
  | nil => simpa using h
  | cons b s ih =>
    have hcons := ih.cons b
    rwa [Nat.add_right_comm, Nat.add_right_comm _ j] at hcons

/-- A position at which a parenthesis of a balanced text is open lies within a pair. -/
theorem Balanced.enclosed (h : Balanced t) (hk : t[k]? = some (byte ','))
    (hopen : Prompt.nesting (t.take k) ≠ 0) :
    ∃ i j, OpenAt t i j ∧ t[j]? = some (byte ')') ∧ i < k ∧ k < j := by
  induction h generalizing k with
  | nil => cases hk
  | @other b t ho hc _ ih =>
    cases k with
    | zero => exact absurd rfl hopen
    | succ k =>
      rw [List.take_succ_cons, nesting_cons, nesting_other ho hc, Int.zero_add] at hopen
      obtain ⟨i, j, hij, hj, hik, hkj⟩ := ih hk hopen
      exact ⟨i + 1, j + 1, hij.cons b, hj, Nat.succ_lt_succ hik, Nat.succ_lt_succ hkj⟩
  | @pair s t hs _ ihs iht =>
    have hwhole : byte '(' :: (s ++ byte ')' :: t) = (byte '(' :: (s ++ [byte ')'])) ++ t := by
      simp
    have hlen : (byte '(' :: (s ++ [byte ')'])).length = s.length + 2 := by simp
    rcases Nat.lt_or_ge k (s.length + 2) with hlt | hge
    · have hclose : (byte '(' :: (s ++ byte ')' :: t))[s.length + 1]? = some (byte ')') := by
        simp
      have hpos : k ≠ 0 := by
        rintro rfl
        cases hk
      have hne : k ≠ s.length + 1 := by
        rintro rfl
        rw [hclose] at hk
        cases hk
      refine ⟨0, s.length + 1, ?_, hclose, by omega, by omega⟩
      refine .of_take (s := []) (u := s) ?_ hs
      rw [List.take_succ_cons, List.take_left, List.nil_append]
    · obtain ⟨n, rfl⟩ : ∃ n, k = s.length + 2 + n := ⟨k - (s.length + 2), by omega⟩
      rw [hwhole, ← hlen, List.getElem?_append_right (Nat.le_add_right _ _),
        Nat.add_sub_cancel_left] at hk
      rw [hwhole, ← hlen, List.take_length_add_append, nesting_append, nesting_cons,
        nesting_append, hs.nesting, nesting_open, nesting_close] at hopen
      obtain ⟨i, j, hij, hj, hik, hkj⟩ := iht hk (by omega)
      rw [hwhole, ← hlen]
      refine ⟨_, _, hij.append _, ?_, Nat.add_lt_add_left hik _, Nat.add_lt_add_left hkj _⟩
      rw [List.getElem?_append_right (Nat.le_add_right _ _), Nat.add_sub_cancel_left]
      exact hj

theorem Balanced.nesting_pos (h : Balanced t) (hij : OpenAt t i j) (hik : i < k) (hkj : k < j) :
    0 < Prompt.nesting (t.take k) := by
  have hbefore := h.nesting_take i
  have hinside := hij.balanced.nesting_take (k - (i + 1))
  have hcut : t.take k = t.take i ++ byte '(' :: (interior t i j).take (k - (i + 1)) := by
    have htake := congrArg (List.take k) hij.take
    rw [List.take_take, Nat.min_eq_left hkj.le, List.take_append, List.take_take,
      Nat.min_eq_right hik.le, List.length_take_of_le hij.lt_length.le] at htake
    rw [htake]
    congr 1
    obtain ⟨n, rfl⟩ : ∃ n, k = i + 1 + n := ⟨k - (i + 1), by omega⟩
    rw [show i + 1 + n - i = n + 1 by omega, List.take_succ_cons, Nat.add_sub_cancel_left]
  rw [hcut, nesting_append, nesting_cons, nesting_open]
  omega

/-- In a balanced text the depth is zero at the commas outside every pair. -/
theorem Balanced.separates (h : Balanced t) : {k | Separates t k} = level 0 t := by
  ext k
  simp only [Separates, level, Set.mem_ofPred_eq, Int.zero_add]
  refine and_congr_right fun hk => ⟨fun hout => ?_, fun hzero i j hij _ hin => ?_⟩
  · by_contra hopen
    obtain ⟨i, j, hij, hj, hin⟩ := h.enclosed hk hopen
    exact hout i j hij hj hin
  · have hpos := h.nesting_pos hij hin.1 hin.2
    omega

theorem RunAt.not_before (h : RunAt t start stop) (h' : RunAt t start' stop)
    (hstop : stop ≤ t.length) : ¬ start < start' := by
  intro hlt
  have hle := h'.le
  have hlast : t[start' - 1]? = (t.take start').getLast? := by
    rw [List.getLast?_eq_getElem?, List.length_take_of_le (by omega),
      List.getElem?_take_of_lt (by omega)]
  obtain ⟨b, hb⟩ : ∃ b, t[start' - 1]? = some b :=
    ⟨_, List.getElem?_eq_getElem (by omega)⟩
  have hmem : b ∈ (t.take stop).drop start := by
    refine List.mem_of_getElem? (i := start' - 1 - start) ?_
    rw [List.getElem?_drop, List.getElem?_take_of_lt (by omega), ← hb]
    congr 1
    omega
  have hno := h'.maximal b (hlast ▸ hb)
  rw [h.word b hmem] at hno
  cases hno

theorem RunAt.unique (h : RunAt t start stop) (h' : RunAt t start' stop) (hstop : stop ≤ t.length) :
    start = start' := by
  have hle := h.not_before h' hstop
  have hge := h'.not_before h hstop
  omega

theorem Word.at_end (t : Text) :
    RunAt t (Word.at t t.length).start t.length ∧
      (Word.at t t.length).text = t.drop (Word.at t t.length).start := by
  obtain ⟨before, left, right, after, ht, hclamp, hword, hall⟩ := Word.at_cut t t.length
  have hend : right ++ after = [] := by
    have hlen : clamp t t.length = t.length := by simp [clamp]
    rw [hlen] at hclamp
    have hwhole := congrArg List.length ht
    rw [List.append_assoc, List.length_append, ← hclamp] at hwhole
    exact List.length_eq_zero_iff.1 (by omega)
  obtain ⟨rfl, rfl⟩ := List.append_eq_nil_iff.1 hend
  have hmaximal := (Word.at_maximal t t.length).1
  have hle := (Word.at_bounds t t.length)
  simp only [List.append_nil] at ht hword hall
  rw [hword] at hmaximal hle ⊢
  dsimp only at hmaximal hle ⊢
  have hdrop : t.drop before.length = left := by rw [ht, List.drop_left]
  refine ⟨⟨by omega, ?_, hmaximal⟩, hdrop.symm⟩
  rw [List.take_length, hdrop]
  exact hall

theorem RunAt.of_take (h : RunAt (t.take stop) start (t.take stop).length)
    (hstop : stop ≤ t.length) : RunAt t start stop := by
  rw [List.length_take_of_le hstop] at h
  obtain ⟨hle, hword, hmaximal⟩ := h
  rw [List.take_take, Nat.min_self] at hword
  rw [List.take_take, Nat.min_eq_left hle] at hmaximal
  exact ⟨hle, hword, hmaximal⟩

theorem Word.at_take (t : Text) {stop : Nat} (hstop : stop ≤ t.length) :
    ∃ start, RunAt t start stop ∧
      (Word.at (t.take stop) (t.take stop).length).text = (t.take stop).drop start := by
  obtain ⟨hrun, htext⟩ := Word.at_end (t.take stop)
  exact ⟨_, hrun.of_take hstop, htext⟩

theorem Word.name?_iff (w : Word) (name : Text) :
    w.name? = some name ↔ name = w.text ∧ ∃ b rest, name = b :: rest ∧ Text.isDigit b = false := by
  unfold Word.name?
  cases w.text with
  | nil =>
    refine ⟨nofun, ?_⟩
    rintro ⟨rfl, b, rest, h, -⟩
    cases h
  | cons b rest =>
    by_cases hb : Text.isDigit b = true
    · simp only [if_pos hb, reduceCtorEq, false_iff]
      rintro ⟨rfl, c, u, h, hc⟩
      cases h
      rw [hb] at hc
      cases hc
    · simp only [if_neg hb, Option.some.injEq]
      refine ⟨fun h => ⟨h.symm, b, rest, h.symm, by simpa using hb⟩, fun h => h.1.symm⟩

/-- What is told of a call is its name and how many commas separate its arguments so far. -/
theorem Call.at?_open (t : Text) {cursor : Int} (h : OpenAt t o (clamp t cursor)) :
    Call.at? t cursor =
      (Word.at (t.take o) (t.take o).length).name?.map fun name =>
        ⟨name, {k | Separates (interior t o (clamp t cursor)) k}.ncard⟩ := by
  have hdrop : (t.take (clamp t cursor)).drop ((t.take o).length + 1) =
      interior t o (clamp t cursor) := by
    rw [List.length_take_of_le h.lt_length.le]
    rfl
  unfold Call.at?
  dsimp only
  rw [h.found, Option.bind_eq_bind, Option.bind_some, List.reverse_reverse, hdrop, commas_eq,
    h.balanced.separates]
  cases (Word.at (t.take o) (t.take o).length).name? <;> rfl

theorem Call.exists_open {t : Text} {cursor : Int} (h : Call.at? t cursor = some call) :
    ∃ o, OpenAt t o (clamp t cursor) := by
  unfold Call.at? at h
  obtain ⟨r, hr, -⟩ := Option.bind_eq_some_iff.1 h
  obtain ⟨u, hu, hbalanced⟩ := (openParen?_iff _ _).1 hr
  exact ⟨_, .of_take hu hbalanced⟩

/-- A call is told exactly if a parenthesis is open at the cursor and a name precedes it. There is
one such parenthesis at most; the name is the maximal run of word bytes before it, and the argument
is the number of commas after it that no pair of parentheses encloses. While they are counted, the
depth is never negative. -/
theorem Call.enclosing_exact (t : Text) (cursor : Int) :
    (∀ call, Call.at? t cursor = some call ↔
      ∃ o start, OpenAt t o (clamp t cursor) ∧ RunAt t start o ∧
        call.name = (t.take o).drop start ∧
        (∃ b rest, call.name = b :: rest ∧ Text.isDigit b = false) ∧
        call.argument = {k | Separates (interior t o (clamp t cursor)) k}.ncard) ∧
      (∀ o o', OpenAt t o (clamp t cursor) → OpenAt t o' (clamp t cursor) → o = o') ∧
      ∀ o p q, OpenAt t o (clamp t cursor) → interior t o (clamp t cursor) = p ++ q →
        commas 0 (p ++ q) = commas 0 p + commas (nesting p) q ∧ 0 ≤ nesting p := by
  refine ⟨fun call => ⟨fun h => ?_, ?_⟩, fun o o' h h' => h.unique h', fun o p q h hpq => ?_⟩
  · obtain ⟨o, ho⟩ := exists_open h
    obtain ⟨start, hrun, htext⟩ := Word.at_take t ho.lt_length.le
    rw [Call.at?_open t ho, Option.map_eq_some_iff] at h
    obtain ⟨name, hname, rfl⟩ := h
    obtain ⟨hword, hfirst⟩ := (Word.name?_iff _ _).1 hname
    exact ⟨o, start, ho, hrun, hword.trans htext, hfirst, rfl⟩
  · rintro ⟨o, start, ho, hrun, hname, hfirst, hargument⟩
    obtain ⟨start', hrun', htext⟩ := Word.at_take t ho.lt_length.le
    obtain rfl := hrun.unique hrun' ho.lt_length.le
    rw [Call.at?_open t ho, (Word.name?_iff _ call.name).2 ⟨hname.trans htext.symm, hfirst⟩,
      Option.map_some, ← hargument]
  · have hdepth := h.balanced.nesting_take p.length
    rw [hpq, List.take_left] at hdepth
    refine ⟨?_, hdepth⟩
    rw [commas_append, Int.zero_add]

example : Call.at? "g(f(a, b), c" 12 = some ⟨"g", 1⟩ := by decide +kernel

end LoxLang.Prompt
