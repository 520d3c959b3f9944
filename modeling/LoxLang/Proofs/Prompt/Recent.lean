import LoxLang.Prompt.History
import Mathlib.Data.List.Dedup
import Mathlib.Data.List.DropRight
import Mathlib.Data.List.Induction

namespace LoxLang.Prompt.History
set_option autoImplicit true

theorem dedup_concat [DecidableEq α] (l : List α) (a : α) :
    (l ++ [a]).dedup = l.dedup.erase a ++ [a] := by
  induction l with
  | nil => rfl
  | cons b l ih =>
    rw [List.cons_append, List.dedup_cons, List.dedup_cons, ih]
    by_cases hb : b ∈ l
    · rw [if_pos hb, if_pos (List.mem_append_left _ hb)]
    · by_cases ha : b = a
      · subst ha
        have hfresh : b ∉ l.dedup := fun h => hb (List.mem_dedup.1 h)
        rw [if_pos List.mem_concat_self, if_neg hb, List.erase_cons_head,
          List.erase_of_not_mem hfresh]
      · have hnew : b ∉ l ++ [a] := by
          intro h
          rcases List.mem_append.1 h with h | h
          · exact hb h
          · exact ha (List.mem_singleton.1 h)
        rw [if_neg hnew, if_neg hb, List.erase_cons_tail (by simpa using ha), List.cons_append]

theorem rtake_append {l : List α} (h : n ≤ l.length) (k : List α) : (k ++ l).rtake n = l.rtake n := by
  have hlength : (k ++ l).length - n = k.length + (l.length - n) := by
    rw [List.length_append]
    omega
  rw [List.rtake, List.rtake, hlength, List.drop_append]
  simp

theorem rtake_of_length_le {l : List α} (h : l.length ≤ n) : l.rtake n = l := by
  rw [List.rtake, Nat.sub_eq_zero_of_le h, List.drop_zero]

theorem length_rtake (l : List α) (n : Nat) : (l.rtake n).length = min n l.length := by
  rw [List.rtake, List.length_drop]
  omega

/-- Among distinct elements it makes no difference whether the older ones are forgotten before or
after one of them is taken out. -/
theorem rtake_erase [DecidableEq α] {l : List α} (h : l.Nodup) (a : α) (n : Nat) :
    ((l.rtake (n + 1)).erase a).rtake n = (l.erase a).rtake n := by
  rcases Nat.le_total l.length (n + 1) with hle | hlt
  · rw [rtake_of_length_le hle]
  · obtain ⟨old, hold⟩ : ∃ old, l = old ++ l.rtake (n + 1) :=
      ⟨_, (List.take_append_drop (l.length - (n + 1)) l).symm⟩
    have hlength : (l.rtake (n + 1)).length = n + 1 := by
      rw [length_rtake]
      omega
    generalize l.rtake (n + 1) = kept at hold hlength
    subst hold
    by_cases ha : a ∈ kept
    · have hnot : a ∉ old := fun hm => (List.nodup_append.1 h).2.2 a hm a ha rfl
      have herased : (kept.erase a).length = n := by
        rw [List.length_erase_of_mem ha, hlength, Nat.add_sub_cancel]
      rw [List.erase_append_right _ hnot, rtake_append (Nat.le_of_eq herased.symm)]
    · rw [List.erase_of_not_mem ha]
      have hle : n ≤ kept.length := by omega
      by_cases hm : a ∈ old
      · rw [List.erase_append_left _ hm, rtake_append hle]
      · have hnone : a ∉ old ++ kept := by
          intro hall
          rcases List.mem_append.1 hall with hall | hall
          · exact hm hall
          · exact ha hall
        rw [List.erase_of_not_mem hnone, rtake_append hle]

/-- A line that is entered while this is at the place of the file. -/
structure Addition where
  file : File
  line : Text
  mode : Mode

/-- The entry that a line makes, unless it is blank. -/
def Addition.entry? (a : Addition) : Option Entry :=
  if a.line.trim.isEmpty then none else some ⟨a.line.trim, a.mode⟩

/-- The history after a line is added, whether or not it could be written to the file. -/
def enter (h : History) (a : Addition) : History := ({ h with file := a.file }.add a.line a.mode).2

/-- The history after lines are added in turn. -/
def enterAll (h : History) (as : List Addition) : History := as.foldl enter h

theorem enterAll_concat (h : History) (as : List Addition) (a : Addition) :
    h.enterAll (as ++ [a]) = (h.enterAll as).enter a := by
  rw [enterAll, List.foldl_append, List.foldl_cons, List.foldl_nil, ← enterAll]

theorem enter_blank {a : Addition} (ha : a.entry? = none) (h : History) :
    (h.enter a).entries = h.entries := by
  unfold Addition.entry? at ha
  split at ha
  · rename_i hblank
    rw [enter, add]
    simp [hblank]
  · cases ha

/-- A line moves to the end, and what does not fit any more is dropped from the front. -/
theorem enter_entries {a : Addition} (ha : a.entry? = some e) (h : History)
    (hdistinct : h.entries.Nodup) (hfits : h.entries.length ≤ capacity) :
    (h.enter a).entries = (h.entries.erase e ++ [e]).rtake capacity := by
  unfold Addition.entry? at ha
  split at ha
  · cases ha
  · rename_i hline
    cases ha
    rw [enter, add]
    dsimp only
    generalize (⟨a.line.trim, a.mode⟩ : Entry) = e
    by_cases hlast : h.entries.getLast? = some e
    · -- The newest entry is added again: it is taken out and put back where it was.
      obtain ⟨front, hfront⟩ := List.getLast?_eq_some_iff.1 hlast
      have hnot : e ∉ front := by
        intro hm
        rw [hfront] at hdistinct
        exact (List.nodup_append.1 hdistinct).2.2 e hm e (List.mem_singleton_self e) rfl
      have hsame : h.entries.erase e ++ [e] = h.entries := by
        rw [hfront, List.erase_append_right _ hnot, List.erase_cons_head, List.append_nil]
      rw [hsame, rtake_of_length_le hfits]
      simp [hlast]
    · simp only [hline, hlast, decide_false, Bool.or_self, Bool.false_eq_true, if_false]
      rfl

/-- The entries that lines make, in the order in which they are added. -/
def entered (as : List Addition) : List Entry := as.filterMap Addition.entry?

theorem entered_concat (as : List Addition) (a : Addition) :
    entered (as ++ [a]) = entered as ++ a.entry?.toList := by
  rw [entered, List.filterMap_append]
  cases h : a.entry? with
  | none => simp [entered, h]
  | some e => simp [entered, h]

theorem entries_eq (file : File) (as : List Addition) :
    (enterAll ⟨[], file⟩ as).entries = (entered as).dedup.rtake capacity := by
  induction as using List.reverseRecOn with
  | nil => rfl
  | append_singleton as a ih =>
    have hdistinct := List.nodup_dedup (entered as)
    have hcapacity : capacity = 999 + 1 := rfl
    rw [entered_concat, enterAll_concat]
    cases ha : a.entry? with
    | none =>
      rw [enter_blank ha, ih, Option.toList_none, List.append_nil]
    | some e =>
      have hkept : (enterAll ⟨[], file⟩ as).entries.Nodup := by
        rw [ih]
        exact hdistinct.sublist (List.drop_sublist _ _)
      have hfits : (enterAll ⟨[], file⟩ as).entries.length ≤ capacity := by
        rw [ih, length_rtake]
        exact Nat.min_le_left _ _
      rw [enter_entries ha _ hkept hfits, ih, Option.toList_some, dedup_concat, hcapacity,
        List.rtake_concat_succ, List.rtake_concat_succ, rtake_erase hdistinct]

/-- The history holds the lines that were added and are not blank, each at its last occurrence, and
of these the last that fit, whatever becomes of the file. So no entry stands twice, there are never
too many, and the newest is the last line added that is not blank. -/
theorem entries_enterAll (file : File) (as : List Addition) :
    (enterAll ⟨[], file⟩ as).entries = (entered as).dedup.rtake capacity ∧
      (enterAll ⟨[], file⟩ as).entries.Nodup ∧
      (enterAll ⟨[], file⟩ as).entries.length ≤ 1000 ∧
      (enterAll ⟨[], file⟩ as).entries.getLast? = (entered as).getLast? := by
  have hcapacity : capacity = 999 + 1 := rfl
  rw [entries_eq]
  refine ⟨rfl, ?_, ?_, ?_⟩
  · exact (List.nodup_dedup _).sublist (List.drop_sublist _ _)
  · rw [length_rtake]
    exact Nat.min_le_left _ _
  · cases List.eq_nil_or_concat' (entered as) with
    | inl hnone =>
      rw [hnone]
      rfl
    | inr hsome =>
      obtain ⟨front, e, hlast⟩ := hsome
      rw [hlast, dedup_concat, hcapacity, List.rtake_concat_succ, List.getLast?_concat,
        List.getLast?_concat]

/-- A blank line leaves nothing, and a line that comes again moves to the end, in its mode. -/
example : (enterAll ⟨[], .unreachable⟩ [⟨.missing, "one ", .eval⟩, ⟨.directory, "two", .eval⟩,
    ⟨.missing, " ", .eval⟩, ⟨.missing, "one", .command⟩, ⟨.directory, "one", .eval⟩]).entries =
      [⟨"two", .eval⟩, ⟨"one", .command⟩, ⟨"one", .eval⟩] := by decide +kernel

end LoxLang.Prompt.History
