import LoxLang.Proofs.Prompt.Offered

namespace LoxLang
set_option autoImplicit true

/-- Every byte is a character that takes one column. -/
def Text.Narrow (t : Text) : Prop := ∀ b ∈ t, 0x20 ≤ b ∧ b < 0x7F

namespace Text

theorem AllWord.narrow {t : Text} (h : t.AllWord) : t.Narrow := by
  intro b hb
  obtain ⟨hlow, hhigh⟩ := Prompt.isWord_range (h b hb)
  exact ⟨UInt8.le_iff_toNat_le.2 (Nat.le_trans (by decide) hlow),
    UInt8.lt_iff_toNat_lt.2 (Nat.lt_of_le_of_lt hhigh (by decide))⟩

theorem Narrow.append {s t : Text} (hs : s.Narrow) (ht : t.Narrow) : Text.Narrow (s ++ t) :=
  fun b hb => (List.mem_append.1 hb).elim (hs b) (ht b)

theorem join_cons (sep t : Text) (ts : List Text) :
    join sep (t :: ts) = t ++ ts.flatMap (sep ++ ·) := by
  induction ts generalizing t with
  | nil => simp [join]
  | cons u ts ih =>
    have hcons : join sep (t :: u :: ts) = t ++ sep ++ join sep (u :: ts) := by simp [join]
    rw [hcons, ih, List.flatMap_cons, List.append_assoc, List.append_assoc]

end Text

theorem Columns.ofRest_narrow {t : Text} (h : t.Narrow) (hn : t.length ≤ n) :
    ofRest n .ground t = t.length := by
  induction t generalizing n with
  | nil => cases n <;> rfl
  | cons b t ih =>
    cases n with
    | zero => exact absurd hn (Nat.not_succ_le_zero _)
    | succ n =>
      obtain ⟨hlow, hhigh⟩ := h b List.mem_cons_self
      have hstep : Control.step .ground b = .print := by
        unfold Control.step
        rw [if_pos (by rw [decide_eq_true hlow, decide_eq_true hhigh]; rfl)]
        rfl
      rw [ofRest, hstep]
      dsimp only
      rw [ih (fun c hc => h c (List.mem_cons_of_mem b hc)) (Nat.le_of_succ_le_succ hn),
        List.length_cons, Nat.add_comm]

theorem Screen.width_narrow {t : Text} (h : t.Narrow) : width t = t.length := by
  have hline : Text.newline ∉ t := fun hmem => absurd (h _ hmem).1 (by decide)
  have hlines : t.lines = [t] := List.splitOn_eq_singleton hline
  rw [width, hlines, List.map_singleton, Columns.ofText,
    Columns.ofRest_narrow h (Nat.le_succ t.length)]
  exact Nat.zero_max _

namespace Prompt

theorem separator_narrow : separator.Narrow := by
  unfold Text.Narrow
  decide +kernel

theorem ellipsis_narrow : ellipsis.Narrow := by
  unfold Text.Narrow
  decide +kernel

theorem candidate_narrow {c : Text} (h : c.Narrow) (s : Session) : (candidate s c).Narrow := by
  refine h.append ?_
  split
  · unfold Text.Narrow
    decide +kernel
  · exact fun b hb => absurd hb List.not_mem_nil

def rowOf (cs : List Text) : Text := Text.join separator cs

theorem rowOf_singleton (c : Text) : rowOf [c] = c := by
  rw [rowOf, Text.join_cons, List.flatMap_nil, List.append_nil]

theorem rowOf_snoc {cs : List Text} (h : cs ≠ []) (c : Text) :
    rowOf (cs ++ [c]) = rowOf cs ++ separator ++ c := by
  obtain ⟨d, ds, rfl⟩ := List.exists_cons_of_ne_nil h
  rw [rowOf, rowOf, List.cons_append, Text.join_cons, Text.join_cons, List.flatMap_append]
  simp

theorem rowOf_narrow {cs : List Text} (h : ∀ c ∈ cs, Text.Narrow c) : (rowOf cs).Narrow := by
  cases cs with
  | nil => exact fun b hb => absurd hb List.not_mem_nil
  | cons c cs =>
    rw [rowOf, Text.join_cons]
    refine (h c List.mem_cons_self).append fun b hb => ?_
    obtain ⟨d, hd, hb⟩ := List.mem_flatMap.1 hb
    exact separator_narrow.append (h d (List.mem_cons_of_mem c hd)) b hb

theorem length_rowOf_take_succ {cs : List Text} (hk : 0 < k) (h : k < cs.length) :
    (rowOf (cs.take (k + 1))).length = (rowOf (cs.take k)).length + 2 + cs[k].length := by
  have hne : cs.take k ≠ [] := by
    rw [← List.length_pos_iff, List.length_take]
    omega
  rw [List.take_succ_eq_append_getElem h, rowOf_snoc hne, List.length_append, List.length_append]
  rfl

theorem length_rowOf_mono (cs : List Text) (h : i ≤ j) :
    (rowOf (cs.take i)).length ≤ (rowOf (cs.take j)).length := by
  induction h with
  | refl => exact Nat.le_refl _
  | @step j h ih =>
    refine Nat.le_trans ih ?_
    by_cases hj : j < cs.length
    · rcases Nat.eq_zero_or_pos j with rfl | hpos
      · exact Nat.zero_le _
      · rw [length_rowOf_take_succ hpos hj]
        omega
    · rw [List.take_of_length_le (Nat.le_of_not_lt hj),
        List.take_of_length_le (Nat.le_succ_of_le (Nat.le_of_not_lt hj))]

/-- What follows the completions on a line: as many more as leave room for an ellipsis, and then that
ellipsis unless only one is left. -/
theorem barRest_eq {shown : List Text} (hshown : shown ≠ []) (width : Int) {rest : List Text}
    (h : ∀ c ∈ rest, Text.Narrow c) : ∃ n ≤ rest.length,
    rowOf shown ++ barRest width (rowOf shown).length rest = rowOf (shown ++ rest.take n) ++
        (if n < rest.length then separator ++ ellipsis else []) ∧
      (n < rest.length → n + 1 < rest.length ∧
        width < (rowOf (shown ++ rest.take (n + 1))).length + 3) ∧
      ∀ m, 0 < m → m ≤ n → m < rest.length →
        ((rowOf (shown ++ rest.take m)).length : Int) + 3 ≤ width := by
  induction rest generalizing shown with
  | nil => exact ⟨0, Nat.le_refl 0, by simp [barRest], by simp, by simp⟩
  | cons c rest ih =>
    obtain ⟨hc, hrest⟩ := List.forall_mem_cons.1 h
    have hsep : Screen.width separator = 2 := Screen.width_narrow separator_narrow
    have hell : Screen.width ellipsis = 3 := Screen.width_narrow ellipsis_narrow
    have hlength : (rowOf (shown ++ [c])).length = (rowOf shown).length + 2 + c.length := by
      rw [rowOf_snoc hshown, List.length_append, List.length_append]
      rfl
    have hused : ((rowOf shown).length : Int) + (Screen.width c + Screen.width separator) =
        (rowOf (shown ++ [c])).length := by
      rw [hlength, hsep, Screen.width_narrow hc]
      omega
    rw [barRest, hused, hell]
    split
    · rename_i hover
      rw [Bool.and_eq_true, decide_eq_true_eq, Bool.not_eq_true', List.isEmpty_eq_false_iff,
        ← List.length_pos_iff] at hover
      refine ⟨0, Nat.zero_le _, by simp, fun _ => ⟨?_, ?_⟩, fun m hm hm' => absurd hm ?_⟩
      · rw [List.length_cons]
        omega
      · simpa using hover.1
      · omega
    · rename_i hroom
      have hne : shown ++ [c] ≠ [] := List.append_ne_nil_of_right_ne_nil _ (List.cons_ne_nil c [])
      obtain ⟨n, hn, hbar, hmore, hfits⟩ := ih hne hrest
      have htake (k : Nat) : shown ++ (c :: rest).take (k + 1) = shown ++ [c] ++ rest.take k := by
        simp
      refine ⟨n + 1, Nat.succ_le_succ hn, ?_, fun hlt => ?_, fun m hm hle hlt => ?_⟩
      · rw [htake, List.length_cons]
        simp only [Nat.add_lt_add_iff_right]
        rw [← hbar, rowOf_snoc hshown]
        simp only [List.append_assoc]
      · obtain ⟨hnext, hover⟩ := hmore (Nat.lt_of_succ_lt_succ hlt)
        exact ⟨Nat.succ_lt_succ hnext, htake (n + 1) ▸ hover⟩
      · obtain ⟨m, rfl⟩ := Nat.exists_eq_succ_of_ne_zero (Nat.ne_of_gt hm)
        rw [Nat.succ_eq_add_one, htake]
        rcases Nat.eq_zero_or_pos m with rfl | hpos
        · have hmany : rest.isEmpty = false := by
            rw [List.isEmpty_eq_false_iff, ← List.length_pos_iff]
            exact Nat.lt_of_succ_lt_succ hlt
          rw [hmany, Bool.not_false, Bool.and_true, decide_eq_true_eq, not_lt] at hroom
          simpa using hroom
        · exact hfits m hpos (Nat.le_of_succ_le_succ hle) (Nat.lt_of_succ_lt_succ hlt)

theorem Offering.narrow {p : Prompt} (h : p.Offering) : ∀ c ∈ p.found, c.Narrow :=
  fun c hc => (h.words c hc).narrow

/-- The first completions as the line shows them. -/
def row (p : Prompt) (n : Nat) : Text := rowOf ((p.found.take n).map (candidate p.session))

theorem candidates_narrow {p : Prompt} (h : ∀ c ∈ p.found, Text.Narrow c) :
    ∀ c ∈ p.found.map (candidate p.session), Text.Narrow c := by
  intro c hc
  obtain ⟨d, hd, rfl⟩ := List.mem_map.1 hc
  exact candidate_narrow (h d hd) p.session

theorem row_narrow {p : Prompt} (h : ∀ c ∈ p.found, Text.Narrow c) (n : Nat) :
    (p.row n).Narrow :=
  rowOf_narrow fun c hc => candidates_narrow h c (List.mem_of_mem_take (List.map_take ▸ hc))

theorem width_row {p : Prompt} (h : ∀ c ∈ p.found, Text.Narrow c) (n : Nat) :
    Screen.width (p.row n) = (p.row n).length :=
  Screen.width_narrow (row_narrow h n)

theorem length_row_mono (p : Prompt) (h : i ≤ j) : (p.row i).length ≤ (p.row j).length := by
  rw [row, row, List.map_take, List.map_take]
  exact length_rowOf_mono _ h

theorem length_row_succ (p : Prompt) (hk : 0 < k) (h : k < p.found.length) :
    (p.row k).length + 2 ≤ (p.row (k + 1)).length := by
  rw [row, row, List.map_take, List.map_take,
    length_rowOf_take_succ hk (by rw [List.length_map]; exact h)]
  exact Nat.le_add_right _ _

theorem row_one {p : Prompt} (h : p.found = c :: rest) : p.row 1 = candidate p.session c := by
  rw [row, h, List.take_succ_cons, List.take_zero, List.map_singleton, rowOf_singleton]

/-- The line shows the completions until one, not the last, leaves no room for an ellipsis. -/
theorem bar_eq {p : Prompt} (hnarrow : ∀ c ∈ p.found, Text.Narrow c) (hwidth : 0 < p.width)
    (hfound : 0 < p.found.length) : ∃ n, 0 < n ∧ n ≤ p.found.length ∧
      p.bar = p.row n ++ (if n < p.found.length then separator ++ ellipsis else []) ∧
      (n < p.found.length →
        n + 1 < p.found.length ∧ p.width < (p.row (n + 1)).length + 3) ∧
      ∀ m, 1 < m → m ≤ n → m < p.found.length → ((p.row m).length : Int) + 3 ≤ p.width := by
  obtain ⟨c, rest, hcons⟩ := List.exists_cons_of_length_pos hfound
  have hcandidates := candidates_narrow hnarrow
  rw [hcons, List.map_cons] at hcandidates
  obtain ⟨hc, hrest⟩ := List.forall_mem_cons.1 hcandidates
  have hrow (k : Nat) : p.row (k + 1) =
      rowOf ([candidate p.session c] ++ (rest.map (candidate p.session)).take k) := by
    rw [row, hcons, List.take_succ_cons, List.map_cons, List.map_take]
    rfl
  obtain ⟨n, hn, hbar, hmore, hfits⟩ :=
    barRest_eq (List.cons_ne_nil (candidate p.session c) []) p.width hrest
  simp only [List.length_map, ← hrow] at hn hbar hmore hfits
  rw [rowOf_singleton] at hbar
  rw [hcons, List.length_cons]
  refine ⟨n + 1, Nat.succ_pos n, Nat.succ_le_succ hn, ?_, fun hlt => ?_, fun m hm hle hlt => ?_⟩
  · simp only [Nat.add_lt_add_iff_right]
    rw [bar, if_neg (not_le.2 hwidth), hcons, List.map_cons, ← hbar, ← Screen.width_narrow hc]
  · obtain ⟨hnext, hover⟩ := hmore (Nat.lt_of_succ_lt_succ hlt)
    exact ⟨Nat.succ_lt_succ hnext, hover⟩
  · obtain ⟨m, rfl⟩ := Nat.exists_eq_succ_of_ne_zero (Nat.ne_of_gt (Nat.lt_of_succ_lt hm))
    exact hfits m (Nat.lt_of_succ_lt_succ hm) (Nat.le_of_succ_le_succ hle)
      (Nat.lt_of_succ_lt_succ hlt)

/-- The line has room for what is put on it unchecked: the separator in front of the ellipsis, and
the last completion. -/
structure Wide (p : Prompt) : Prop where
  separator : ∀ n, n + 1 < p.found.length →
    (Screen.width (p.row n) : Int) + Screen.width ellipsis ≤ p.width →
    (Screen.width (p.row n) : Int) + Screen.width Prompt.separator + Screen.width ellipsis ≤ p.width
  last : (Screen.width (p.row (p.found.length - 1)) : Int) + Screen.width ellipsis ≤ p.width →
    (Screen.width (p.row p.found.length) : Int) ≤ p.width

theorem wide_iff {p : Prompt} (h : ∀ c ∈ p.found, Text.Narrow c) : p.Wide ↔
    (∀ n, n + 1 < p.found.length → ((p.row n).length : Int) + 3 ≤ p.width →
      ((p.row n).length : Int) + 5 ≤ p.width) ∧
    (((p.row (p.found.length - 1)).length : Int) + 3 ≤ p.width →
      ((p.row p.found.length).length : Int) ≤ p.width) := by
  have hsep : Screen.width separator = 2 := Screen.width_narrow separator_narrow
  have hell : Screen.width ellipsis = 3 := Screen.width_narrow ellipsis_narrow
  have hsum (n : Nat) : (n : Int) + (2 : Nat) + (3 : Nat) = n + 5 := Int.add_assoc n 2 3
  refine ⟨fun hw => ⟨fun n hn => ?_, ?_⟩, fun hw => ⟨fun n hn => ?_, ?_⟩⟩
  · have hroom := hw.separator n hn
    rwa [width_row h, hsep, hell, hsum] at hroom
  · have hroom := hw.last
    rwa [width_row h, width_row h, hell] at hroom
  · rw [width_row h, hsep, hell, hsum]
    exact hw.1 n hn
  · rw [width_row h, width_row h, hell]
    exact hw.2

/-- A line cut off where the next completion leaves no room for an ellipsis. -/
theorem cut_fits_iff {p : Prompt} (hnarrow : ∀ c ∈ p.found, Text.Narrow c)
    (hnext : n + 1 < p.found.length) (hover : p.width < (p.row (n + 1)).length + 3)
    (hroom : ((p.row n).length : Int) + 3 ≤ p.width) :
    ((p.row n).length : Int) + 5 ≤ p.width ↔ p.Wide := by
  rw [wide_iff hnarrow]
  refine ⟨fun hfit => ⟨fun k hk hkroom => ?_, fun hlast => ?_⟩, fun hwide => hwide.1 n hnext hroom⟩
  · -- A beginning that leaves room for an ellipsis is no longer than the one that is shown.
    have hkn : k ≤ n := by
      by_contra hkn
      have hmono : (p.row (n + 1)).length ≤ (p.row k).length :=
        p.length_row_mono (Nat.succ_le_of_lt (Nat.lt_of_not_le hkn))
      omega
    have hmono := p.length_row_mono hkn
    omega
  · have hmono : (p.row (n + 1)).length ≤ (p.row (p.found.length - 1)).length :=
      p.length_row_mono (Nat.le_sub_one_of_lt hnext)
    omega

/-- A line with all completions, of which each but the last leaves room for an ellipsis. -/
theorem whole_fits_iff {p : Prompt} (hnarrow : ∀ c ∈ p.found, Text.Narrow c)
    (hfound : 0 < p.found.length) (hone : ((p.row 1).length : Int) + 5 ≤ p.width)
    (hroom : ∀ m, 0 < m → m < p.found.length → ((p.row m).length : Int) + 3 ≤ p.width) :
    ((p.row p.found.length).length : Int) ≤ p.width ↔ p.Wide := by
  rw [wide_iff hnarrow]
  refine ⟨fun hfit => ⟨fun k hk _ => ?_, fun _ => hfit⟩, fun hwide => ?_⟩
  · -- One more completion takes a separator, and leaves room for an ellipsis as well.
    rcases Nat.eq_zero_or_pos k with rfl | hkpos
    · have hmono := p.length_row_mono (Nat.zero_le 1)
      omega
    · have hsucc := p.length_row_succ hkpos (Nat.lt_of_succ_lt hk)
      have hshown := hroom (k + 1) (Nat.succ_pos k) hk
      omega
  · rcases Nat.eq_or_lt_of_le (Nat.succ_le_of_lt hfound) with hlen | hlen
    · rw [← hlen]
      change ((p.row 1).length : Int) ≤ p.width
      omega
    · exact hwide.2 (hroom _ (Nat.sub_pos_of_lt hlen) (Nat.sub_lt hfound Nat.one_pos))

/-- The line shows the first `n` completions, and an ellipsis exactly if these are not all. -/
structure ShowsFirst (p : Prompt) (n : Nat) : Prop where
  le : n ≤ p.found.length
  pos : p.found ≠ [] → 0 < n
  bar : p.bar = p.row n ++ (if n < p.found.length then separator ++ ellipsis else [])

theorem exists_showsFirst {p : Prompt} (hnarrow : ∀ c ∈ p.found, Text.Narrow c) (hwidth : 0 < p.width)
    (hfirst : ∀ c ∈ p.found.head?, (Screen.width (candidate p.session c) : Int) +
      Screen.width separator + Screen.width ellipsis ≤ p.width) :
    ∃ n, p.ShowsFirst n ∧ ((Screen.width p.bar : Int) ≤ p.width ↔ p.Wide) := by
  rcases hfound : p.found with - | ⟨c, rest⟩
  · have hrow (n : Nat) : p.row n = [] := by
      rw [row, hfound, List.take_nil]
      rfl
    have hbar : p.bar = [] := by
      rw [bar, if_neg (not_le.2 hwidth), hfound]
      rfl
    have hshows : p.ShowsFirst 0 := by
      refine ⟨Nat.zero_le _, fun h => absurd hfound h, ?_⟩
      rw [hbar, hrow, hfound]
      rfl
    refine ⟨0, hshows, fun _ => ?_, fun _ => hbar ▸ hwidth.le⟩
    refine ⟨fun n hn => absurd (hfound ▸ hn) (Nat.not_lt_zero _), fun _ => ?_⟩
    rw [hrow]
    exact hwidth.le
  -- The first completion is written in any case, so its room is what was asked for.
  have hone : ((p.row 1).length : Int) + 5 ≤ p.width := by
    have hroom := hfirst c (hfound ▸ rfl)
    have hsep : Screen.width separator = 2 := Screen.width_narrow separator_narrow
    have hell : Screen.width ellipsis = 3 := Screen.width_narrow ellipsis_narrow
    rw [← row_one hfound, width_row hnarrow, hsep, hell] at hroom
    omega
  have hpos : 0 < p.found.length := hfound ▸ Nat.succ_pos _
  obtain ⟨n, hn, hle, hbar, hmore, hfits⟩ := bar_eq hnarrow hwidth hpos
  have hroom (m : Nat) (hm : 0 < m) (hmn : m ≤ n) (hlt : m < p.found.length) :
      ((p.row m).length : Int) + 3 ≤ p.width := by
    by_cases hm : m = 1
    · rw [hm]
      omega
    · exact hfits m (by omega) hmn hlt
  refine ⟨n, ⟨hle, fun _ => hn, hbar⟩, ?_⟩
  rcases Nat.lt_or_eq_of_le hle with hlt | rfl
  · have hlength : Screen.width p.bar = (p.row n).length + 5 := by
      rw [hbar, if_pos hlt, Screen.width_narrow
        ((row_narrow hnarrow n).append (separator_narrow.append ellipsis_narrow)),
        List.length_append]
      rfl
    obtain ⟨hnext, hover⟩ := hmore hlt
    rw [hlength]
    exact cut_fits_iff hnarrow hnext hover (hroom n hn (Nat.le_refl n) hlt)
  · rw [hbar, if_neg (Nat.lt_irrefl _), List.append_nil, width_row hnarrow]
    exact whole_fits_iff hnarrow hpos hone fun m hm hlt => hroom m hm hlt.le hlt

/-- The line shows a beginning of the completions, and an ellipsis exactly if that is not all of
them; and it fits exactly if there is room for what is put on it unchecked. -/
theorem bar_fits_iff {p : Prompt} (hnarrow : ∀ c ∈ p.found, Text.Narrow c) (hwidth : 0 < p.width)
    (hfirst : ∀ c ∈ p.found.head?, (Screen.width (candidate p.session c) : Int) +
      Screen.width separator + Screen.width ellipsis ≤ p.width) :
    ∃ n ≤ p.found.length, (p.found ≠ [] → 0 < n) ∧
      p.bar = p.row n ++ (if n < p.found.length then separator ++ ellipsis else []) ∧
      ((Screen.width p.bar : Int) ≤ p.width ↔ p.Wide) := by
  obtain ⟨n, hshows, hfits⟩ := exists_showsFirst hnarrow hwidth hfirst
  exact ⟨n, hshows.le, hshows.pos, hshows.bar, hfits⟩

theorem receiveAll_showsFirst {session : Session} (hsession : session.Reached) (history : History)
    (defines : Dict Text) (environment : Text → Text) (hms : ∀ m ∈ ms, Message.Real m)
    {p : Prompt} (hp : (new session history defines environment).receiveAll ms = some p)
    (hwidth : 0 < p.width) (hfirst : ∀ c ∈ p.found.head?,
      (Screen.width (candidate p.session c) : Int) + Screen.width separator +
        Screen.width ellipsis ≤ p.width) :
    ∃ n, p.ShowsFirst n ∧ ((Screen.width p.bar : Int) ≤ p.width ↔ p.Wide) :=
  exists_showsFirst (receiveAll_offering (new_offering hsession history defines environment) hms
    hp).narrow hwidth hfirst

/-- The prompt on which a word was completed to some reserved words, with a screen this wide. -/
def offered (width : Int) : Prompt := { blank with
  found := ["fun", "for", "false", "if"]
  width := width }

theorem offered_narrow (width : Int) : ∀ c ∈ (offered width).found, Text.Narrow c := by
  unfold Text.Narrow
  change ∀ c ∈ (["fun", "for", "false", "if"] : List Text), ∀ b ∈ c, 0x20 ≤ b ∧ b < 0x7F
  decide +kernel

theorem bar_fits_iff_reserved :
    ∃ n ≤ 4, (offered 13).bar =
      (offered 13).row n ++ (if n < 4 then separator ++ ellipsis else []) ∧
      ((Screen.width (offered 13).bar : Int) ≤ 13 ↔ (offered 13).Wide) := by
  obtain ⟨n, hn, -, hbar, hfits⟩ := bar_fits_iff (p := offered 13) (offered_narrow 13) (by decide)
    (by decide +kernel)
  exact ⟨n, hn, hbar, hfits⟩

/-- Eleven columns hold two completions and an ellipsis, but not the separator between them; and
eighteen hold three of these four and an ellipsis, but not all of them. -/
theorem bar_too_wide :
    ((offered 11).bar = Text.ofString "fun  for  ..." ∧ Screen.width (offered 11).bar = 13) ∧
    ((offered 18).bar = Text.ofString "fun  for  false  if" ∧
      Screen.width (offered 18).bar = 19) ∧
    ∀ p ∈ [offered 11, offered 18], (∀ c ∈ p.found, Text.Narrow c) ∧ 0 < p.width ∧
      (∀ c ∈ p.found.head?, (Screen.width (candidate p.session c) : Int) +
        Screen.width separator + Screen.width ellipsis ≤ p.width) ∧
      ¬ (Screen.width p.bar : Int) ≤ p.width := by
  refine ⟨by decide +kernel, by decide +kernel, fun p hp => ?_⟩
  rcases List.mem_pair.1 hp with rfl | rfl
  · exact ⟨offered_narrow 11, by decide, by decide +kernel, by decide +kernel⟩
  · exact ⟨offered_narrow 18, by decide, by decide +kernel, by decide +kernel⟩

end Prompt

end LoxLang
