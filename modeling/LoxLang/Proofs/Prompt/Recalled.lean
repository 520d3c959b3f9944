import LoxLang.Proofs.Prompt.Taken
import LoxLang.Proofs.Text.Symbols

namespace LoxLang.Prompt
set_option autoImplicit true

/-- A field that shows a text: what it takes of it, as far as there is room, with the cursor at its
end. -/
def Field.showing (t : Text) : Field :=
  let cs := (clean t.chars).take limit
  ⟨cs, cs.length⟩

/-- The cursor goes to the end, since a text has at least as many bytes as characters. -/
theorem Field.set_moveTo (t : Text) (f : Field) : (f.set t).moveTo t.length = showing t := by
  have hlen : ((clean t.chars).take limit).length ≤ t.length := by
    have hclean : (clean t.chars).length ≤ t.chars.length := List.length_filterMap_le _ _
    have hchars : t.chars.length = (Utf8.symbols t).length := List.length_map _
    have hsymbols := Utf8.length_symbols_le t
    rw [List.length_take]
    omega
  change (⟨(clean t.chars).take limit, min t.length ((clean t.chars).take limit).length⟩ : Field) =
    _
  rw [Nat.min_eq_right hlen]
  rfl

theorem Field.showing_text {cs : List Char} (h : ∀ c ∈ cs, Plain c) (hlen : cs.length ≤ limit) :
    (showing (Text.ofChars cs)).text = Text.ofChars cs := by
  unfold showing
  rw [Text.chars_ofChars, clean_of_plain h, List.take_of_length_le hlen]
  rfl

theorem refresh_place (accept : Bool) (p : Prompt) :
    (p.refresh accept).historyAt = p.historyAt ∧ (p.refresh accept).history = p.history := by
  obtain ⟨found, start, stop, cycling, selected, -, hp⟩ := refresh_leaves accept p
  rw [hp]
  exact ⟨rfl, rfl⟩

theorem switchTo_place (mode : Mode) (p : Prompt) :
    (p.switchTo mode).historyAt = p.historyAt ∧ (p.switchTo mode).history = p.history := by
  obtain ⟨evalDraft, commandDraft, field, -, hp⟩ := switchTo_leaves mode p
  rw [hp]
  exact refresh_place false _

theorem otherEntries_getElem? {p : Prompt} (h : (e, i) ∈ p.otherEntries forward) :
    p.history.entries[i]? = some e := by
  have hall : (e, i) ∈ p.history.entries.zipIdx → p.history.entries[i]? = some e :=
    List.mem_zipIdx_iff_getElem?.1
  apply hall
  unfold otherEntries at h
  split at h
  · exact List.mem_of_mem_drop h
  · exact List.mem_of_mem_take (List.mem_reverse.1 h)

/-- The place in the history is one of an entry, or the one past the last. -/
def InHistory (p : Prompt) : Prop := p.historyAt ≤ p.history.size

theorem InHistory.of_eq {p q : Prompt} (h : q.historyAt = n ∧ q.history = p.history)
    (hn : n ≤ p.history.size) : q.InHistory := by
  rw [InHistory, h.1, h.2]
  exact hn

theorem moveInHistory_inHistory {p : Prompt} (h : p.InHistory) (forward sameMode : Bool) :
    (p.moveInHistory forward sameMode).InHistory := by
  unfold moveInHistory
  split
  · rename_i e i hfind
    have hentry := otherEntries_getElem? (List.mem_of_find?_eq_some hfind)
    have hlt : i < p.history.size := (List.getElem?_eq_some_iff.1 hentry).1
    have hsame : (if e.mode = p.mode then p else p.switchTo e.mode).history = p.history := by
      split
      · rfl
      · exact (switchTo_place e.mode p).2
    dsimp only
    generalize (if e.mode = p.mode then p else p.switchTo e.mode) = q at hsame
    exact .of_eq (hsame ▸ refresh_place false _) (Nat.le_of_lt hlt)
  · split
    · exact .of_eq (p := p) (refresh_place false _) (Nat.le_refl _)
    · exact h

theorem receive_inHistory {p q : Prompt} (h : p.InHistory) (hq : p.receive m = some q) :
    q.InHistory := by
  cases receive_heard hq with
  | aside => exact h
  | key k _ hstep =>
    cases hstep with
    | stay => exact h
    | edit field historyAt accept _ hat =>
      refine .of_eq (p := p) (refresh_place accept _) ?_
      rcases hat with hat | hat
      · exact hat ▸ h
      · exact Nat.le_of_eq hat
    | type => exact .of_eq (p := p) (refresh_place true _) (Nat.le_refl _)
    | toggle => exact .of_eq (switchTo_place _ p) h
    | browse forward sameMode => exact moveInHistory_inHistory h forward sameMode
    | complete forward _ hcycle =>
      rcases cycle_leaves hcycle with rfl | ⟨_, _, _, _, _, _, -, -, rfl⟩
      · exact h
      · exact h
    | submit =>
      by_cases hline : p.field.text.trim = []
      · rw [submit_blank hline]
        exact h
      · obtain ⟨history, historyAt, _, _, _, hat, -, hp⟩ := submit_taken hline
        rw [hp]
        exact Nat.le_of_eq hat

theorem receiveAll_inHistory {p q : Prompt} (h : p.InHistory) (hq : p.receiveAll ms = some q) :
    q.InHistory := by
  induction ms generalizing p with
  | nil =>
    cases hq
    exact h
  | cons m ms ih =>
    obtain ⟨r, hr, hrq⟩ := Option.bind_eq_some_iff.1 hq
    exact ih (receive_inHistory h hr) hrq

/-- The entries of the mode of the prompt, newest first. -/
def recent (p : Prompt) : List Entry := (p.history.entries.filter (·.mode = p.mode)).reverse

/-- The prompts have the same history and mode, and neither or both are idle. -/
structure Alongside (p q : Prompt) : Prop where
  history : q.history = p.history
  mode : q.mode = p.mode
  running : q.running = p.running

theorem Alongside.trans {p q r : Prompt} (h : p.Alongside q) (h' : q.Alongside r) :
    p.Alongside r :=
  ⟨h'.history.trans h.history, h'.mode.trans h.mode, h'.running.trans h.running⟩

structure Shows (p : Prompt) (older : List Entry) (e : Entry) (newer : List Entry) : Prop where
  entries : p.history.entries = older ++ e :: newer
  mode : e.mode = p.mode
  place : p.historyAt = older.length
  field : p.field = Field.showing e.line

theorem Shows.recent {p : Prompt} (h : p.Shows older e newer) :
    p.recent[(newer.filter (·.mode = p.mode)).length]? = some e := by
  rw [Prompt.recent, h.entries, List.filter_append, List.filter_cons_of_pos (by simpa using h.mode),
    List.reverse_append, List.reverse_cons, List.append_assoc, List.singleton_append,
    ← List.length_reverse, List.getElem?_append_right (Nat.le_refl _), Nat.sub_self]
  rfl

theorem oldest_cases (mode : Mode) (es : List Entry) : (∀ e ∈ es, e.mode ≠ mode) ∨
    ∃ older e newer, es = older ++ e :: newer ∧ e.mode = mode ∧ ∀ x ∈ older, x.mode ≠ mode := by
  cases hfind : es.find? fun e => e.mode = mode with
  | none =>
    left
    intro e he
    simpa using List.find?_eq_none.1 hfind e he
  | some e =>
    obtain ⟨he, older, newer, rfl, holder⟩ := List.find?_eq_some_iff_append.1 hfind
    refine .inr ⟨older, e, newer, rfl, by simpa using he, fun x hx => ?_⟩
    simpa using holder x hx

theorem newest_cases (mode : Mode) (es : List Entry) : (∀ e ∈ es, e.mode ≠ mode) ∨
    ∃ older e newer, es = older ++ e :: newer ∧ e.mode = mode ∧ ∀ x ∈ newer, x.mode ≠ mode := by
  rcases oldest_cases mode es.reverse with hnone | ⟨newer, e, older, hes, he, hnewer⟩
  · exact .inl fun e he => hnone e (List.mem_reverse.2 he)
  · refine .inr ⟨older.reverse, e, newer.reverse, ?_, he, fun x hx => ?_⟩
    · rw [← es.reverse_reverse, hes]
      simp
    · exact hnewer x (List.mem_reverse.1 hx)

/-- Another place of the history and another line. -/
def turnTo (i : Nat) (f : Field) (p : Prompt) : Prompt :=
  refresh false { p with historyAt := i, field := f }

theorem turnTo_alongside (i : Nat) (f : Field) (p : Prompt) : p.Alongside (p.turnTo i f) := by
  unfold turnTo
  obtain ⟨found, start, stop, cycling, selected, -, hp⟩ :=
    refresh_leaves false { p with historyAt := i, field := f }
  rw [hp]
  exact ⟨rfl, rfl, rfl⟩

theorem turnTo_historyAt (i : Nat) (f : Field) (p : Prompt) : (p.turnTo i f).historyAt = i :=
  (refresh_place false _).1

theorem turnTo_field (i : Nat) (f : Field) (p : Prompt) : (p.turnTo i f).field = f :=
  refresh_field false _

theorem moveInHistory_sameMode (forward : Bool) (p : Prompt) : p.moveInHistory forward true =
    match (p.otherEntries forward).find? fun x => x.1.mode = p.mode with
    | some (e, i) => p.turnTo i (.showing e.line)
    | none =>
      if forward && p.historyAt < p.history.size then p.turnTo p.history.size .empty else p := by
  unfold moveInHistory
  simp only [Bool.not_true, Bool.false_or, Field.set_moveTo, Field.set_nil]
  cases hfind : (p.otherEntries forward).find? fun x => x.1.mode = p.mode with
  | none => rfl
  | some x =>
    have hmode : x.1.mode = p.mode := by simpa using List.find?_some hfind
    dsimp only
    rw [if_pos hmode]
    rfl

theorem find?_zipIdx {mode : Mode} {before after : List Entry} {e : Entry}
    (hbefore : ∀ x ∈ before, x.mode ≠ mode) (he : e.mode = mode) (n : Nat) :
    ((before ++ e :: after).zipIdx n).find? (fun x => x.1.mode = mode) =
      some (e, n + before.length) := by
  rw [List.find?_eq_some_iff_append]
  refine ⟨by simpa using he, before.zipIdx n, after.zipIdx (n + before.length + 1), ?_, ?_⟩
  · rw [List.zipIdx_append, List.zipIdx_cons]
  · intro x hx
    simpa using hbefore x.1 (List.fst_mem_of_mem_zipIdx hx)

theorem find?_reverse_zipIdx {mode : Mode} {before after : List Entry} {e : Entry}
    (hafter : ∀ x ∈ after, x.mode ≠ mode) (he : e.mode = mode) :
    ((before ++ e :: after).zipIdx.reverse).find? (fun x => x.1.mode = mode) =
      some (e, before.length) := by
  rw [List.find?_eq_some_iff_append]
  refine ⟨by simpa using he, (after.zipIdx (0 + before.length + 1)).reverse, before.zipIdx.reverse,
    ?_, ?_⟩
  · rw [List.zipIdx_append, List.zipIdx_cons, List.reverse_append, List.reverse_cons,
      List.append_assoc, List.singleton_append, Nat.zero_add]
  · intro x hx
    simpa using hafter x.1 (List.fst_mem_of_mem_zipIdx (List.mem_reverse.1 hx))

theorem find?_zipIdx_none {mode : Mode} {es : List Entry} (h : ∀ x ∈ es, x.mode ≠ mode) (n : Nat) :
    (es.zipIdx n).find? (fun x => x.1.mode = mode) = none := by
  rw [List.find?_eq_none]
  intro x hx
  simpa using h x.1 (List.fst_mem_of_mem_zipIdx hx)

theorem otherEntries_back {p : Prompt} (hentries : p.history.entries = older ++ rest)
    (hat : p.historyAt = older.length) : p.otherEntries false = older.zipIdx.reverse := by
  unfold otherEntries
  dsimp only
  rw [hentries, hat, List.zipIdx_append, List.take_left' List.length_zipIdx]
  rfl

theorem Shows.otherEntries {p : Prompt} (h : p.Shows older e newer) :
    p.otherEntries true = newer.zipIdx (older.length + 1) := by
  unfold Prompt.otherEntries
  dsimp only
  have hsplit : older ++ e :: newer = (older ++ [e]) ++ newer := by simp
  rw [h.entries, h.place, hsplit, List.zipIdx_append, Nat.zero_add, if_pos rfl]
  have hlen : ((older ++ [e]).zipIdx).length = older.length + 1 := by simp
  rw [List.drop_left' hlen, List.length_append, List.length_singleton]

theorem turnTo_shows {p : Prompt} (hentries : p.history.entries = older ++ e :: newer)
    (he : e.mode = p.mode) (hi : i = older.length) :
    (p.turnTo i (.showing e.line)).Shows older e newer where
  entries := by rw [(p.turnTo_alongside i _).history, hentries]
  mode := by rw [(p.turnTo_alongside i _).mode, he]
  place := (p.turnTo_historyAt i _).trans hi
  field := p.turnTo_field i _

theorem back_none {p : Prompt} (hentries : p.history.entries = older ++ rest)
    (hat : p.historyAt = older.length) (hnone : ∀ x ∈ older, x.mode ≠ p.mode) :
    p.moveInHistory false true = p := by
  have hfind : (older.zipIdx.reverse).find? (fun x => x.1.mode = p.mode) = none := by
    rw [List.find?_eq_none]
    intro x hx
    simpa using hnone x.1 (List.fst_mem_of_mem_zipIdx (List.mem_reverse.1 hx))
  rw [moveInHistory_sameMode, otherEntries_back hentries hat, hfind]
  rfl

/-- Back from another place, the nearest entry of the mode before it is shown. -/
theorem back_some {p : Prompt} (hentries : p.history.entries = older ++ e :: between ++ rest)
    (hat : p.historyAt = (older ++ e :: between).length) (he : e.mode = p.mode)
    (hbetween : ∀ x ∈ between, x.mode ≠ p.mode) :
    p.Alongside (p.moveInHistory false true) ∧
      (p.moveInHistory false true).Shows older e (between ++ rest) := by
  rw [moveInHistory_sameMode, otherEntries_back hentries hat, find?_reverse_zipIdx hbetween he]
  exact ⟨turnTo_alongside _ _ p, turnTo_shows (by simp [hentries]) he rfl⟩

/-- On from the newest entry of the mode, the line is empty and the place is past the last entry. -/
theorem Shows.on_none {p : Prompt} (h : p.Shows older e newer)
    (hnone : ∀ x ∈ newer, x.mode ≠ p.mode) : p.Alongside (p.moveInHistory true true) ∧
      (p.moveInHistory true true).historyAt = p.history.size ∧
        (p.moveInHistory true true).field = .empty := by
  have hlt : p.historyAt < p.history.size := by
    rw [h.place, History.size, h.entries, List.length_append, List.length_cons]
    omega
  rw [moveInHistory_sameMode, h.otherEntries, find?_zipIdx_none hnone]
  simp only [Bool.true_and, hlt, decide_true, if_true]
  exact ⟨turnTo_alongside _ _ p, turnTo_historyAt _ _ p, turnTo_field _ _ p⟩

theorem Shows.on_some {p : Prompt} (h : p.Shows older e (between ++ e' :: newer))
    (he : e'.mode = p.mode) (hbetween : ∀ x ∈ between, x.mode ≠ p.mode) :
    p.Alongside (p.moveInHistory true true) ∧
      (p.moveInHistory true true).Shows (older ++ e :: between) e' newer := by
  rw [moveInHistory_sameMode, h.otherEntries, find?_zipIdx hbetween he]
  refine ⟨turnTo_alongside _ _ p, turnTo_shows (by simp [h.entries]) he ?_⟩
  rw [List.length_append, List.length_cons]
  omega

/-- How far back the prompt stands: past the last entry of the history, or at the so-manieth newest
entry of its mode, which it shows. -/
def Visits (p : Prompt) : Nat → Prop
  | 0 => p.historyAt = p.history.size
  | i + 1 => ∃ older e newer, p.Shows older e newer ∧
      (newer.filter (·.mode = p.mode)).length = i

theorem Visits.shows {p : Prompt} (h : p.Visits (i + 1)) : ∃ e, p.recent[i]? = some e ∧
    p.field = Field.showing e.line ∧ p.history.entries[p.historyAt]? = some e := by
  obtain ⟨older, e, newer, hshows, rfl⟩ := h
  refine ⟨e, hshows.recent, hshows.field, ?_⟩
  rw [hshows.entries, hshows.place, List.getElem?_append_right (Nat.le_refl _), Nat.sub_self]
  rfl

theorem Visits.place {p : Prompt} (h : p.Visits i) : ∃ older rest,
    p.history.entries = older ++ rest ∧ p.historyAt = older.length ∧
      (rest.filter (·.mode = p.mode)).length = i := by
  cases i with
  | zero => exact ⟨p.history.entries, [], (List.append_nil _).symm, h, rfl⟩
  | succ i =>
    obtain ⟨older, e, newer, hshows, rfl⟩ := h
    refine ⟨older, e :: newer, hshows.entries, hshows.place, ?_⟩
    rw [List.filter_cons_of_pos (by simpa using hshows.mode), List.length_cons]

theorem Alongside.recent {p q : Prompt} (h : p.Alongside q) : q.recent = p.recent := by
  rw [Prompt.recent, Prompt.recent, h.history, h.mode]

theorem filter_mode_nil {mode : Mode} {es : List Entry} (h : ∀ x ∈ es, x.mode ≠ mode) :
    es.filter (·.mode = mode) = [] := by
  rw [List.filter_eq_nil_iff]
  intro x hx
  simpa using h x hx

/-- One step back leads to the next older entry of the mode, and changes nothing at the oldest. -/
theorem Visits.back {p : Prompt} (h : p.Visits i) : p.Alongside (p.moveInHistory false true) ∧
    (i < p.recent.length → (p.moveInHistory false true).Visits (i + 1)) ∧
      (p.recent.length ≤ i → p.moveInHistory false true = p) := by
  obtain ⟨older, rest, hentries, hat, rfl⟩ := h.place
  have hlen : p.recent.length = (older.filter (·.mode = p.mode)).length +
      (rest.filter (·.mode = p.mode)).length := by
    rw [Prompt.recent, List.length_reverse, hentries, List.filter_append, List.length_append]
  rcases newest_cases p.mode older with hnone | ⟨older, e, between, rfl, he, hbetween⟩
  · have hstay := back_none hentries hat hnone
    rw [filter_mode_nil hnone, List.length_nil, Nat.zero_add] at hlen
    rw [hstay]
    exact ⟨⟨rfl, rfl, rfl⟩, fun hlt => absurd hlt (by omega), fun _ => rfl⟩
  · obtain ⟨hsame, hshows⟩ := back_some hentries hat he hbetween
    rw [List.filter_append, List.filter_cons_of_pos (by simpa using he), List.length_append,
      List.length_cons] at hlen
    refine ⟨hsame, fun _ => ⟨older, e, between ++ rest, hshows, ?_⟩,
      fun hle => absurd hle (by omega)⟩
    rw [hsame.mode, List.filter_append, filter_mode_nil hbetween, List.nil_append]

/-- One step on leads to the next newer entry of the mode, and from the newest to an empty line past
the last entry. -/
theorem Visits.on {p : Prompt} (h : p.Visits (i + 1)) : p.Alongside (p.moveInHistory true true) ∧
    (p.moveInHistory true true).Visits i ∧
      (i = 0 → (p.moveInHistory true true).field = .empty) := by
  obtain ⟨older, e, newer, hshows, hlen⟩ := h
  rcases oldest_cases p.mode newer with hnone | ⟨between, e', newer, rfl, he, hbetween⟩
  · obtain ⟨hsame, hat, hfield⟩ := hshows.on_none hnone
    rw [filter_mode_nil hnone] at hlen
    subst hlen
    refine ⟨hsame, ?_, fun _ => hfield⟩
    change (p.moveInHistory true true).historyAt = (p.moveInHistory true true).history.size
    rw [hat, hsame.history]
  · obtain ⟨hsame, hshows⟩ := hshows.on_some he hbetween
    rw [List.filter_append, filter_mode_nil hbetween, List.nil_append,
      List.filter_cons_of_pos (by simpa using he), List.length_cons] at hlen
    subst hlen
    refine ⟨hsame, ⟨_, e', newer, hshows, ?_⟩, fun h => by cases h⟩
    rw [hsame.mode]

theorem receive_shiftUp {p : Prompt} (hidle : p.running = none) :
    p.receive (.key .shiftUp) = some (p.moveInHistory false true) := by
  rw [receive, handle_idle hidle]
  rfl

theorem receive_shiftDown {p : Prompt} (hidle : p.running = none) :
    p.receive (.key .shiftDown) = some (p.moveInHistory true true) := by
  rw [receive, handle_idle hidle]
  rfl

theorem receiveAll_cons {p q : Prompt} (h : p.receive m = some q) (ms : List Message) :
    p.receiveAll (m :: ms) = q.receiveAll ms := by
  rw [receiveAll, h]
  rfl

/-- So many steps back lead so many entries of the mode back, or to the oldest. -/
theorem Visits.backs {p : Prompt} (h : p.Visits i) (hidle : p.running = none)
    (hi : i ≤ p.recent.length) (k : Nat) :
    ∃ q, p.receiveAll (List.replicate k (.key .shiftUp)) = some q ∧ p.Alongside q ∧
      q.Visits (min (i + k) p.recent.length) ∧ (p.recent.length ≤ i → q = p) := by
  induction k generalizing p i with
  | zero =>
    refine ⟨p, rfl, ⟨rfl, rfl, rfl⟩, ?_, fun _ => rfl⟩
    rw [Nat.add_zero, Nat.min_eq_left hi]
    exact h
  | succ k ih =>
    obtain ⟨hsame, hnext, hstay⟩ := h.back
    have hidle' := hsame.running.trans hidle
    rw [List.replicate_succ, receiveAll_cons (receive_shiftUp hidle)]
    by_cases hlt : i < p.recent.length
    · obtain ⟨q, hq, hsame', hvisits, -⟩ :=
        ih (hnext hlt) hidle' (by rw [hsame.recent]; exact hlt)
      refine ⟨q, hq, hsame.trans hsame', ?_, fun hle => absurd hle (by omega)⟩
      rw [hsame.recent, Nat.add_assoc, Nat.add_comm 1] at hvisits
      exact hvisits
    · have hle := Nat.le_of_not_lt hlt
      rw [hstay hle]
      obtain ⟨q, hq, hsame', hvisits, heq⟩ := ih h hidle hi
      refine ⟨q, hq, hsame', ?_, heq⟩
      rw [Nat.min_eq_right (by omega)] at hvisits ⊢
      exact hvisits

theorem Visits.ons {p : Prompt} (h : p.Visits (i + j)) (hidle : p.running = none) :
    ∃ q, p.receiveAll (List.replicate j (.key .shiftDown)) = some q ∧ p.Alongside q ∧
      q.Visits i ∧ (0 < j → i = 0 → q.field = .empty) := by
  induction j generalizing p with
  | zero => exact ⟨p, rfl, ⟨rfl, rfl, rfl⟩, h, fun h => absurd h (Nat.lt_irrefl 0)⟩
  | succ j ih =>
    obtain ⟨hsame, hvisits, hempty⟩ := h.on
    rw [List.replicate_succ, receiveAll_cons (receive_shiftDown hidle)]
    obtain ⟨q, hq, hsame', hvisits', hempty'⟩ := ih hvisits (hsame.running.trans hidle)
    refine ⟨q, hq, hsame.trans hsame', hvisits', fun _ hi => ?_⟩
    cases j with
    | zero =>
      cases hq
      exact hempty (by omega)
    | succ j => exact hempty' (Nat.succ_pos j) hi

/-- The place in the history is always that of an entry or the one past the last. From there, going
back so many times among the entries of the mode shows the one that was entered so many before, or
the oldest, and nothing changes if there is none; going on as often as one went back shows the same
entries in reverse, and then an empty line. An entry is shown as the field takes it, and as it is
wherever the field takes it whole. -/
theorem history_browsed :
    (∀ session history defines environment ms p,
      (new session history defines environment).receiveAll ms = some p →
        p.historyAt ≤ p.history.size) ∧
    (∀ p : Prompt, p.running = none → p.historyAt = p.history.size →
      (∀ k, ∃ q, p.receiveAll (List.replicate k (.key .shiftUp)) = some q ∧
        q.mode = p.mode ∧ q.history = p.history ∧ (p.recent = [] → q = p) ∧
        (p.recent ≠ [] → 0 < k → ∃ e, p.recent[min k p.recent.length - 1]? = some e ∧
          q.field = Field.showing e.line ∧ q.history.entries[q.historyAt]? = some e)) ∧
      ∀ k j, 0 < k → k ≤ p.recent.length → j ≤ k →
        ∃ q, p.receiveAll (List.replicate k (.key .shiftUp) ++
            List.replicate j (.key .shiftDown)) = some q ∧
          q.mode = p.mode ∧ q.history = p.history ∧
          (j < k → ∃ e, p.recent[k - j - 1]? = some e ∧ q.field = Field.showing e.line ∧
            q.history.entries[q.historyAt]? = some e) ∧
          (j = k → q.field = .empty ∧ q.historyAt = q.history.size)) ∧
    ∀ cs : List Char, (∀ c ∈ cs, Field.Plain c) → cs.length ≤ Field.limit →
      (Field.showing (Text.ofChars cs)).text = Text.ofChars cs := by
  refine ⟨fun session history defines environment ms p h => ?_, fun p hidle hat => ⟨?_, ?_⟩,
    fun cs => Field.showing_text⟩
  · exact receiveAll_inHistory (p := new session history defines environment) (Nat.le_refl _) h
  · intro k
    have hstart : p.Visits 0 := hat
    obtain ⟨q, hq, hsame, hvisits, hstay⟩ := hstart.backs hidle (Nat.zero_le _) k
    refine ⟨q, hq, hsame.mode, hsame.history, fun hnone => hstay (by simp [hnone]), ?_⟩
    intro hne hk
    have hone : 1 ≤ min k p.recent.length := Nat.le_min.2 ⟨hk, List.length_pos_of_ne_nil hne⟩
    rw [Nat.zero_add, ← Nat.sub_add_cancel hone] at hvisits
    have hshown := hvisits.shows
    rwa [hsame.recent] at hshown
  · intro k j hk hle hj
    have hstart : p.Visits 0 := hat
    obtain ⟨q, hq, hsame, hvisits, -⟩ := hstart.backs hidle (Nat.zero_le _) k
    rw [Nat.zero_add, Nat.min_eq_left hle, ← Nat.sub_add_cancel hj] at hvisits
    obtain ⟨r, hr, hsame', hvisits', hempty⟩ := hvisits.ons (hsame.running.trans hidle)
    have hsame := hsame.trans hsame'
    refine ⟨r, ?_, hsame.mode, hsame.history, fun hlt => ?_, fun heq => ?_⟩
    · rw [receiveAll_append, hq]
      exact hr
    · have hone : 1 ≤ k - j := Nat.sub_pos_of_lt hlt
      rw [← Nat.sub_add_cancel hone] at hvisits'
      have hshown := hvisits'.shows
      rwa [hsame.recent] at hshown
    · subst heq
      rw [Nat.sub_self] at hvisits'
      exact ⟨hempty hk (Nat.sub_self _), hvisits'⟩

/-- A prompt whose history has entries of both modes. -/
def mixed : Prompt :=
  new .new ⟨[⟨"a", .eval⟩, ⟨"list", .command⟩, ⟨"b", .eval⟩], .missing⟩ [] fun _ => []

theorem history_browsed_mixed :
    mixed.receiveAll [] = some mixed ∧ mixed.historyAt ≤ mixed.history.size ∧
      (∃ q, mixed.receiveAll [.key .shiftUp, .key .shiftUp] = some q ∧
        q.field.text = "a" ∧ q.mode = .eval) ∧
      ∃ q, mixed.receiveAll [.key .shiftUp, .key .shiftUp, .key .shiftDown, .key .shiftDown] =
        some q ∧ q.field = .empty ∧ q.historyAt = q.history.size := by
  obtain ⟨hplace, hbrowsed, htext⟩ := history_browsed
  obtain ⟨hback, hon⟩ := hbrowsed mixed rfl rfl
  have hrecent : mixed.recent = [⟨"b", .eval⟩, ⟨"a", .eval⟩] := by decide +kernel
  refine ⟨rfl, hplace .new mixed.history [] (fun _ => []) [] mixed rfl, ?_, ?_⟩
  · obtain ⟨q, hq, hmode, -, -, hshown⟩ := hback 2
    obtain ⟨e, he, hfield, -⟩ := hshown (by simp [hrecent]) (by decide)
    rw [hrecent] at he
    cases he
    refine ⟨q, hq, ?_, hmode⟩
    have hplain : ∀ c ∈ ['a'], Field.Plain c := by
      intro c hc
      rw [List.mem_singleton.1 hc]
      exact show Field.clean ['a'] = ['a'] by decide
    rw [hfield]
    exact htext ['a'] hplain (by decide)
  · obtain ⟨q, hq, -, -, -, hend⟩ := hon 2 2 (by decide) (by simp [hrecent]) (Nat.le_refl 2)
    exact ⟨q, hq, hend rfl⟩

/-- A prompt on a history that was written elsewhere and has a tab in an entry. -/
def tabbed : Prompt := new .new ⟨[⟨"a\tb", .eval⟩], .missing⟩ [] fun _ => []

/-- The field has a blank in place of the tab. -/
theorem history_browsed_tabbed : tabbed.running = none ∧ tabbed.historyAt = tabbed.history.size ∧
    tabbed.recent = [⟨"a\tb", .eval⟩] ∧ ∃ q, tabbed.receiveAll [.key .shiftUp] = some q ∧
      q.field.text = "a b" ∧ q.field.text ≠ "a\tb" := by
  obtain ⟨-, hshows⟩ : tabbed.Alongside (tabbed.moveInHistory false true) ∧
      (tabbed.moveInHistory false true).Shows [] ⟨"a\tb", .eval⟩ ([] ++ []) :=
    back_some rfl rfl rfl nofun
  have htext : (Field.showing "a\tb").text = "a b" := by decide +kernel
  refine ⟨rfl, rfl, by decide +kernel, _, receiveAll_cons (receive_shiftUp rfl) [], ?_, ?_⟩
  · rw [hshows.field]
    exact htext
  · rw [hshows.field, htext]
    decide +kernel

end LoxLang.Prompt
