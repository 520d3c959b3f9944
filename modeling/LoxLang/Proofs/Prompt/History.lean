import LoxLang.Prompt.History
import LoxLang.Proofs.Text.Symbols
import Mathlib.Data.List.Induction

namespace LoxLang.Prompt
set_option autoImplicit true

namespace Entry

/-- The entry as a line of the file, without the line break. -/
def row (e : Entry) : Text := (if e.mode = .command then commandMarker else evalMarker) ++ e.line

theorem write_eq (e : Entry) : e.write = e.row ++ [Text.newline] := rfl

structure Lasting (e : Entry) : Prop where
  known : e.mode = .eval ∨ e.mode = .command
  whole : Text.newline ∉ e.line
  bare : e.line.Bare

theorem Lasting.exists_marker {e : Entry} (h : e.Lasting) :
    ∃ c, (c = 'E' ∨ c = 'C') ∧ e.row = Utf8.encode c ++ (Utf8.encode ':' ++ e.line) := by
  unfold row
  rcases h.known with hmode | hmode
  · refine ⟨'E', .inl rfl, ?_⟩
    rw [hmode]
    rfl
  · refine ⟨'C', .inr rfl, ?_⟩
    rw [hmode]
    rfl

theorem Lasting.length_row {e : Entry} (h : e.Lasting) : e.row.length = e.line.length + 2 := by
  obtain ⟨c, rfl | rfl, hrow⟩ := h.exists_marker
  · rw [hrow]
    rfl
  · rw [hrow]
    rfl

theorem not_space_marker (hc : c = 'E' ∨ c = 'C' ∨ c = ':') :
    Text.isSpaceSymbol ⟨some c, Utf8.encode c⟩ = false := by
  rcases hc with rfl | rfl | rfl <;> decide

theorem Lasting.bare_row {e : Entry} (h : e.Lasting) : e.row.Bare := by
  obtain ⟨c, hc, hrow⟩ := h.exists_marker
  rw [hrow]
  apply Text.Bare.encode_append
  · exact h.bare.encode_append (not_space_marker (.inr (.inr rfl)))
  · rcases hc with hc | hc
    · exact not_space_marker (.inl hc)
    · exact not_space_marker (.inr (.inl hc))

theorem Lasting.trim_row {e : Entry} (h : e.Lasting) : e.row.trim = e.row := by
  obtain ⟨c, hc, hrow⟩ := h.exists_marker
  refine Text.trim_eq_self h.bare_row fun r hr => ?_
  rw [hrow, Utf8.symbols_encode] at hr
  cases hr
  rcases hc with hc | hc
  · exact not_space_marker (.inl hc)
  · exact not_space_marker (.inr (.inl hc))

theorem Lasting.whole_row {e : Entry} (h : e.Lasting) : Text.newline ∉ e.row := by
  obtain ⟨c, hc, hrow⟩ := h.exists_marker
  have hmarker : Text.newline ∉ Utf8.encode c := by
    rcases hc with rfl | rfl <;> decide
  have hcolon : Text.newline ∉ Utf8.encode ':' := by decide
  intro hmem
  rw [hrow] at hmem
  rcases List.mem_append.1 hmem with hmem | hmem
  · exact hmarker hmem
  · rcases List.mem_append.1 hmem with hmem | hmem
    · exact hcolon hmem
    · exact h.whole hmem

theorem cut?_append (marker t : Text) : cut? marker (marker ++ t) = some t := by
  rw [cut?, if_pos (List.isPrefixOf_iff_prefix.2 (List.prefix_append marker t)), List.drop_left]

theorem eq_of_cut? (h : cut? marker t = some s) : t = marker ++ s := by
  unfold cut? at h
  split at h
  · rename_i hprefix
    obtain ⟨u, rfl⟩ := List.isPrefixOf_iff_prefix.1 hprefix
    rw [List.drop_left, Option.some.injEq] at h
    rw [h]
  · cases h

theorem Lasting.read_row {e : Entry} (h : e.Lasting) : read e.row = e := by
  obtain ⟨line, mode⟩ := e
  have hother : cut? commandMarker (evalMarker ++ line) = none := rfl
  unfold row read
  rcases h.known with rfl | rfl
  · rw [if_neg (show ¬ Mode.eval = Mode.command by decide), hother, cut?_append]
  · rw [if_pos rfl, cut?_append]

theorem read_lasting {t : Text} (hbare : t.Bare) (hwhole : Text.newline ∉ t) :
    (read t).Lasting := by
  have hmarked {c : Char} {s : Text} (h : t = Utf8.encode c ++ Utf8.encode ':' ++ s) :
      Text.newline ∉ s ∧ s.Bare := by
    rw [h] at hwhole hbare
    rw [List.append_assoc] at hbare
    exact ⟨fun hmem => hwhole (List.mem_append_right _ hmem),
      hbare.of_encode_append.of_encode_append⟩
  unfold read
  cases hcommand : cut? commandMarker t with
  | some s =>
    obtain ⟨hs, hb⟩ := hmarked (c := 'C') (eq_of_cut? hcommand)
    exact ⟨.inr rfl, hs, hb⟩
  | none =>
    cases heval : cut? evalMarker t with
    | some s =>
      obtain ⟨hs, hb⟩ := hmarked (c := 'E') (eq_of_cut? heval)
      exact ⟨.inl rfl, hs, hb⟩
    | none => exact ⟨.inl rfl, hwhole, hbare⟩

end Entry

namespace History

theorem dropReturn_of_bare {t : Text} (h : t.Bare) : dropReturn t = t := if_neg h.getLast?_ne

theorem readLines_cons (hfits : line.length < lineLimit) (rest : List Text) :
    readLines (line :: rest) =
      (if (dropReturn line).trim.isEmpty then (readLines rest).1
        else Entry.read (dropReturn line).trim :: (readLines rest).1, (readLines rest).2) := by
  rw [readLines, if_neg (Nat.not_le.2 hfits)]

theorem readLines_append (h : (readLines ls).2 = true) (ms : List Text) :
    readLines (ls ++ ms) = ((readLines ls).1 ++ (readLines ms).1, (readLines ms).2) := by
  induction ls with
  | nil => rfl
  | cons line ls ih =>
    by_cases hfits : line.length < lineLimit
    · rw [readLines_cons hfits] at h ⊢
      rw [List.cons_append, readLines_cons hfits, ih h]
      split
      · rfl
      · rfl
    · rw [readLines, if_pos (Nat.le_of_not_lt hfits)] at h
      cases h

/-- The row of the entry fits into a line of the file. -/
def Fits (e : Entry) : Prop := e.line.length + 2 < lineLimit

instance (e : Entry) : Decidable (Fits e) := inferInstanceAs (Decidable (_ < _))

theorem readLines_rows {es : List Entry} (h : ∀ e ∈ es, e.Lasting ∧ Fits e) :
    readLines (es.map Entry.row) = (es, true) := by
  induction es with
  | nil => rfl
  | cons e es ih =>
    obtain ⟨⟨he, hfits⟩, hes⟩ := List.forall_mem_cons.1 h
    rw [Fits, ← he.length_row] at hfits
    have hempty : ¬ e.row.isEmpty = true := by
      intro hnil
      have hlen := he.length_row
      rw [List.isEmpty_iff.1 hnil] at hlen
      cases hlen
    rw [List.map_cons, readLines_cons hfits, dropReturn_of_bare he.bare_row, he.trim_row,
      if_neg hempty, he.read_row, ih hes]

theorem whole_trim {t : Text} (h : Text.newline ∉ t) : Text.newline ∉ t.trim := by
  obtain ⟨before, after, ht, -⟩ := t.trim_part
  intro hmem
  rw [ht] at h
  exact h (List.mem_append_left _ (List.mem_append_right _ hmem))

theorem whole_dropReturn (h : Text.newline ∉ t) : Text.newline ∉ dropReturn t := by
  unfold dropReturn
  split
  · exact fun hmem => h ((List.dropLast_sublist t).mem hmem)
  · exact h

theorem lasting_of_readLines (h : ∀ line ∈ ls, Text.newline ∉ line) :
    ∀ e ∈ (readLines ls).1, e.Lasting := by
  induction ls with
  | nil => exact fun _ he => absurd he List.not_mem_nil
  | cons line ls ih =>
    obtain ⟨hline, hls⟩ := List.forall_mem_cons.1 h
    by_cases hfits : line.length < lineLimit
    · rw [readLines_cons hfits]
      dsimp only
      split
      · exact ih hls
      · intro e he
        rcases List.mem_cons.1 he with rfl | he
        · obtain ⟨-, -, -, hbare⟩ := (dropReturn line).trim_part
          exact Entry.read_lasting hbare (whole_trim (whole_dropReturn hline))
        · exact ih hls e he
    · rw [readLines, if_pos (Nat.le_of_not_lt hfits)]
      exact fun _ he => absurd he List.not_mem_nil

theorem lines_append (s t : Text) : (s ++ Text.newline :: t).lines = s.lines ++ t.lines := by
  unfold Text.lines
  rw [List.splitOn_eq_splitOnP, List.splitOn_eq_splitOnP, List.splitOn_eq_splitOnP]
  exact List.splitOnP_append_cons s t (beq_self_eq_true Text.newline)

theorem whole_of_mem_lines (h : line ∈ Text.lines t) : Text.newline ∉ line := by
  induction t generalizing line with
  | nil =>
    rw [Text.lines, List.splitOn_nil, List.mem_singleton] at h
    rw [h]
    exact List.not_mem_nil
  | cons b t ih =>
    rw [Text.lines, List.splitOn_eq_splitOnP, List.splitOnP_cons_eq_if_modifyHead,
      ← List.splitOn_eq_splitOnP, ← Text.lines] at h
    split at h
    · rcases List.mem_cons.1 h with rfl | h
      · exact List.not_mem_nil
      · exact ih h
    · rename_i hb
      cases hlines : Text.lines t with
      | nil =>
        rw [hlines] at h
        cases h
      | cons first rest =>
        rw [hlines] at h ih
        rcases List.mem_cons.1 h with rfl | h
        · intro hmem
          rcases List.mem_cons.1 hmem with rfl | hmem
          · exact hb (beq_self_eq_true _)
          · exact ih List.mem_cons_self hmem
        · exact ih (List.mem_cons_of_mem _ h)

theorem whole_of_mem_fileLines (h : line ∈ fileLines t) : Text.newline ∉ line := by
  unfold fileLines at h
  dsimp only at h
  split at h
  · exact whole_of_mem_lines ((List.dropLast_sublist _).mem h)
  · exact whole_of_mem_lines h

/-- A text in which every line is ended by a line break. -/
def Closed (t : Text) : Prop := t = [] ∨ ∃ s, t = s ++ [Text.newline]

theorem fileLines_closed (s : Text) : fileLines (s ++ [Text.newline]) = s.lines := by
  have hlines : (s ++ [Text.newline]).lines = s.lines ++ [[]] := lines_append s []
  unfold fileLines
  dsimp only
  rw [hlines, List.getLast?_concat, if_pos rfl, List.dropLast_concat]

theorem fileLines_write (ht : Closed t) (hrow : Text.newline ∉ row) :
    fileLines (t ++ (row ++ [Text.newline])) = fileLines t ++ [row] := by
  have hlines : Text.lines row = [row] := List.splitOn_eq_singleton hrow
  rcases ht with rfl | ⟨s, rfl⟩
  · rw [List.nil_append, fileLines_closed, hlines]
    rfl
  · rw [← List.append_assoc, fileLines_closed, fileLines_closed, List.append_assoc,
      List.singleton_append, lines_append, hlines]

theorem closed_write (t : Text) (e : Entry) : Closed (t ++ e.write) :=
  .inr ⟨t ++ e.row, (List.append_assoc t e.row [Text.newline]).symm⟩

theorem fileLines_rows {es : List Entry} (h : ∀ e ∈ es, e.Lasting) :
    Closed (es.flatMap Entry.write) ∧ fileLines (es.flatMap Entry.write) = es.map Entry.row := by
  induction es using List.reverseRecOn with
  | nil => exact ⟨.inl rfl, rfl⟩
  | append_singleton es e ih =>
    obtain ⟨hclosed, hlines⟩ := ih fun e' he' => h e' (List.mem_append_left _ he')
    have he := h e List.mem_concat_self
    rw [List.flatMap_append, List.flatMap_singleton]
    refine ⟨closed_write _ e, ?_⟩
    rw [Entry.write_eq, fileLines_write hclosed he.whole_row, hlines, List.map_append]
    rfl

structure Kept (h : History) : Prop where
  reload : load ⟨[], h.file⟩ = (none, h)
  closed : ∀ t, h.file = .content t → Closed t
  lasting : ∀ e ∈ h.entries, e.Lasting ∧ Fits e

theorem load_content (entries : List Entry) (h : readLines (fileLines t) = (es, true)) :
    load ⟨entries, .content t⟩ = (none, ⟨es, .content t⟩) := by
  unfold load
  dsimp only
  rw [h]
  rfl

/-- What was loaded without fault from closed lines is kept, if its rows fit. -/
theorem kept_of_load {file : File} {hist : History} (h : load ⟨[], file⟩ = (none, hist))
    (hclosed : ∀ t, file = .content t → Closed t) (hfits : ∀ e ∈ hist.entries, Fits e) :
    hist.Kept := by
  cases file with
  | missing | unreachable =>
    cases h
    exact ⟨rfl, fun _ ht => (by cases ht), fun _ he => absurd he List.not_mem_nil⟩
  | directory => cases h
  | content t =>
    have hhist : hist = ⟨(readLines (fileLines t)).1, .content t⟩ := by
      exact (congrArg Prod.snd h).symm
    subst hhist
    exact ⟨h, hclosed, fun e he =>
      ⟨lasting_of_readLines (fun _ => whole_of_mem_fileLines) e he, hfits e he⟩⟩

theorem store_content {file file' : File} (h : store append t file = (none, file')) :
    ∃ old, (file = .missing ∧ old = [] ∨ file = .content old) ∧
      file' = .content (if append then old ++ t else t) := by
  cases file with
  | missing =>
    cases h
    refine ⟨[], .inl ⟨rfl, rfl⟩, ?_⟩
    cases append
    · rfl
    · rfl
  | content old =>
    cases h
    exact ⟨old, .inr rfl, rfl⟩
  | directory | unreachable => cases h

/-- A line that can be typed: it holds no line break and no more characters than a field. -/
def Typed (line : Text) (mode : Mode) : Prop :=
  (mode = .eval ∨ mode = .command) ∧ Text.newline ∉ line ∧ (Utf8.symbols line).length ≤ 4096

instance (line : Text) (mode : Mode) : Decidable (Typed line mode) :=
  inferInstanceAs (Decidable (_ ∧ _))

theorem typed_lasting (h : Typed line mode) :
    Entry.Lasting ⟨line.trim, mode⟩ ∧ Fits ⟨line.trim, mode⟩ := by
  obtain ⟨hmode, hwhole, hlength⟩ := h
  obtain ⟨before, after, hline, hbare⟩ := line.trim_part
  have hbytes := Utf8.length_le_symbols line
  have htrim := congrArg List.length hline
  rw [List.length_append, List.length_append] at htrim
  refine ⟨⟨hmode, whole_trim hwhole, hbare⟩, ?_⟩
  change line.trim.length + 2 < 65536
  omega

/-- The lines are added in turn, and every one that is to be written is. -/
def addAll (h : History) : List (Text × Mode) → Option History
  | [] => some h
  | (line, mode) :: rest =>
    match h.add line mode with
    | (none, h') => addAll h' rest
    | (some _, _) => none

theorem Kept.lines {h : History} (hkept : h.Kept)
    (hfile : h.file = .missing ∧ old = [] ∨ h.file = .content old) :
    Closed old ∧ readLines (fileLines old) = (h.entries, true) := by
  obtain ⟨entries, file⟩ := h
  have hreload := hkept.reload
  rcases hfile with ⟨hfile, rfl⟩ | hfile
  · obtain rfl : file = .missing := hfile
    cases hreload
    exact ⟨.inl rfl, rfl⟩
  · obtain rfl : file = .content old := hfile
    refine ⟨hkept.closed old rfl, ?_⟩
    unfold load at hreload
    dsimp only at hreload
    cases hread : readLines (fileLines old) with
    | mk es complete =>
      rw [hread] at hreload
      cases complete with
      | true =>
        cases hreload
        rfl
      | false => cases hreload

theorem Kept.add {h h' : History} (hkept : h.Kept) (htyped : Typed line mode)
    (hadd : h.add line mode = (none, h')) : h'.Kept := by
  have hnew := typed_lasting htyped
  unfold History.add at hadd
  dsimp only at hadd
  generalize (⟨line.trim, mode⟩ : Entry) = e at hadd hnew
  have hentries : ∀ e' ∈ h.entries.erase e ++ [e], e'.Lasting ∧ Fits e' := by
    intro e' he'
    rcases List.mem_append.1 he' with he' | he'
    · exact hkept.lasting e' (List.mem_of_mem_erase he')
    · rw [List.mem_singleton.1 he']
      exact hnew
  by_cases hsame : (line.trim.isEmpty || decide (h.entries.getLast? = some e)) = true
  · rw [if_pos hsame] at hadd
    cases hadd
    exact hkept
  · rw [if_neg hsame] at hadd
    by_cases hrewrite : (h.entries.contains e ||
        decide (capacity < (h.entries.erase e ++ [e]).length)) = true
    · rw [if_pos hrewrite] at hadd
      generalize (h.entries.erase e ++ [e]).length - capacity = n at hadd
      have hrows := fun e' he' => hentries e' (List.mem_of_mem_drop (i := n) he')
      generalize (h.entries.erase e ++ [e]).drop n = es at hadd hrows
      cases hstore : store false (es.flatMap Entry.write) h.file with
      | mk error file =>
        rw [hstore] at hadd
        cases hadd
        obtain ⟨old, -, rfl⟩ := store_content hstore
        obtain ⟨hclosed, hlines⟩ := fileLines_rows fun e' he' => (hrows e' he').1
        refine ⟨?_, fun t ht => ?_, hrows⟩
        · apply load_content
          rw [← readLines_rows hrows, ← hlines]
          rfl
        · cases ht
          exact hclosed
    · rw [if_neg hrewrite] at hadd
      simp only [List.contains_eq_mem, Bool.or_eq_true, decide_eq_true_eq, not_or, Nat.not_lt]
        at hrewrite
      obtain ⟨hfresh, hroom⟩ := hrewrite
      rw [Nat.sub_eq_zero_of_le hroom, List.drop_zero] at hadd
      rw [List.erase_of_not_mem hfresh] at hadd hentries
      cases hstore : store true e.write h.file with
      | mk error file =>
        rw [hstore] at hadd
        cases hadd
        obtain ⟨old, hfile, rfl⟩ := store_content hstore
        obtain ⟨hclosed, hlines⟩ := hkept.lines hfile
        refine ⟨?_, fun t ht => ?_, hentries⟩
        · apply load_content
          rw [if_pos rfl, Entry.write_eq, fileLines_write hclosed hnew.1.whole_row,
            readLines_append (congrArg Prod.snd hlines), hlines,
            ← List.map_singleton, readLines_rows (List.forall_mem_singleton.2 hnew)]
        · cases ht
          exact closed_write old e

theorem Kept.addAll {h h' : History} (hkept : h.Kept) {adds : List (Text × Mode)}
    (htyped : ∀ a ∈ adds, Typed a.1 a.2) (hadd : h.addAll adds = some h') : h'.Kept := by
  induction adds generalizing h with
  | nil =>
    cases hadd
    exact hkept
  | cons a adds ih =>
    obtain ⟨line, mode⟩ := a
    obtain ⟨hline, hrest⟩ := List.forall_mem_cons.1 htyped
    rw [History.addAll] at hadd
    cases hfirst : h.add line mode with
    | mk error h₁ =>
      rw [hfirst] at hadd
      cases error with
      | none => exact ih (hkept.add hline hfirst) hrest hadd
      | some e => cases hadd

/-- Whatever is added to a history that was loaded from closed lines, as long as every write
succeeds, its file is loaded as what it has in memory. The rows of entries that were read without a
marker must leave room for one. -/
theorem load_addAll {file : File} {h h' : History} {adds : List (Text × Mode)}
    (hload : load ⟨[], file⟩ = (none, h)) (hclosed : ∀ t, file = .content t → Closed t)
    (hfits : ∀ e ∈ h.entries, Fits e) (htyped : ∀ a ∈ adds, Typed a.1 a.2)
    (hadd : h.addAll adds = some h') : load ⟨[], h'.file⟩ = (none, h') :=
  ((kept_of_load hload hclosed hfits).addAll htyped hadd).reload

theorem load_addAll_again :
    ∃ h h', load ⟨[], .content "E:one\nthree\n"⟩ = (none, h) ∧
      h.addAll [("one", .eval), ("two", .command)] = some h' ∧
      h'.file = .content "E:three\nE:one\nC:two\n" ∧ load ⟨[], h'.file⟩ = (none, h') := by
  have hload : load ⟨[], .content "E:one\nthree\n"⟩ =
      (none, ⟨[⟨"one", .eval⟩, ⟨"three", .eval⟩], .content "E:one\nthree\n"⟩) :=
    Prod.ext (Option.isNone_iff_eq_none.1 (by decide +kernel)) (by decide +kernel)
  have hadd : addAll ⟨[⟨"one", .eval⟩, ⟨"three", .eval⟩], .content "E:one\nthree\n"⟩
      [("one", .eval), ("two", .command)] =
        some ⟨[⟨"three", .eval⟩, ⟨"one", .eval⟩, ⟨"two", .command⟩],
          .content "E:three\nE:one\nC:two\n"⟩ := by decide +kernel
  have hclosed : ∀ t, File.content "E:one\nthree\n" = .content t → Closed t := by
    intro t ht
    cases ht
    exact .inr ⟨"E:one\nthree", rfl⟩
  have hfits : ∀ e ∈ [(⟨"one", .eval⟩ : Entry), ⟨"three", .eval⟩], Fits e := by decide
  have htyped : ∀ a ∈ [(("one" : Text), Mode.eval), ("two", .command)], Typed a.1 a.2 := by
    decide +kernel
  exact ⟨_, _, hload, hadd, rfl, load_addAll hload hclosed hfits htyped hadd⟩

/-- A row is lost in a line that no line break ends: the line before and the new one are read as a
single entry. -/
theorem load_unterminated :
    ¬ ∀ (file : File) (h h' : History) (adds : List (Text × Mode)),
      load ⟨[], file⟩ = (none, h) → (∀ a ∈ adds, Typed a.1 a.2) → h.addAll adds = some h' →
        load ⟨[], h'.file⟩ = (none, h') := by
  intro hall
  have hload : load ⟨[], .content "a"⟩ = (none, ⟨[⟨"a", .eval⟩], .content "a"⟩) :=
    Prod.ext (Option.isNone_iff_eq_none.1 (by decide +kernel)) (by decide +kernel)
  have hadd : addAll ⟨[⟨"a", .eval⟩], .content "a"⟩ [("b", .eval)] =
      some ⟨[⟨"a", .eval⟩, ⟨"b", .eval⟩], .content "aE:b\n"⟩ := by decide +kernel
  have hagain : load ⟨[], .content "aE:b\n"⟩ =
      (none, ⟨[⟨"aE:b", .eval⟩], .content "aE:b\n"⟩) :=
    Prod.ext (Option.isNone_iff_eq_none.1 (by decide +kernel)) (by decide +kernel)
  have hsame := hall _ _ _ _ hload (by decide +kernel) hadd
  dsimp only at hsame
  rw [hagain] at hsame
  cases hsame

end History

end LoxLang.Prompt
