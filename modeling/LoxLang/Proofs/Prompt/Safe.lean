import LoxLang.Prompt
import LoxLang.Proofs.Prompt.Field

namespace LoxLang

namespace Prompt
set_option autoImplicit true

/-- The bounds of the word cut the line in three, between characters. -/
def Placed (p : Prompt) : Prop :=
  ∃ before word after, p.field.chars = before ++ word ++ after ∧
    p.wordStart = (Text.ofChars before).length ∧
    p.wordEnd = (Text.ofChars (before ++ word)).length

theorem Placed.bounds {p : Prompt} (h : p.Placed) :
    p.wordStart ≤ p.wordEnd ∧ p.wordEnd ≤ p.field.text.length := by
  obtain ⟨before, word, after, hchars, hstart, hend⟩ := h
  rw [hstart, hend, Field.text, hchars]
  simp only [Text.ofChars_append, List.length_append]
  omega

theorem take_wordStart {p : Prompt} {before word after : List Char}
    (hchars : p.field.chars = before ++ word ++ after)
    (hstart : p.wordStart = (Text.ofChars before).length) :
    p.field.text.take p.wordStart = Text.ofChars before := by
  rw [hstart, Field.text, hchars, List.append_assoc, Text.ofChars_append, List.take_left]

theorem drop_wordEnd {p : Prompt} {before word after : List Char}
    (hchars : p.field.chars = before ++ word ++ after)
    (hend : p.wordEnd = (Text.ofChars (before ++ word)).length) :
    p.field.text.drop p.wordEnd = Text.ofChars after := by
  rw [hend, Field.text, hchars, Text.ofChars_append (before ++ word), List.drop_left]

/-- What holds of the prompt between messages. -/
structure Sound (p : Prompt) : Prop where
  clean : p.field.Clean
  placed : p.found ≠ [] → p.Placed
  chosen : p.cycling = true → 0 ≤ p.selected

/-- Completions are offered only for a word whose bounds lie between characters. -/
theorem completions_boundary {p : Prompt}
    (h : p.completions (Word.at p.field.text p.field.cursor) ≠ []) :
    Text.Boundary p.field.chars (Word.at p.field.text p.field.cursor).start ∧
      Text.Boundary p.field.chars (Word.at p.field.text p.field.cursor).stop := by
  by_cases hword : (Word.at p.field.text p.field.cursor).text = []
  · -- An empty word has completions only after the dot of a receiver, which is a whole character.
    obtain ⟨before, left, right, after, ht, -, hat, -⟩ := Word.at_cut p.field.text p.field.cursor
    rw [hat] at hword
    obtain ⟨rfl, rfl⟩ := List.append_eq_nil_iff.1 hword
    have hreceiver : ∃ name, receiverOf before = some name := by
      unfold completions at h
      rw [hat] at h
      simp only [List.append_nil] at ht h
      split at h
      · exact absurd rfl h
      · rw [ht, List.take_left] at h
        cases hr : receiverOf before with
        | some name => exact ⟨name, rfl⟩
        | none =>
          rw [hr] at h
          exact absurd rfl h
    obtain ⟨name, hname⟩ := hreceiver
    obtain ⟨u, b, rfl, hb⟩ := receiverOf_ascii hname
    have hget : (Text.ofChars p.field.chars)[u.length]? = some b := by
      change p.field.text[u.length]? = some b
      rw [ht]
      simp
    have hboundary := (Text.boundary_of_ascii hget hb).2
    rw [hat]
    simpa using hboundary
  · exact Word.at_boundary hword

theorem refresh_eq (accept : Bool) (p : Prompt) :
    p.refresh accept =
      (if accept && p.completions (Word.at p.field.text p.field.cursor) ==
          [(Word.at p.field.text p.field.cursor).text] then
        { p with
          found := []
          wordStart := (Word.at p.field.text p.field.cursor).start
          wordEnd := (Word.at p.field.text p.field.cursor).stop
          cycling := false
          selected := -1 }
      else
        { p with
          found := p.completions (Word.at p.field.text p.field.cursor)
          wordStart := (Word.at p.field.text p.field.cursor).start
          wordEnd := (Word.at p.field.text p.field.cursor).stop
          selected := if p.cycling then p.selected else -1 }) := by
  unfold refresh
  split
  · rfl
  · rfl

theorem refresh_sound {p : Prompt} (hclean : p.field.Clean)
    (hchosen : p.cycling = true → 0 ≤ p.selected) (accept : Bool) : (p.refresh accept).Sound := by
  rw [refresh_eq]
  split
  · exact ⟨hclean, fun h => absurd rfl h, fun h => by cases h⟩
  · refine ⟨hclean, fun h => ?_, fun h => ?_⟩
    · obtain ⟨hstart, hstop⟩ := completions_boundary h
      obtain ⟨hle, hle', -⟩ := Word.at_bounds p.field.text p.field.cursor
      exact hstart.cut hstop (Nat.le_trans hle hle')
    · dsimp only at h ⊢
      rw [if_pos h]
      exact hchosen h

theorem edit_sound {p : Prompt} (h : p.Sound) (accept : Bool) {change : Field → Field}
    (hchange : (change p.field).Clean) : (p.edit accept change).Sound :=
  refresh_sound (p := { p with historyAt := p.history.size, field := change p.field }) hchange
    h.chosen accept

theorem editPlainly_sound {p : Prompt} {change : Field → Field}
    (hchange : (change p.field).Clean) : (p.editPlainly change).Sound :=
  refresh_sound (p := { p with
    cycling := false
    historyAt := p.history.size
    field := change p.field }) hchange (fun h => by cases h) false

theorem restore_sound {p : Prompt} (hchosen : p.cycling = true → 0 ≤ p.selected) (d : Draft) :
    ((p.restore d).refresh false).Sound :=
  refresh_sound (p := p.restore d) (Field.set_clean _ p.field) hchosen false

theorem switchTo_sound {p : Prompt} (h : p.Sound) (mode : Mode) : (p.switchTo mode).Sound := by
  unfold switchTo
  apply restore_sound
  dsimp only
  split
  · exact h.chosen
  · exact h.chosen

theorem moveInHistory_sound {p : Prompt} (h : p.Sound) (forward sameMode : Bool) :
    (p.moveInHistory forward sameMode).Sound := by
  unfold moveInHistory
  split
  · rename_i e i _
    have hmode : (if e.mode = p.mode then p else p.switchTo e.mode).Sound := by
      split
      · exact h
      · exact switchTo_sound h e.mode
    dsimp only
    generalize (if e.mode = p.mode then p else p.switchTo e.mode) = q at hmode
    exact refresh_sound (p := { q with
      historyAt := i
      field := (q.field.set e.line).moveTo e.line.length }) (Field.set_clean _ q.field)
      hmode.chosen false
  · split
    · exact refresh_sound (p := { p with historyAt := p.history.size, field := p.field.set [] })
        (Field.set_clean _ p.field) h.chosen false
    · exact h

theorem execute_sound {p : Prompt} (h : p.Sound) (line : Text) : (p.execute line).1.Sound := by
  have hquit : Sound { p with quitting := true } := ⟨h.clean, h.placed, h.chosen⟩
  have hsession (s : Session) : Sound { p with session := s } := ⟨h.clean, h.placed, h.chosen⟩
  unfold execute
  dsimp only
  split
  · exact hquit
  · split
    · exact h
    · split
      · exact h
      · split
        · exact h
        · split
          · split
            · exact h
            · exact hsession _
          · split
            · exact h
            · exact h

theorem submit_sound {p : Prompt} (h : p.Sound) : p.submit.1.Sound := by
  unfold submit
  dsimp only
  split
  · exact h
  · have hempty (history : History) (n : Nat) : Sound { p with
        evalDraft := ⟨[], 0⟩
        commandDraft := ⟨[], 0⟩
        field := p.field.set []
        found := []
        history
        historyAt := n } :=
      ⟨Field.set_clean _ p.field, fun hf => (hf rfl).elim, h.chosen⟩
    split
    · exact execute_sound (hempty _ _) _
    · exact ⟨(hempty (p.history.add p.field.text.trim p.mode).2 0).clean, fun hf => (hf rfl).elim,
        h.chosen⟩

/-- The field has room for each completion on offer in the place of the word. -/
def Roomy (p : Prompt) : Prop :=
  ∀ c ∈ p.found, (Text.chars (p.field.text.take p.wordStart)).length + c.length ≤ Field.limit

/-- Where the bounds cut the line between characters, they part what stays from what is replaced. -/
theorem replaceWord_between {p : Prompt} {before word after : List Char}
    (hchars : p.field.chars = before ++ word ++ after)
    (hstart : p.wordStart = (Text.ofChars before).length)
    (hend : p.wordEnd = (Text.ofChars (before ++ word)).length) (c : Text) :
    p.replaceWord c = some { p with
      field := (p.field.set (Text.ofChars before ++ c ++ Text.ofChars after)).moveTo
        (p.wordStart + c.length)
      wordEnd := p.wordStart + c.length } := by
  have hplaced : p.Placed := ⟨before, word, after, hchars, hstart, hend⟩
  have hbounds := hplaced.bounds
  unfold replaceWord
  dsimp only
  rw [if_pos ⟨Nat.le_trans hbounds.1 hbounds.2, hbounds.2⟩, take_wordStart hchars hstart,
    drop_wordEnd hchars hend]

theorem replaceWord_eq {p : Prompt} (hclean : p.field.Clean) {before word after : List Char}
    (hchars : p.field.chars = before ++ word ++ after)
    (hstart : p.wordStart = (Text.ofChars before).length)
    (hend : p.wordEnd = (Text.ofChars (before ++ word)).length) {c : Text}
    (hc : ∀ b ∈ c, Text.isWord b = true) :
    ∃ cs field, Text.ofChars cs = c ∧ cs.length = c.length ∧ field.Clean ∧
      field.chars = (before ++ cs ++ after).take Field.limit ∧
      p.replaceWord c = some { p with field, wordEnd := p.wordStart + c.length } := by
  obtain ⟨cs, hcs, hlen, hset⟩ := Field.set_word hclean hchars hc p.field
  exact ⟨cs, (p.field.set (Text.ofChars before ++ c ++ Text.ofChars after)).moveTo
    (p.wordStart + c.length), hcs, hlen, Field.set_clean _ p.field, hset,
    replaceWord_between hchars hstart hend c⟩

theorem replaceWord_placed {p : Prompt} (hclean : p.field.Clean) (hplaced : p.Placed) {c : Text}
    (hc : ∀ b ∈ c, Text.isWord b = true)
    (hroom : (Text.chars (p.field.text.take p.wordStart)).length + c.length ≤ Field.limit) :
    ∃ field, field.Clean ∧
      p.replaceWord c = some { p with field, wordEnd := p.wordStart + c.length } ∧
      Placed { p with field, wordEnd := p.wordStart + c.length } := by
  obtain ⟨before, word, after, hchars, hstart, hend⟩ := hplaced
  obtain ⟨cs, field, hcs, hlen, hfield, hnew, hreplace⟩ :=
    replaceWord_eq hclean hchars hstart hend hc
  rw [take_wordStart hchars hstart, Text.chars_ofChars] at hroom
  refine ⟨field, hfield, hreplace, before, cs, after.take (Field.limit - (before ++ cs).length),
    ?_, hstart, ?_⟩
  · have hle : (before ++ cs).length ≤ Field.limit := by
      rw [List.length_append, hlen]
      exact hroom
    change field.chars = _
    rw [hnew, List.take_append, List.take_of_length_le hle]
  · change p.wordStart + c.length = _
    rw [hstart, Text.ofChars_append, List.length_append, hcs]

theorem replaceChosen_sound {p : Prompt} (hclean : p.field.Clean) (hplaced : p.Placed)
    (hwords : ∀ c ∈ p.found, ∀ b ∈ c, Text.isWord b = true) (hroomy : p.Roomy)
    (hlow : 0 ≤ p.selected) (hhigh : p.selected < p.found.length) :
    ∃ q, (match if (0 : Int) ≤ p.selected then p.found[p.selected.toNat]? else none with
      | some chosen => p.replaceWord chosen
      | none => none) = some q ∧ q.Sound := by
  have hlt : p.selected.toNat < p.found.length := by omega
  have hmem := List.getElem_mem hlt
  obtain ⟨field, hfield, hreplace, hnew⟩ :=
    replaceWord_placed hclean hplaced (hwords _ hmem) (hroomy _ hmem)
  rw [if_pos hlow, List.getElem?_eq_getElem hlt]
  exact ⟨_, hreplace, hfield, fun _ => hnew, fun _ => hlow⟩

theorem cycle_sound {p : Prompt} (h : p.Sound)
    (hwords : ∀ c ∈ p.found, ∀ b ∈ c, Text.isWord b = true) (hroomy : p.Roomy) (forward : Bool) :
    ∃ q, p.cycle forward = some q ∧ q.Sound := by
  unfold cycle
  rcases hfound : p.found with _ | ⟨only, _ | ⟨second, rest⟩⟩
  · exact ⟨p, rfl, h⟩
  · have honly : only ∈ p.found := hfound ▸ List.mem_singleton_self only
    obtain ⟨field, hclean, hreplace, -⟩ := replaceWord_placed h.clean
      (h.placed (hfound ▸ by simp)) (hwords only honly) (hroomy only honly)
    dsimp only
    rw [hreplace]
    exact ⟨_, rfl, hclean, fun hf => (hf rfl).elim, fun hf => by cases hf⟩
  · have hplaced := h.placed (hfound ▸ by simp)
    have hlength : (p.found.length : Int) = rest.length + 2 := by
      rw [hfound, List.length_cons, List.length_cons]
      omega
    dsimp only
    rw [← hfound]
    -- The choice stays within the list: it moves on from a place in it, or starts at an end.
    by_cases hcycling : p.cycling = true
    · rw [if_pos hcycling]
      have hselected := h.chosen hcycling
      refine replaceChosen_sound (p := { p with selected :=
        (p.selected + (if forward then 1 else -1) + p.found.length).tmod p.found.length })
        h.clean hplaced hwords hroomy ?_ ?_
      · apply Int.tmod_nonneg
        split <;> omega
      · exact Int.tmod_lt_of_pos _ (by omega)
    · rw [if_neg hcycling]
      refine replaceChosen_sound (p := { p with
        cycling := true
        untried := ⟨p.field.text, p.field.cursor⟩
        selected := if forward then 0 else p.found.length - 1 })
        h.clean hplaced hwords hroomy ?_ ?_
      · dsimp only
        split <;> omega
      · dsimp only
        split <;> omega

def Tries (key : Key) (p : Prompt) : Prop :=
  p.running = none ∧ (key = .tab ∨ key = .backTab)

/-- Every key has an effect and keeps the bounds right, unless it tries a completion that there is
no room for. -/
theorem handle_sound {p : Prompt} (h : p.Sound)
    (hwords : ∀ c ∈ p.found, ∀ b ∈ c, Text.isWord b = true) (key : Key)
    (hroomy : Tries key p → p.Roomy) :
    ∃ q effects, p.handle key = some (q, effects) ∧ q.Sound := by
  have hquit : Sound { p with quitting := true } := ⟨h.clean, h.placed, h.chosen⟩
  unfold handle
  split
  · refine ⟨_, _, rfl, ?_⟩
    split
    · exact ⟨h.clean, h.placed, h.chosen⟩
    · exact h
  · rename_i hrunning
    have hnone : p.running = none := by
      cases hr : p.running with
      | none => rfl
      | some b => simp [isRunning, hr] at hrunning
    have hcycle (forward : Bool) (hkey : key = .tab ∨ key = .backTab) :
        ∃ q, ∃ effects : List Effect,
          (p.cycle forward).map (·, []) = some (q, effects) ∧ q.Sound := by
      obtain ⟨q, hq, hsound⟩ := cycle_sound h hwords (hroomy ⟨hnone, hkey⟩) forward
      rw [hq]
      exact ⟨q, [], rfl, hsound⟩
    cases key with
    | tab => exact hcycle true (.inl rfl)
    | backTab => exact hcycle false (.inr rfl)
    | interrupt =>
      unfold press
      dsimp only
      split
      · exact ⟨_, _, rfl, hquit⟩
      · exact ⟨_, _, rfl, editPlainly_sound (Field.set_clean _ p.field)⟩
    | endOfInput =>
      unfold press
      dsimp only
      split
      · exact ⟨_, _, rfl, hquit⟩
      · exact ⟨_, _, rfl, h⟩
    | enter =>
      unfold press
      dsimp only
      split
      · exact ⟨_, _, rfl, submit_sound h⟩
      · exact ⟨_, _, rfl, refresh_sound (p := { p with cycling := false }) h.clean
          (fun hf => by cases hf) true⟩
    | escape =>
      unfold press
      dsimp only
      split
      · exact ⟨_, _, rfl, restore_sound (p := { p with cycling := false })
          (fun hf => by cases hf) p.untried⟩
      · exact ⟨_, _, rfl, switchTo_sound h _⟩
    | up | down | shiftUp | shiftDown => exact ⟨_, _, rfl, moveInHistory_sound h _ _⟩
    | space =>
      exact ⟨_, _, rfl, edit_sound (p := { p with cycling := false })
        ⟨h.clean, h.placed, fun hf => by cases hf⟩ true (Field.insert_clean h.clean _)⟩
    | typed cs => exact ⟨_, _, rfl, edit_sound h true (Field.insert_clean h.clean cs)⟩
    | left | right | lineStart | lineEnd => exact ⟨_, _, rfl, editPlainly_sound h.clean⟩
    | backspace | deleteBefore =>
      exact ⟨_, _, rfl, editPlainly_sound (Field.deleteFrom_clean h.clean _)⟩
    | delete => exact ⟨_, _, rfl, editPlainly_sound (Field.delete_clean h.clean)⟩
    | deleteAfter => exact ⟨_, _, rfl, editPlainly_sound (Field.deleteAfter_clean h.clean)⟩
    | deleteWord => exact ⟨_, _, rfl, editPlainly_sound (Field.deleteWord_clean h.clean)⟩

/-- What the prompt is told. -/
inductive Message where
  | key (k : Key)
  | resize (width : Int)
  /-- The session has changed: lines run beside the prompt. -/
  | session (s : Session)
  | finished (o : Session.Outcome)
  | edited (e : Editing)

/-- The prompt after a message, unless it breaks down. -/
def receive (p : Prompt) : Message → Option Prompt
  | .key k => (p.handle k).map Prod.fst
  | .resize width => some (p.resize width)
  | .session s => some { p with session := s }
  | .finished o => some (p.finished o).1
  | .edited e => some (p.edited e).1

/-- The prompt after messages in turn. -/
def receiveAll (p : Prompt) : List Message → Option Prompt
  | [] => some p
  | m :: ms => (p.receive m).bind fun q => q.receiveAll ms

/-- Whenever a key tries completions, there is room for them. -/
def KeepsRoom (p : Prompt) : List Message → Prop
  | [] => True
  | m :: ms => (∀ k, m = .key k → Tries k p → p.Roomy) ∧
      ∀ q, p.receive m = some q → q.KeepsRoom ms

theorem receive_sound {p : Prompt} (h : p.Sound)
    (hwords : ∀ c ∈ p.found, ∀ b ∈ c, Text.isWord b = true) (m : Message)
    (hroomy : ∀ k, m = .key k → Tries k p → p.Roomy) : ∃ q, p.receive m = some q ∧ q.Sound := by
  cases m with
  | key k =>
    obtain ⟨q, effects, hq, hsound⟩ := handle_sound h hwords k (hroomy k rfl)
    refine ⟨q, ?_, hsound⟩
    rw [receive, hq]
    rfl
  | resize width | session s | finished o => exact ⟨_, rfl, h.clean, h.placed, h.chosen⟩
  | edited e =>
    refine ⟨_, rfl, ?_⟩
    unfold edited
    cases e.ending with
    | ran o | canceled | declined | failed reason => exact ⟨h.clean, h.placed, h.chosen⟩

theorem mem_of_mem_find {pattern c : Text} {candidates : List Text}
    (h : c ∈ Matcher.find pattern candidates) : c ∈ candidates := by
  obtain ⟨⟨d, n⟩, hd, rfl⟩ := List.mem_map.1 h
  obtain ⟨e, he, hscore⟩ := List.mem_filterMap.1 (List.mem_reverse.1 (List.mem_mergeSort.1 hd))
  obtain ⟨_, -, hpair⟩ := Option.map_eq_some_iff.1 hscore
  cases hpair
  exact he

theorem length_find (pattern : Text) (candidates : List Text) :
    (Matcher.find pattern candidates).length =
      (candidates.filterMap fun c => (Matcher.score? pattern c).map (c, ·)).length := by
  rw [Matcher.find, List.length_map, List.length_mergeSort, List.length_reverse]

def blanks (n : Nat) : List Char := List.replicate n ' ' ++ ['f']

theorem blanks_plain (n : Nat) : ∀ c ∈ blanks n, Field.Plain c := by
  intro c hc
  rcases List.mem_append.1 hc with hc | hc
  · rw [List.eq_of_mem_replicate hc]
    exact show Field.clean [' '] = [' '] by decide
  · rw [List.mem_singleton.1 hc]
    exact show Field.clean ['f'] = ['f'] by decide

theorem text_blanks (n : Nat) : Text.ofChars (blanks n) = List.replicate n 32 ++ [102] := by
  have hblank : Text.ofChars (List.replicate n ' ') = List.replicate n 32 := by
    rw [Text.ofChars, List.flatMap_replicate]
    exact List.flatten_replicate_singleton
  rw [blanks, Text.ofChars_append, hblank]
  rfl

theorem word_blanks (n : Nat) :
    Word.at (Text.ofChars (blanks (n + 1))) (n + 2 : Nat) = ⟨[102], n + 1, n + 2⟩ := by
  have hlen : (List.replicate (n + 1) (32 : UInt8) ++ [102]).length = n + 2 := by simp
  have hclamp : clamp (List.replicate (n + 1) 32 ++ [102]) (n + 2 : Nat) = n + 2 := by
    rw [clamp, hlen, Int.toNat_natCast, Nat.min_self]
  have hstart : lastWordStart (List.replicate (n + 1) 32 ++ [102]) = n + 1 := by
    rw [lastWordStart_append, if_pos (by decide), List.replicate_succ', lastWordStart_append,
      if_neg (by decide), List.length_replicate]
  have htake : (List.replicate (n + 1) (32 : UInt8) ++ [102]).take (n + 2) =
      List.replicate (n + 1) 32 ++ [102] := List.take_of_length_le (Nat.le_of_eq hlen)
  have hdrop : (List.replicate (n + 1) (32 : UInt8) ++ [102]).drop (n + 2) = [] :=
    List.drop_eq_nil_of_le (Nat.le_of_eq hlen)
  have hstop : firstWordLength [] = 0 := by
    rw [firstWordLength, Utf8.symbols]
    rfl
  rw [text_blanks]
  unfold Word.at
  dsimp only
  have hword : (List.replicate (n + 1) (32 : UInt8) ++ [102]).drop (n + 1) = [102] :=
    List.drop_left' List.length_replicate
  rw [hclamp, hdrop, hstop, Nat.add_zero, htake, hstart, hword]

theorem insert_blanks (n : Nat) (hn : n + 1 ≤ Field.limit) :
    Field.empty.insert (blanks n) = ⟨blanks n, n + 1⟩ := by
  have hlen : (blanks n).length = n + 1 := by simp [blanks]
  have htake : (blanks n).take Field.limit = blanks n :=
    List.take_of_length_le (hlen.symm ▸ hn)
  have hroom : ¬ Field.limit - Field.empty.chars.length = 0 := by decide
  have hput : (⟨[], 0 + (blanks n).length⟩ : Field).put ([] ++ blanks n ++ []) =
      ⟨blanks n, n + 1⟩ := by
    rw [List.append_nil, List.nil_append, Field.put, htake, hlen, Nat.zero_add]
    simp
  unfold Field.insert
  dsimp only
  rw [if_neg hroom, Field.clean_of_plain (blanks_plain n)]
  change (⟨[], 0 + ((blanks n).take Field.limit).length⟩ : Field).put
    ([] ++ (blanks n).take Field.limit ++ []) = _
  rw [htake]
  exact hput

def blank : Prompt := new .new ⟨[], .missing⟩ [] fun _ => []

/-- What a word is completed to on a new session: reserved words and the clock. -/
def standardNames : List Text := Token.Kind.keywords.map Prod.fst ++ [Text.ofString "clock"]

theorem topLevel_blank : blank.topLevel = standardNames := by
  have hglobals : Session.new.globals = [Text.ofString "clock"] := by
    change Text.sort [_] = _
    rw [Text.sort, List.mergeSort_singleton]
    rfl
  exact congrArg (Token.Kind.keywords.map Prod.fst ++ ·) hglobals

theorem receiverOf_replicate (n : Nat) : receiverOf (List.replicate n 32) = none := by
  have htrim : trimEnd (List.replicate n 32) = [] := by
    rw [trimEnd, List.reverse_replicate, List.dropWhile_replicate]
    rfl
  rw [receiverOf, htrim]
  rfl

theorem length_find_letter : (Matcher.find [102] standardNames).length = 4 := by
  rw [length_find]
  decide +kernel

theorem standardNames_words :
    ∀ c ∈ standardNames, (∀ b ∈ c, Text.isWord b = true) ∧ 2 ≤ c.length ∧ c.length ≤ 6 := by
  have hall : standardNames.all (fun c =>
      c.all Text.isWord && decide (2 ≤ c.length) && decide (c.length ≤ 6)) = true := by
    decide +kernel
  simpa only [List.all_eq_true, Bool.and_eq_true, decide_eq_true_eq, and_assoc] using hall

theorem completions_letter {p : Prompt} {word : Word} (hmode : p.mode = .eval)
    (hsession : p.session = .new) (hword : word.text = [102])
    (hreceiver : receiverOf (p.field.text.take word.start) = none) :
    p.completions word = Matcher.find [102] standardNames := by
  have hnot : ¬ p.mode = .command := by
    rw [hmode]
    exact Mode.noConfusion
  have htop : p.topLevel = standardNames := by
    rw [← topLevel_blank, topLevel, hsession]
    rfl
  rw [completions, if_neg hnot, hreceiver, hword, htop]
  rfl

theorem receive_blanks (n : Nat) (hn : n + 2 ≤ Field.limit) :
    blank.receive (.key (.typed (blanks (n + 1)))) = some { blank with
      historyAt := 0
      field := ⟨blanks (n + 1), n + 2⟩
      found := Matcher.find [102] standardNames
      wordStart := n + 1
      wordEnd := n + 2
      selected := -1 } := by
  let p : Prompt := { blank with
    historyAt := 0
    field := ⟨blanks (n + 1), n + 2⟩ }
  have hword : Word.at p.field.text p.field.cursor = ⟨[102], n + 1, n + 2⟩ := word_blanks n
  have hfound : p.completions (Word.at p.field.text p.field.cursor) =
      Matcher.find [102] standardNames := by
    have htake : p.field.text.take (n + 1) = List.replicate (n + 1) 32 := by
      change (Text.ofChars (blanks (n + 1))).take (n + 1) = _
      rw [text_blanks, List.take_left' List.length_replicate]
    rw [hword]
    apply completions_letter rfl rfl rfl
    rw [htake]
    exact receiverOf_replicate (n + 1)
  have hmany : ¬ (true && Matcher.find [102] standardNames == [[102]]) = true := by
    intro he
    have hlength := length_find_letter
    rw [eq_of_beq he] at hlength
    cases hlength
  change some (refresh true { blank with
    historyAt := 0
    field := Field.empty.insert (blanks (n + 1)) }) = _
  rw [insert_blanks (n + 1) hn]
  change some (p.refresh true) = _
  rw [refresh_eq, hfound, hword, if_neg hmany]
  rfl

def lettered : Prompt := { blank with
  historyAt := 0
  field := ⟨blanks 1, 2⟩
  found := Matcher.find [102] standardNames
  wordStart := 1
  wordEnd := 2
  selected := -1 }

theorem receiveAll_lettered : blank.receiveAll [.key (.typed (blanks 1))] = some lettered := by
  rw [receiveAll, receive_blanks 0 (by decide)]
  rfl

theorem replaceWord_beyond {p : Prompt} (h : p.field.text.length < p.wordEnd) (c : Text) :
    p.replaceWord c = none := by
  unfold replaceWord
  exact if_neg fun hle => absurd hle.2 (Nat.not_le.2 h)

theorem cycle_first {p : Prompt} (hfound : p.found = first :: second :: rest)
    (hcycling : ¬ p.cycling = true) :
    p.cycle true = replaceWord first { p with
      cycling := true
      untried := ⟨p.field.text, p.field.cursor⟩
      selected := 0 } := by
  unfold cycle
  rw [hfound]
  dsimp only
  rw [if_neg hcycling]
  rfl

theorem cycle_beyond {p : Prompt} (hfound : p.found = first :: second :: rest)
    (hcycling : p.cycling = true) (h : p.field.text.length < p.wordEnd) (forward : Bool) :
    p.cycle forward = none := by
  unfold cycle
  rw [hfound]
  dsimp only
  rw [if_pos hcycling]
  split
  · apply replaceWord_beyond
    exact h
  · rfl

end Prompt

end LoxLang
