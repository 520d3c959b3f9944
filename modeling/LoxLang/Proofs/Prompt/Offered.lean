import LoxLang.Proofs.Prompt.Around
import LoxLang.Proofs.Prompt.Drafts
import LoxLang.Proofs.Prompt.Names

namespace LoxLang

namespace Prompt
set_option autoImplicit true

/-- The bounds enclose a longest run of word characters, of a line whose end may be cut off. The
cursor, taken for a position in bytes, lies within them, or the line ends before them. -/
structure Field.Marked (f : Field) (start stop : Nat) (before word after : List Char) : Prop where
  chars : f.chars = (before ++ word ++ after).take limit
  left : ∀ c ∈ before.getLast?, isWordChar c = false
  inside : ∀ c ∈ word, isWordChar c = true
  right : ∀ c ∈ after.head?, isWordChar c = false
  first : start = (Text.ofChars before).length
  last : stop = (Text.ofChars (before ++ word)).length
  low : start ≤ f.cursor ∨ f.cursor = f.chars.length
  high : f.cursor ≤ stop

structure Offering (p : Prompt) : Prop where
  legal : p.field.Legal
  session : p.session.Reached
  words : ∀ c ∈ p.found, c.AllWord
  marked : p.found ≠ [] →
    ∃ before word after, p.field.Marked p.wordStart p.wordEnd before word after
  idle : p.found ≠ [] → p.running = none
  chosen : p.cycling = true → 0 ≤ p.selected

theorem new_offering {session : Session} (h : session.Reached) (history : History)
    (defines : Dict Text) (environment : Text → Text) :
    (new session history defines environment).Offering where
  legal := Field.empty_legal
  session := h
  words _ hc := absurd hc List.not_mem_nil
  marked hf := (hf rfl).elim
  idle hf := (hf rfl).elim
  chosen hc := by cases hc

theorem Offering.of_nothing {p : Prompt} (hfound : p.found = []) (hlegal : p.field.Legal)
    (hsession : p.session.Reached) (hchosen : p.cycling = true → 0 ≤ p.selected) : p.Offering where
  legal := hlegal
  session := hsession
  words c hc := by
    rw [hfound] at hc
    exact absurd hc List.not_mem_nil
  marked hf := absurd hfound hf
  idle hf := absurd hfound hf
  chosen := hchosen

/-- The word around the cursor is looked for at the position in bytes that has the cursor's
number. -/
theorem clamp_cursor {f : Field} (h : f.Legal) : clamp f.text f.cursor = f.cursor := by
  have hlength : f.cursor ≤ f.text.length := Nat.le_trans h.cursor (length_le_ofChars f.chars)
  rw [clamp, Int.toNat_natCast, Nat.min_eq_left hlength]

/-- Looking for completions marks the word, whatever was marked before. -/
theorem refresh_offering {p : Prompt} (hlegal : p.field.Legal) (hsession : p.session.Reached)
    (hidle : p.running = none) (hchosen : p.cycling = true → 0 ≤ p.selected) (accept : Bool) :
    (p.refresh accept).Offering := by
  rw [refresh_eq]
  split
  · exact .of_nothing rfl hlegal hsession fun hc => by cases hc
  · refine ⟨hlegal, hsession, completions_allWord hsession _, fun hf => ?_, fun _ => hidle,
      fun hc => ?_⟩
    · obtain ⟨hstart, hstop⟩ := completions_boundary hf
      obtain ⟨before, word, after, hchars, hfirst, hlast, hleft, hinside, hright⟩ :=
        Word.at_chars hstart hstop
      obtain ⟨hlow, hhigh, -⟩ := Word.at_bounds p.field.text p.field.cursor
      rw [clamp_cursor hlegal] at hlow hhigh
      refine ⟨before, word, after, ?_, hleft, hinside, hright, hfirst, hlast, .inl hlow, hhigh⟩
      change p.field.chars = _
      rw [← hchars, List.take_of_length_le hlegal.length]
    · dsimp only at hc ⊢
      rw [if_pos hc]
      exact hchosen hc

theorem switchTo_offering {p : Prompt} (h : p.Offering) (hidle : p.running = none) (mode : Mode) :
    (p.switchTo mode).Offering := by
  obtain ⟨evalDraft, commandDraft, field, hlegal, hp⟩ := switchTo_leaves mode p
  rw [hp]
  exact refresh_offering (p := { p with mode, evalDraft, commandDraft, field }) hlegal h.session
    hidle h.chosen false

theorem moveInHistory_offering {p : Prompt} (h : p.Offering) (hidle : p.running = none)
    (forward sameMode : Bool) : (p.moveInHistory forward sameMode).Offering := by
  unfold moveInHistory
  split
  · rename_i e i _
    have hmode : (if e.mode = p.mode then p else p.switchTo e.mode).Offering ∧
        (if e.mode = p.mode then p else p.switchTo e.mode).running = none := by
      split
      · exact ⟨h, hidle⟩
      · exact ⟨switchTo_offering h hidle e.mode, (switchTo_running _ p).trans hidle⟩
    dsimp only
    generalize (if e.mode = p.mode then p else p.switchTo e.mode) = q at hmode
    exact refresh_offering (p := { q with
      historyAt := i
      field := (q.field.set e.line).moveTo e.line.length })
      (Field.moveTo_legal (Field.set_legal _ _) _) hmode.1.session hmode.2 hmode.1.chosen false
  · split
    · exact refresh_offering (p := { p with historyAt := p.history.size, field := p.field.set [] })
        (Field.set_legal _ _) h.session hidle h.chosen false
    · exact h

/-- The run of word characters is all there if the bounds lie within the line. -/
theorem Field.Marked.whole {f : Field} (h : f.Marked start stop before word after)
    (hwhole : stop ≤ f.text.length) :
    ∃ rest, f.chars = before ++ word ++ rest ∧ f.Marked start stop before word rest := by
  have hle : (before ++ word).length ≤ limit := by
    by_contra hlong
    rw [Nat.not_le] at hlong
    have htake : f.chars = (before ++ word).take limit := by
      rw [h.chars, List.take_append_of_le_length (Nat.le_of_lt hlong)]
    have hdrop : (before ++ word).drop limit ≠ [] := by
      intro hnil
      exact absurd (List.drop_eq_nil_iff.1 hnil) (Nat.not_le.2 hlong)
    have hpos := Text.length_ofChars_pos hdrop
    have hsplit : (Text.ofChars (before ++ word)).length =
        f.text.length + (Text.ofChars ((before ++ word).drop limit)).length := by
      rw [Field.text, htake, ← List.length_append, ← Text.ofChars_append, List.take_append_drop]
    rw [h.last] at hwhole
    omega
  have hchars : f.chars = before ++ word ++ after.take (limit - (before ++ word).length) := by
    rw [h.chars, List.take_append, List.take_of_length_le hle]
  refine ⟨after.take (limit - (before ++ word).length), hchars, ?_, h.left, h.inside, ?_,
    h.first, h.last, h.low, h.high⟩
  · rw [← hchars, h.chars, List.take_take, Nat.min_self]
  · intro c hc
    rw [List.head?_take] at hc
    split at hc
    · cases hc
    · exact h.right c hc

theorem replaceWord_marked {p : Prompt}
    (h : p.field.Marked p.wordStart p.wordEnd before word after) (hclean : p.field.Clean)
    (hchars : p.field.chars = before ++ word ++ after) (hc : Text.AllWord c) :
    ∃ field, p.replaceWord c = some { p with field, wordEnd := p.wordStart + c.length } ∧
      field.Legal ∧ field.chars = (before ++ c.chars ++ after).take Field.limit ∧
      field.cursor = min (p.wordStart + c.length) field.chars.length ∧
      field.Marked p.wordStart (p.wordStart + c.length) before c.chars after := by
  obtain ⟨cs, rfl, hlen, hset⟩ := Field.set_word hclean hchars hc p.field
  rw [Text.chars_ofChars]
  refine ⟨_, replaceWord_between hchars h.first h.last (Text.ofChars cs),
    Field.moveTo_legal (Field.set_legal _ _) _, hset, rfl, hset, h.left, isWordChar_of_bytes hc,
    h.right, h.first, ?_, ?_, Nat.min_le_left _ _⟩
  · rw [h.first, Text.ofChars_append, List.length_append]
  · dsimp only [Field.moveTo]
    omega

/-- Where the completion stands that is tried next: after the last that was tried or before it,
starting over at the end, or else at the start or at the end. -/
def place (forward : Bool) (p : Prompt) : Nat :=
  let n := p.found.length
  if p.cycling then (p.selected.toNat + if forward then 1 else n - 1) % n
  else if forward then 0 else n - 1

/-- The completion that is tried next. -/
def tried? (forward : Bool) (p : Prompt) : Option Text := p.found[p.place forward]?

theorem place_lt {p : Prompt} (h : p.found ≠ []) (forward : Bool) :
    p.place forward < p.found.length := by
  have hpos := List.length_pos_iff.2 h
  unfold place
  dsimp only
  split
  · exact Nat.mod_lt _ hpos
  · split
    · exact hpos
    · exact Nat.sub_one_lt (Nat.ne_of_gt hpos)

theorem tried?_mem {p : Prompt} (h : p.tried? forward = some c) : c ∈ p.found :=
  List.mem_of_getElem? h

theorem exists_tried? {p : Prompt} (h : p.found ≠ []) (forward : Bool) :
    ∃ c, p.tried? forward = some c :=
  ⟨_, List.getElem?_eq_getElem (place_lt h forward)⟩

/-- What is on offer once a completion is tried: nothing any more if it is the only one, or else the
others, too, with that one chosen. The line before the first one is kept. -/
def choose (forward : Bool) (p : Prompt) : Prompt :=
  if p.found.length = 1 then { p with found := [], selected := -1, cycling := false }
  else { p with
    cycling := true
    selected := p.place forward
    untried := if p.cycling then p.untried else p.drafted }

theorem choose_leaves (forward : Bool) (p : Prompt) : (p.choose forward).running = p.running ∧
    (p.choose forward).wordStart = p.wordStart ∧
    ((p.choose forward).found = [] ∨ (p.choose forward).found = p.found) := by
  unfold choose
  split
  · exact ⟨rfl, rfl, .inl rfl⟩
  · exact ⟨rfl, rfl, .inr rfl⟩

theorem replaceWord_choose (c : Text) (forward : Bool) (p : Prompt) :
    (p.choose forward).replaceWord c = (p.replaceWord c).map fun q =>
      { p.choose forward with field := q.field, wordEnd := q.wordEnd } := by
  obtain ⟨hfield, hstart, hend⟩ : (p.choose forward).field = p.field ∧
      (p.choose forward).wordStart = p.wordStart ∧ (p.choose forward).wordEnd = p.wordEnd := by
    unfold choose
    split
    · exact ⟨rfl, rfl, rfl⟩
    · exact ⟨rfl, rfl, rfl⟩
  generalize p.choose forward = r at hfield hstart hend
  unfold replaceWord
  rw [hfield, hstart, hend]
  dsimp only
  split
  · rw [Option.map_some, hstart]
  · rfl

theorem tmod_next {i : Int} {n : Nat} (hi : 0 ≤ i) (hn : 0 < n) (forward : Bool) :
    (i + (if forward then 1 else -1) + n).tmod n =
      ((i.toNat + if forward then 1 else n - 1) % n : Nat) := by
  obtain ⟨m, rfl⟩ := Int.eq_ofNat_of_zero_le hi
  cases forward with
  | true =>
    have hsum : (m : Int) + 1 + n = ((m + 1 + n : Nat) : Int) := rfl
    rw [if_pos rfl, if_pos rfl, hsum, Int.toNat_natCast, ← Int.ofNat_tmod, Nat.add_mod_right]
  | false =>
    have hsum : (m : Int) + -1 + n = ((m + (n - 1) : Nat) : Int) := by omega
    rw [if_neg Bool.false_ne_true, if_neg Bool.false_ne_true, hsum, Int.toNat_natCast,
      ← Int.ofNat_tmod]

/-- The prompt with the next of several completions chosen, in whole numbers. -/
def aim (forward : Bool) (p : Prompt) : Prompt :=
  if p.cycling then { p with
    selected := (p.selected + (if forward then 1 else -1) + p.found.length).tmod p.found.length }
  else { p with
    cycling := true
    untried := p.drafted
    selected := if forward then 0 else p.found.length - 1 }

theorem aim_eq {p : Prompt} (hfound : p.found ≠ []) (hmany : p.found.length ≠ 1)
    (hchosen : p.cycling = true → 0 ≤ p.selected) (forward : Bool) :
    p.aim forward = p.choose forward := by
  have hpos := List.length_pos_iff.2 hfound
  unfold aim choose place
  dsimp only
  rw [if_neg hmany]
  cases hcycling : p.cycling with
  | true =>
    have hnext := tmod_next (hchosen hcycling) hpos forward
    rw [if_pos rfl, if_pos rfl, if_pos rfl, hnext, ← hcycling]
  | false =>
    have hlast : ((p.found.length - 1 : Nat) : Int) = p.found.length - 1 := by omega
    rw [if_neg Bool.false_ne_true, if_neg Bool.false_ne_true, if_neg Bool.false_ne_true]
    cases forward with
    | true => rfl
    | false => rw [if_neg Bool.false_ne_true, if_neg Bool.false_ne_true, hlast]

theorem handle_completes {p : Prompt} (hidle : p.running = none) (hk : k.Completes) :
    p.handle k = (p.cycle (k = .tab)).map (·, []) := by
  rw [handle_idle hidle]
  rcases hk with rfl | rfl
  · rfl
  · rfl

theorem cycle_none {p : Prompt} (hfound : p.found = []) (forward : Bool) :
    p.cycle forward = some p := by
  unfold cycle
  rw [hfound]

theorem cycle_one {p : Prompt} (hfound : p.found = [only]) (forward : Bool) :
    p.cycle forward = (p.choose forward).replaceWord only := by
  have hone : p.found.length = 1 := congrArg List.length hfound
  rw [choose, if_pos hone]
  unfold cycle
  rw [hfound]
  unfold replaceWord
  dsimp only
  split
  · rfl
  · rfl

theorem cycle_many {p : Prompt} (hmany : p.found.length ≠ 1)
    (hchosen : p.cycling = true → 0 ≤ p.selected) (htried : p.tried? forward = some c) :
    p.cycle forward = (p.choose forward).replaceWord c := by
  have hfound : p.found ≠ [] := List.ne_nil_of_mem (tried?_mem htried)
  have hselected : (p.choose forward).selected = p.place forward := by
    rw [choose, if_neg hmany]
  have hnext : (if (0 : Int) ≤ (p.aim forward).selected then
      p.found[(p.aim forward).selected.toNat]? else none) = some c := by
    rw [aim_eq hfound hmany hchosen, hselected, if_pos (Int.natCast_nonneg _), Int.toNat_natCast]
    exact htried
  rw [← aim_eq hfound hmany hchosen]
  unfold cycle
  rcases hlist : p.found with _ | ⟨first, _ | ⟨second, rest⟩⟩
  · exact absurd hlist hfound
  · exact absurd (congrArg List.length hlist) hmany
  · dsimp only
    rw [← hlist]
    split
    · rename_i d hd
      have hsame : some d = some c := hd.symm.trans hnext
      rw [Option.some.inj hsame]
      rfl
    · rename_i hnone
      have hno : none = some c := hnone.symm.trans hnext
      cases hno

theorem cycle_tried {p : Prompt} (hchosen : p.cycling = true → 0 ≤ p.selected)
    (htried : p.tried? forward = some c) :
    p.cycle forward = (p.choose forward).replaceWord c := by
  by_cases hone : p.found.length = 1
  · obtain ⟨only, hfound⟩ := List.length_eq_one_iff.1 hone
    have hc := tried?_mem htried
    rw [hfound, List.mem_singleton] at hc
    rw [hc, cycle_one hfound]
  · exact cycle_many hone hchosen htried

theorem cycle_offering {p q : Prompt} (h : p.Offering) (hq : p.cycle forward = some q) :
    q.Offering := by
  by_cases hfound : p.found = []
  · rw [cycle_none hfound] at hq
    cases hq
    exact h
  · obtain ⟨c, htried⟩ := exists_tried? hfound forward
    rw [cycle_tried h.chosen htried, replaceWord_choose] at hq
    obtain ⟨r, hr, rfl⟩ := Option.map_eq_some_iff.1 hq
    have hwhole : p.wordEnd ≤ p.field.text.length := by
      by_contra hbeyond
      rw [replaceWord_beyond (Nat.not_le.1 hbeyond)] at hr
      cases hr
    obtain ⟨before, word, after, hmarked⟩ := h.marked hfound
    obtain ⟨rest, hchars, hmarked⟩ := hmarked.whole hwhole
    obtain ⟨field, hreplace, hlegal, -, -, hnew⟩ :=
      replaceWord_marked hmarked h.legal.clean hchars (h.words c (tried?_mem htried))
    rw [hreplace] at hr
    cases hr
    unfold choose
    split
    · exact .of_nothing rfl hlegal h.session fun hc => by cases hc
    · exact ⟨hlegal, h.session, h.words, fun _ => ⟨before, c.chars, rest, hnew⟩,
        fun _ => h.idle hfound, fun _ => Int.natCast_nonneg _⟩

theorem receive_offering {p q : Prompt} (h : p.Offering) (hm : m.Real)
    (hq : p.receive m = some q) : q.Offering := by
  have hlegal := receive_legal h.legal hq
  cases receive_heard hq with
  | aside session width buffer running hsession hrunning =>
    have hreached : session.Reached := by
      rcases hsession with rfl | rfl | ⟨e, rfl, rfl⟩
      · exact h.session
      · exact hm
      · obtain ⟨now, signal, editor, buffer, s, hs, rfl⟩ := hm
        exact revise_reached hs _ _ _ _ _ _ _ _
    exact ⟨h.legal, hreached, h.words, h.marked, fun hf => hrunning (h.idle hf), h.chosen⟩
  | key k hidle hstep =>
    cases hstep with
    | stay quitting _ => exact ⟨h.legal, h.session, h.words, h.marked, h.idle, h.chosen⟩
    | edit field historyAt accept hfield =>
      exact refresh_offering (p := { p with cycling := false, field, historyAt })
        (hfield h.legal) h.session hidle (fun hc => by cases hc) accept
    | type cs =>
      exact refresh_offering (p := { p with
        historyAt := p.history.size
        field := p.field.insert cs }) (Field.insert_legal h.legal cs) h.session hidle h.chosen true
    | toggle _ => exact switchTo_offering h hidle _
    | browse forward sameMode _ => exact moveInHistory_offering h hidle forward sameMode
    | complete forward _ hcycle => exact cycle_offering h hcycle
    | submit _ =>
      by_cases hline : p.field.text.trim = []
      · rw [submit_blank hline]
        exact h
      · obtain ⟨history, historyAt, quitting, session, running, -, hsession, hp⟩ :=
          submit_taken hline
        have hreached : session.Reached := by
          rcases hsession with rfl | hdefine
          · exact h.session
          · have hnew := Session.Reached.new.define p.environment p.defines
            rw [hdefine] at hnew
            exact hnew
        rw [hp]
        exact .of_nothing rfl Field.empty_legal hreached h.chosen

theorem receiveAll_offering {p q : Prompt} (h : p.Offering) (hms : ∀ m ∈ ms, Message.Real m)
    (hq : p.receiveAll ms = some q) : q.Offering := by
  induction ms generalizing p with
  | nil =>
    cases hq
    exact h
  | cons m ms ih =>
    obtain ⟨hm, hrest⟩ := List.forall_mem_cons.1 hms
    obtain ⟨r, hr, hrq⟩ := Option.bind_eq_some_iff.1 hq
    exact ih (receive_offering h hm hr) hrest hrq

theorem new_sound (session : Session) (history : History) (defines : Dict Text)
    (environment : Text → Text) : (new session history defines environment).Sound :=
  ⟨Field.empty_clean, fun h => (h rfl).elim, fun h => by cases h⟩

theorem receiveAll_sound {p : Prompt} (h : p.Sound) (hoffering : p.Offering)
    (hms : ∀ m ∈ ms, Message.Real m) (hroom : p.KeepsRoom ms) :
    ∃ q, p.receiveAll ms = some q ∧ q.Sound := by
  induction ms generalizing p with
  | nil => exact ⟨p, rfl, h⟩
  | cons m ms ih =>
    obtain ⟨hroomy, hroom⟩ := hroom
    obtain ⟨hm, hms⟩ := List.forall_mem_cons.1 hms
    obtain ⟨q, hq, hsound⟩ := receive_sound h hoffering.words m hroomy
    rw [receiveAll, hq]
    exact ih hsound (receive_offering hoffering hm hq) hms (hroom q hq)

/-- Whatever messages a prompt gets from the start on, it does not break down as long as there is
room in the field for the completions that are tried; and while completions are on offer, the bounds
of the word lie between characters of the line, in order. -/
theorem receiveAll_safe {session : Session} (hsession : session.Reached) (history : History)
    (defines : Dict Text) (environment : Text → Text) {ms : List Message}
    (hms : ∀ m ∈ ms, Message.Real m)
    (hroom : (new session history defines environment).KeepsRoom ms) :
    ∃ p, (new session history defines environment).receiveAll ms = some p ∧
      (p.found ≠ [] → p.Placed ∧ p.wordStart ≤ p.wordEnd ∧ p.wordEnd ≤ p.field.text.length) := by
  obtain ⟨p, hp, hsound⟩ := receiveAll_sound (new_sound session history defines environment)
    (new_offering hsession history defines environment) hms hroom
  exact ⟨p, hp, fun hf => ⟨hsound.placed hf, (hsound.placed hf).bounds⟩⟩

theorem keepsRoom_blanks : blank.KeepsRoom [.key (.typed (blanks 1)), .key .tab] := by
  refine ⟨fun k hk htries => ?_, fun q hq => ⟨fun k _ _ => ?_, fun _ _ => trivial⟩⟩
  · cases hk
    rcases htries.2 with h | h <;> cases h
  · rw [receive_blanks 0 (by decide)] at hq
    cases hq
    intro c hc
    obtain ⟨-, -, hlong⟩ := standardNames_words c (mem_of_mem_find hc)
    have htake : (Field.text ⟨blanks 1, 2⟩).take 1 = Text.ofChars [' '] := by
      change (Text.ofChars (blanks 1)).take 1 = _
      rw [text_blanks]
      rfl
    change (Text.chars ((Field.text ⟨blanks 1, 2⟩).take 1)).length + c.length ≤ Field.limit
    rw [htake, Text.chars_ofChars]
    exact Nat.le_trans (Nat.add_le_add_left hlong 1) (by decide)

theorem receiveAll_safe_blanks :
    blank.KeepsRoom [.key (.typed (blanks 1)), .key .tab] ∧
      ∃ p, blank.receiveAll [.key (.typed (blanks 1)), .key .tab] = some p ∧
        (p.found ≠ [] → p.Placed ∧ p.wordStart ≤ p.wordEnd ∧ p.wordEnd ≤ p.field.text.length) :=
  ⟨keepsRoom_blanks, receiveAll_safe .new _ _ _ (by simp [Message.Real]) keepsRoom_blanks⟩

/-- The prompt breaks down when the next of several completions is tried after one that the field had
no room for: the bounds are those of the whole word, and the line ends within it. -/
theorem cycle_cut {p : Prompt} (hclean : p.field.Clean) {before word after : List Char}
    (hchars : p.field.chars = before ++ word ++ after)
    (hstart : p.wordStart = (Text.ofChars before).length)
    (hend : p.wordEnd = (Text.ofChars (before ++ word)).length)
    (hfound : p.found = first :: second :: rest) (hcycling : ¬ p.cycling = true)
    (hword : ∀ b ∈ first, Text.isWord b = true) (hbefore : before.length ≤ Field.limit)
    (hcut : Field.limit < before.length + first.length) :
    ∃ q, p.cycle true = some q ∧ q.running = p.running ∧ q.cycle true = none := by
  obtain ⟨cs, field, hcs, hlen, -, hnew, hreplace⟩ :=
    replaceWord_eq (p := { p with
      cycling := true
      untried := ⟨p.field.text, p.field.cursor⟩
      selected := 0 }) hclean hchars hstart hend hword
  have hbeyond (q : Prompt) (hf : q.found = p.found) (hc : q.cycling = true)
      (hq : q.field.text.length < q.wordEnd) : q.cycle true = none :=
    cycle_beyond (hf.trans hfound) hc hq true
  refine ⟨_, (cycle_first hfound hcycling).trans hreplace, rfl, hbeyond _ rfl rfl ?_⟩
  change field.text.length < p.wordStart + first.length
  have htake : field.chars = before ++ cs.take (Field.limit - before.length) := by
    rw [hnew, List.append_assoc, List.take_append, List.take_of_length_le hbefore,
      List.take_append_of_le_length (by omega)]
  have hdrop : cs.drop (Field.limit - before.length) ≠ [] := by
    intro hnil
    have hle := List.drop_eq_nil_iff.1 hnil
    omega
  have hpos := Text.length_ofChars_pos hdrop
  have hsplit := congrArg List.length
    (congrArg Text.ofChars (List.take_append_drop (Field.limit - before.length) cs))
  rw [Text.ofChars_append, List.length_append, hcs] at hsplit
  rw [Field.text, htake, hstart, Text.ofChars_append, List.length_append]
  omega

/-- In a field full of blanks and a letter the first word with that letter is cut, and the prompt
breaks down at the next. -/
theorem receiveAll_blanks (n : Nat) (hn : n + 2 = Field.limit) :
    blank.receiveAll [.key (.typed (blanks (n + 1))), .key .tab, .key .tab] = none := by
  obtain ⟨first, second, rest, hlist⟩ :
      ∃ first second rest, Matcher.find [102] standardNames = first :: second :: rest := by
    match Matcher.find [102] standardNames, length_find_letter with
    | first :: second :: rest, _ => exact ⟨first, second, rest, rfl⟩
  have hmem : first ∈ standardNames := mem_of_mem_find (hlist ▸ List.mem_cons_self)
  obtain ⟨hfirst, hlong, -⟩ := standardNames_words first hmem
  have htyped := receive_blanks n (Nat.le_of_eq hn)
  rw [hlist] at htyped
  have hstart : (Text.ofChars (List.replicate (n + 1) ' ')).length = n + 1 := by
    have hlen := congrArg List.length (text_blanks (n + 1))
    rw [blanks, Text.ofChars_append, List.length_append, List.length_append,
      List.length_replicate] at hlen
    exact Nat.add_right_cancel hlen
  have hend : (Text.ofChars (List.replicate (n + 1) ' ' ++ ['f'])).length = n + 2 := by
    rw [Text.ofChars_append, List.length_append, hstart]
    rfl
  have htab {r : Prompt} (hr : r.running = none) : r.receive (.key .tab) = r.cycle true := by
    rw [receive, handle, isRunning, hr]
    change ((r.cycle true).map (·, ([] : List Effect))).map Prod.fst = _
    cases r.cycle true <;> rfl
  rw [receiveAll, htyped, Option.bind_some, receiveAll, htab rfl]
  obtain ⟨q, hq, hrunning, hnone⟩ := cycle_cut (p := { blank with
      historyAt := 0
      field := ⟨blanks (n + 1), n + 2⟩
      found := first :: second :: rest
      wordStart := n + 1
      wordEnd := n + 2
      selected := -1 }) (blanks_plain (n + 1)) (List.append_nil _).symm hstart.symm hend.symm rfl
    (show ¬ false = true by decide) hfirst (by rw [List.length_replicate, ← hn]; omega)
    (by rw [List.length_replicate, ← hn]; omega)
  rw [hq, Option.bind_some, receiveAll, htab hrunning, hnone]
  rfl

/-- Two completions are tried on a line as long as the field takes. -/
theorem receiveAll_cut :
    blank.receiveAll [.key (.typed (blanks 4095)), .key .tab, .key .tab] = none :=
  receiveAll_blanks 4094 rfl

end Prompt

end LoxLang
