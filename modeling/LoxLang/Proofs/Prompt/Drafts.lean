import LoxLang.Proofs.Prompt.Step

namespace LoxLang

namespace Prompt
set_option autoImplicit true

/-- The mode that Esc changes to. -/
def Mode.other (m : Mode) : Mode := if m = .eval then .command else .eval

theorem Mode.other_other {m : Mode} (h : m = .eval ∨ m = .command) : m.other.other = m := by
  rcases h with rfl | rfl
  · rfl
  · rfl

theorem Mode.other_ne (m : Mode) : m.other ≠ m := by
  unfold other
  split
  · rename_i h
    rw [h]
    exact Mode.noConfusion
  · rename_i h
    exact fun he => h he.symm

def draftOf (m : Mode) (p : Prompt) : Draft := if m = .eval then p.evalDraft else p.commandDraft

def drafted (p : Prompt) : Draft := ⟨p.field.text, p.field.cursor⟩

/-- A message that neither changes the mode nor takes the line nor shows the history. -/
def Dwells (p : Prompt) : Message → Prop
  | .key k => ¬ k.Recalls ∧ (k = .escape → p.cycling = true) ∧
      (k = .enter → p.cycling = true ∧ p.found ≠ [] ∨ p.field.text.trim = [])
  | .resize _ | .session _ | .finished _ | .edited _ => True

def DwellsAll (p : Prompt) : List Message → Prop
  | [] => True
  | m :: ms => p.Dwells m ∧ ∀ q, p.receive m = some q → q.DwellsAll ms

structure Stays (p q : Prompt) : Prop where
  mode : q.mode = p.mode
  draft : ∀ m, q.draftOf m = p.draftOf m
  idle : p.running = none → q.running = none

theorem Stays.refl (p : Prompt) : Stays p p := ⟨rfl, fun _ => rfl, id⟩

theorem Stays.trans (h : Stays p q) (h' : Stays q r) : Stays p r where
  mode := h'.mode.trans h.mode
  draft m := (h'.draft m).trans (h.draft m)
  idle hp := h'.idle (h.idle hp)

theorem refresh_stays (accept : Bool) (p : Prompt) : Stays p (p.refresh accept) := by
  obtain ⟨found, start, stop, cycling, selected, -, hp⟩ := refresh_leaves accept p
  rw [hp]
  exact ⟨rfl, fun _ => rfl, id⟩

theorem Stays.refresh {p q : Prompt} (h : Stays p q) (accept : Bool) :
    Stays p (q.refresh accept) :=
  h.trans (refresh_stays accept q)

theorem receive_stays {p q : Prompt} (hm : p.Dwells m) (h : p.receive m = some q) :
    Stays p q := by
  cases receive_heard h with
  | aside session width buffer running _ hrunning => exact ⟨rfl, fun _ => rfl, hrunning⟩
  | key k _ hstep =>
    obtain ⟨hrecalls, hescape, henter⟩ := hm
    cases hstep with
    | stay quitting _ => exact ⟨rfl, fun _ => rfl, id⟩
    | edit field historyAt accept _ =>
      have hedit : Stays p { p with cycling := false, field, historyAt } :=
        ⟨rfl, fun _ => rfl, id⟩
      exact hedit.refresh accept
    | type cs =>
      have htype : Stays p { p with historyAt := p.history.size, field := p.field.insert cs } :=
        ⟨rfl, fun _ => rfl, id⟩
      exact htype.refresh true
    | toggle hcycling => exact absurd (hescape rfl) (by rw [hcycling]; exact Bool.false_ne_true)
    | browse forward sameMode hk => exact absurd hk hrecalls
    | complete forward _ hcycle =>
      obtain rfl | ⟨field, found, stop, cycling, selected, untried, -, -, rfl⟩ :=
        cycle_leaves hcycle
      · exact .refl q
      · exact ⟨rfl, fun _ => rfl, id⟩
    | submit htakes =>
      rcases henter rfl with ⟨hcycling, hfound⟩ | hblank
      · rcases htakes with hc | hf
        · rw [hcycling] at hc
          cases hc
        · exact absurd hf hfound
      · rw [submit_blank hblank]
        exact .refl p

theorem receiveAll_stays {p q : Prompt} (hms : p.DwellsAll ms) (h : p.receiveAll ms = some q) :
    Stays p q := by
  induction ms generalizing p with
  | nil =>
    cases h
    exact .refl _
  | cons m ms ih =>
    obtain ⟨r, hr, hq⟩ := Option.bind_eq_some_iff.1 h
    exact (receive_stays hms.1 hr).trans (ih (hms.2 r hr) hq)

theorem refresh_field (accept : Bool) (p : Prompt) : (p.refresh accept).field = p.field := by
  obtain ⟨found, start, stop, cycling, selected, -, hp⟩ := refresh_leaves accept p
  rw [hp]

theorem switchTo_field (mode : Mode) (p : Prompt) :
    ∃ d : Draft, (p.switchTo mode).field = (p.field.set d.text).moveTo d.cursor := by
  unfold switchTo
  rw [refresh_field]
  dsimp only [restore]
  split
  · exact ⟨_, rfl⟩
  · exact ⟨_, rfl⟩

theorem moveInHistory_legal {p : Prompt} (h : p.field.Legal) (forward sameMode : Bool) :
    (p.moveInHistory forward sameMode).field.Legal := by
  unfold moveInHistory
  split
  · rw [refresh_field]
    exact Field.moveTo_legal (Field.set_legal _ _) _
  · split
    · rw [refresh_field]
      exact Field.set_legal _ _
    · exact h

theorem receive_legal {p q : Prompt} (hp : p.field.Legal) (h : p.receive m = some q) :
    q.field.Legal := by
  cases receive_heard h with
  | aside session width buffer running _ _ => exact hp
  | key k _ hstep =>
    cases hstep with
    | stay quitting _ => exact hp
    | edit field historyAt accept hfield =>
      rw [refresh_field]
      exact hfield hp
    | type cs =>
      rw [edit, refresh_field]
      exact Field.insert_legal hp cs
    | toggle _ =>
      obtain ⟨d, hd⟩ := switchTo_field (if p.mode = .eval then .command else .eval) p
      rw [toggleMode, hd]
      exact Field.moveTo_legal (Field.set_legal _ _) _
    | browse forward sameMode _ => exact moveInHistory_legal hp forward sameMode
    | complete forward _ hcycle =>
      obtain rfl | ⟨field, found, stop, cycling, selected, untried, hlegal, -, rfl⟩ :=
        cycle_leaves hcycle
      · exact hp
      · exact hlegal
    | submit _ =>
      by_cases hline : p.field.text.trim = []
      · rw [submit_blank hline]
        exact hp
      · obtain ⟨history, historyAt, quitting, session, running, -, -, hsubmit⟩ := submit_taken hline
        rw [hsubmit]
        exact Field.empty_legal

theorem receiveAll_legal {p q : Prompt} (hp : p.field.Legal) (h : p.receiveAll ms = some q) :
    q.field.Legal := by
  induction ms generalizing p with
  | nil =>
    cases h
    exact hp
  | cons m ms ih =>
    obtain ⟨r, hr, hq⟩ := Option.bind_eq_some_iff.1 h
    exact ih (receive_legal hp hr) hq

theorem toggleMode_mode (p : Prompt) : p.toggleMode.mode = p.mode.other :=
  (refresh_stays false _).mode

theorem toggleMode_draft (p : Prompt) : p.toggleMode.draftOf p.mode = p.drafted := by
  rw [toggleMode, switchTo, (refresh_stays false _).draft]
  unfold draftOf
  by_cases hmode : p.mode = .eval
  · simp only [if_pos hmode]
    rfl
  · simp only [if_neg hmode]
    rfl

theorem toggleMode_field (p : Prompt) :
    p.toggleMode.field = (p.field.set (p.draftOf p.mode.other).text).moveTo
      (p.draftOf p.mode.other).cursor := by
  rw [toggleMode, switchTo, refresh_field]
  unfold draftOf Mode.other
  by_cases hmode : p.mode = .eval
  · simp only [if_pos hmode]
    rfl
  · simp only [if_neg hmode]
    rfl

theorem handle_toggle {p : Prompt} (hidle : p.running = none) (hcycling : p.cycling = false) :
    p.handle .escape = some (p.toggleMode, []) := by
  rw [handle_idle hidle, press, hcycling]
  rfl

theorem toggleMode_back {p r : Prompt} (hidle : p.running = none) (hlegal : p.field.Legal)
    (hmode : p.mode = .eval ∨ p.mode = .command) (hks : p.toggleMode.DwellsAll ks)
    (hr : p.toggleMode.receiveAll ks = some r) :
    r.running = none ∧ r.mode = p.mode.other ∧ r.toggleMode.mode = p.mode ∧
      r.toggleMode.field = p.field := by
  have hstays := receiveAll_stays hks hr
  have hrmode : r.mode = p.mode.other := hstays.mode.trans (toggleMode_mode p)
  have hother : r.mode.other = p.mode := by
    rw [hrmode]
    exact Mode.other_other hmode
  have hdraft : r.draftOf r.mode.other = p.drafted := by
    rw [hother, hstays.draft]
    exact toggleMode_draft p
  refine ⟨hstays.idle ((switchTo_running _ p).trans hidle), hrmode, ?_, ?_⟩
  · rw [toggleMode_mode]
    exact hother
  · rw [toggleMode_field, hdraft]
    exact Field.set_text hlegal r.field

/-- The mode that is left by Esc while nothing is tried in turn gets its line and cursor back when
Esc is pressed again, whatever is done in the other mode in between without taking a line or looking
into the history; and the other mode in turn gets back what was left in it. -/
theorem drafts_kept (session : Session) (history : History) (defines : Dict Text)
    (environment : Text → Text) {p : Prompt}
    (hp : (new session history defines environment).receiveAll ms = some p)
    (hidle : p.running = none) (hcycling : p.cycling = false)
    (hmode : p.mode = .eval ∨ p.mode = .command) :
    ∃ q, p.handle .escape = some (q, []) ∧ q.mode ≠ p.mode ∧
      ∀ ks r, q.DwellsAll ks → q.receiveAll ks = some r → r.cycling = false →
        ∃ s, r.handle .escape = some (s, []) ∧ s.mode = p.mode ∧ s.field = p.field ∧
          ∀ ks' t, s.DwellsAll ks' → s.receiveAll ks' = some t → t.cycling = false →
            ∃ u, t.handle .escape = some (u, []) ∧ u.mode = r.mode ∧ u.field = r.field := by
  have hlegal : p.field.Legal := receiveAll_legal Field.empty_legal hp
  refine ⟨p.toggleMode, handle_toggle hidle hcycling, ?_, ?_⟩
  · rw [toggleMode_mode]
    exact Mode.other_ne p.mode
  · intro ks r hks hr hrcycling
    obtain ⟨hridle, hrmode, hback, hfield⟩ := toggleMode_back hidle hlegal hmode hks hr
    refine ⟨r.toggleMode, handle_toggle hridle hrcycling, hback, hfield, ?_⟩
    intro ks' t hks' ht htcycling
    have hrlegal : r.field.Legal := by
      refine receiveAll_legal ?_ hr
      rw [toggleMode_field]
      exact Field.moveTo_legal (Field.set_legal _ _) _
    have hrmodes : r.mode = .eval ∨ r.mode = .command := by
      rw [hrmode]
      rcases hmode with h | h
      · exact .inr (by rw [h]; rfl)
      · exact .inl (by rw [h]; rfl)
    obtain ⟨htidle, -, hback', hfield'⟩ := toggleMode_back hridle hrlegal hrmodes hks' ht
    exact ⟨t.toggleMode, handle_toggle htidle htcycling, hback', hfield'⟩

/-- A line is left for a command and is there again afterwards. -/
theorem drafts_kept_blanks : ∃ p q r s,
    blank.receiveAll [.key (.typed (blanks 1))] = some p ∧ p.field = ⟨blanks 1, 2⟩ ∧
      p.handle .escape = some (q, []) ∧ q.mode ≠ p.mode ∧
      q.receiveAll [.key (.typed ['h']), .key .lineStart] = some r ∧
      r.handle .escape = some (s, []) ∧ s.mode = .eval ∧ s.field = ⟨blanks 1, 2⟩ := by
  obtain ⟨q, hq, hmode, hback⟩ := drafts_kept _ _ _ _ receiveAll_lettered rfl rfl (.inl rfl)
  have hidle : q.running = none := by
    rw [handle_toggle rfl rfl] at hq
    cases hq
    exact switchTo_running _ _
  have hkeys : q.DwellsAll [.key (.typed ['h']), .key .lineStart] :=
    ⟨⟨by simp [Key.Recalls], Key.noConfusion, Key.noConfusion⟩,
      fun _ _ => ⟨⟨by simp [Key.Recalls], Key.noConfusion, Key.noConfusion⟩, fun _ _ => trivial⟩⟩
  let r := (q.edit true (Field.insert ['h'])).editPlainly Field.home
  have hr : q.receiveAll [.key (.typed ['h']), .key .lineStart] = some r := by
    have hfirst : q.receive (.key (.typed ['h'])) = some (q.edit true (Field.insert ['h'])) := by
      rw [receive, handle_idle hidle]
      rfl
    have hsecond : (q.edit true (Field.insert ['h'])).receive (.key .lineStart) = some r := by
      rw [receive, handle_idle ((edit_running _ _ q).trans hidle)]
      rfl
    rw [receiveAll, hfirst, Option.bind_some, receiveAll, hsecond]
    rfl
  obtain ⟨s, hs, hsmode, hsfield, -⟩ := hback _ r hkeys hr (refresh_settled rfl)
  exact ⟨_, q, r, s, receiveAll_lettered, rfl, hq, hmode, hr, hs, hsmode, hsfield⟩

end Prompt

end LoxLang
