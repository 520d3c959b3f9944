import LoxLang.Proofs.Prompt.Safe

namespace LoxLang.Prompt
set_option autoImplicit true

/-- A prompt and the lines it started, which are numbered in the order of their start. -/
structure Desk where
  prompt : Prompt
  started : Nat
  /-- The lines that were started and have not been reported as finished. -/
  active : List Nat
  held : Option Nat
  /-- The lines whose context is cancelled. -/
  canceled : List Nat

namespace Desk

def line? : Effect → Option Text
  | .evaluate line => some line
  | .print _ | .quit | .clear | .edit => none

/-- Starts lines in turn, each in a context of its own, which the prompt can cancel. -/
def start (d : Desk) : List Text → Desk
  | [] => d
  | _ :: lines => start { d with
      started := d.started + 1
      active := d.active ++ [d.started]
      held := some d.started } lines

def cancel (d : Desk) : Desk :=
  { d with canceled := d.held.elim d.canceled d.canceled.insert }

/-- What a key leads to, and the lines it starts. -/
def press (k : Key) (d : Desk) : Option (Desk × List Effect) :=
  (d.prompt.handle k).map fun (q, effects) =>
    let d := if q.running = some true then d.cancel else d
    (start { d with prompt := q } (effects.filterMap line?), effects)

def finish (n : Nat) (o : Session.Outcome) (d : Desk) : Desk :=
  { d with
    prompt := (d.prompt.finished o).1
    active := d.active.erase n
    held := none
    canceled := d.canceled.insert n }

/-- What can happen on a desk. -/
inductive Event where
  | key (k : Key)
  | finished (n : Nat) (o : Session.Outcome)
  | session (s : Session)
  | resize (width : Int)
  | edited (e : Editing)

/-- The desk after an event. Only a line that is running is ever reported as finished, which it is
once. -/
def receive (d : Desk) : Event → Option Desk
  | .key k => (d.press k).map Prod.fst
  | .finished n o => if n ∈ d.active then some (d.finish n o) else none
  | .session s => some { d with prompt := { d.prompt with session := s } }
  | .resize width => some { d with prompt := d.prompt.resize width }
  | .edited e => some { d with prompt := (d.prompt.edited e).1 }

/-- The desk after events in turn. -/
def receiveAll (d : Desk) : List Event → Option Desk
  | [] => some d
  | e :: es => (d.receive e).bind fun d' => d'.receiveAll es

/-- A desk with an empty prompt, on which nothing was started. -/
def new (session : Session) (history : History) (defines : Dict Text)
    (environment : Text → Text) : Desk where
  prompt := .new session history defines environment
  started := 0
  active := []
  held := none
  canceled := []

/-- What the prompt remembers is the one line that is active, and whether its context is
cancelled. -/
structure Sole (d : Desk) : Prop where
  active : d.active = d.held.toList
  running : d.prompt.running = d.held.map fun n => decide (n ∈ d.canceled)
  earlier : ∀ n ∈ d.canceled, n < d.started
  held : ∀ n ∈ d.held, n < d.started

end Desk

theorem refresh_running (accept : Bool) (p : Prompt) : (p.refresh accept).running = p.running := by
  rw [refresh_eq]
  split
  · rfl
  · rfl

theorem switchTo_running (mode : Mode) (p : Prompt) : (p.switchTo mode).running = p.running := by
  unfold switchTo
  rw [refresh_running]
  dsimp only [restore]
  split
  · rfl
  · rfl

theorem moveInHistory_running (forward sameMode : Bool) (p : Prompt) :
    (p.moveInHistory forward sameMode).running = p.running := by
  unfold moveInHistory
  split
  · rw [refresh_running]
    dsimp only
    split
    · rfl
    · exact switchTo_running _ p
  · split
    · exact refresh_running false _
    · rfl

theorem edit_running (accept : Bool) (change : Field → Field) (p : Prompt) :
    (p.edit accept change).running = p.running := by
  unfold edit
  exact refresh_running accept _

theorem editPlainly_running (change : Field → Field) (p : Prompt) :
    (p.editPlainly change).running = p.running := by
  unfold editPlainly
  exact edit_running false change _

theorem replaceWord_running {p q : Prompt} (h : p.replaceWord c = some q) : q.running = p.running := by
  unfold replaceWord at h
  dsimp only at h
  split at h
  · cases h
    rfl
  · cases h

theorem cycle_running {p q : Prompt} (h : p.cycle forward = some q) : q.running = p.running := by
  unfold cycle at h
  split at h
  · cases h
    rfl
  · obtain ⟨r, hr, hq⟩ := Option.bind_eq_some_iff.1 h
    rw [← Option.some.inj hq]
    change r.running = p.running
    exact replaceWord_running hr
  · dsimp only at h
    split at h
    · refine (replaceWord_running h).trans ?_
      split
      · rfl
      · rfl
    · cases h

/-- What a key did to a prompt on which nothing was running: either it started nothing, or it took
the line, which is now running. -/
def Turn (q : Prompt) (effects : List Effect) : Prop :=
  q.running = none ∧ effects.filterMap Desk.line? = [] ∨
    q.running = some false ∧ ∃ line, effects.filterMap Desk.line? = [line]

theorem Turn.still {q : Prompt} (hq : q.running = none) : Turn q [] := .inl ⟨hq, rfl⟩

theorem execute_turn {p : Prompt} (hp : p.running = none) (line : Text) :
    Turn (p.execute line).1 (p.execute line).2 := by
  unfold execute
  dsimp only
  split
  · exact .inl ⟨hp, rfl⟩
  · split
    · exact .inl ⟨hp, rfl⟩
    · split
      · exact .inl ⟨hp, rfl⟩
      · split
        · exact .inl ⟨hp, rfl⟩
        · split
          · split
            · exact .inl ⟨hp, rfl⟩
            · exact .inl ⟨hp, rfl⟩
          · split
            · exact .inl ⟨hp, rfl⟩
            · exact .inl ⟨hp, rfl⟩

theorem submit_turn {p : Prompt} (hp : p.running = none) : Turn p.submit.1 p.submit.2 := by
  unfold submit
  dsimp only
  split
  · exact .inl ⟨hp, rfl⟩
  · split
    · apply execute_turn
      exact hp
    · exact .inr ⟨rfl, _, rfl⟩

/-- Only taking the line starts anything, and it starts one line. -/
theorem press_turn {p q : Prompt} (hp : p.running = none) (h : p.press k = some (q, effects)) :
    Turn q effects := by
  have hquit : Turn { p with quitting := true } [.quit] := .inl ⟨hp, rfl⟩
  have hedit (change : Field → Field) : Turn (p.editPlainly change) [] :=
    .still ((editPlainly_running change p).trans hp)
  have hcycle (forward : Bool) (hc : (p.cycle forward).map (·, []) = some (q, effects)) :
      Turn q effects := by
    obtain ⟨r, hr, hq⟩ := Option.map_eq_some_iff.1 hc
    cases hq
    exact .still ((cycle_running hr).trans hp)
  unfold press at h
  cases k with
  | tab => exact hcycle true h
  | backTab => exact hcycle false h
  | interrupt =>
    dsimp only at h
    split at h
    · cases h
      exact hquit
    · cases h
      exact hedit _
  | endOfInput =>
    dsimp only at h
    split at h
    · cases h
      exact hquit
    · cases h
      exact .still hp
  | enter =>
    dsimp only at h
    split at h
    · rw [Option.some.injEq] at h
      have hsubmit := submit_turn hp
      rw [h] at hsubmit
      exact hsubmit
    · cases h
      exact .still ((refresh_running true _).trans hp)
  | escape =>
    dsimp only at h
    split at h
    · cases h
      exact .still ((refresh_running false _).trans hp)
    · cases h
      exact .still ((switchTo_running _ p).trans hp)
  | up | down | shiftUp | shiftDown =>
    cases h
    exact .still ((moveInHistory_running _ _ p).trans hp)
  | space =>
    cases h
    exact .still ((edit_running true _ _).trans hp)
  | typed cs =>
    cases h
    exact .still ((edit_running true _ p).trans hp)
  | left | right | lineStart | lineEnd | backspace | delete | deleteBefore | deleteAfter
  | deleteWord =>
    cases h
    exact hedit _

theorem handle_idle {p : Prompt} (hp : p.running = none) (k : Key) : p.handle k = p.press k := by
  rw [handle, isRunning, hp]
  rfl

theorem handle_busy {p : Prompt} (hp : p.running = some b) (k : Key) :
    p.handle k = some (if k = .interrupt then { p with running := some true } else p, []) := by
  rw [handle, isRunning, hp]
  rfl

theorem edited_running (e : Editing) (p : Prompt) : (p.edited e).1.running = p.running := by
  unfold edited
  cases e.ending with
  | ran o | canceled | declined | failed reason => rfl

namespace Desk

theorem new_sole (session : Session) (history : History) (defines : Dict Text)
    (environment : Text → Text) : (new session history defines environment).Sole :=
  ⟨rfl, rfl, fun _ h => absurd h List.not_mem_nil, fun _ h => by cases h⟩

theorem Sole.press (h : Sole d) (hn : n ∈ d.active) (k : Key) :
    d.press k = some (if k = .interrupt then { d with
      prompt := { d.prompt with running := some true }
      canceled := d.canceled.insert n } else d, []) := by
  have hheld : d.held = some n := by
    rw [h.active, Option.mem_toList] at hn
    exact hn
  have hrunning : d.prompt.running = some (decide (n ∈ d.canceled)) := by
    rw [h.running, hheld]
    rfl
  rw [Desk.press, handle_busy hrunning, Option.map_some]
  dsimp only [List.filterMap_nil, start]
  by_cases hk : k = .interrupt
  · rw [if_pos hk, if_pos hk, if_pos rfl, cancel, hheld]
    rfl
  · rw [if_neg hk, if_neg hk]
    -- Another key leaves the prompt, so a context that was cancelled before is cancelled again.
    split
    · rename_i hcanceled
      rw [hrunning, Option.some.injEq, decide_eq_true_iff] at hcanceled
      rw [cancel, hheld, Option.elim_some, List.insert_of_mem hcanceled, ← hheld]
    · rfl

theorem Sole.receive (h : Sole d) (he : d.receive e = some d') : Sole d' := by
  cases e with
  | key k =>
    obtain ⟨⟨_, effects⟩, hpress, rfl⟩ := Option.map_eq_some_iff.1 he
    cases hheld : d.held with
    | some n =>
      have hn : n ∈ d.active := by
        rw [h.active, hheld]
        exact List.mem_singleton_self n
      rw [h.press hn k, Option.some.injEq, Prod.mk.injEq] at hpress
      rw [← hpress.1]
      split
      · refine ⟨h.active, ?_, fun m hm => ?_, h.held⟩
        · change some true = d.held.map fun n' => decide (n' ∈ d.canceled.insert n)
          rw [hheld]
          exact congrArg some (decide_eq_true List.mem_insert_self).symm
        · rcases List.mem_insert_iff.1 hm with rfl | hm
          · exact h.held m hheld
          · exact h.earlier m hm
      · exact h
    | none =>
      have hidle : d.prompt.running = none := by
        rw [h.running, hheld]
        rfl
      rw [Desk.press, handle_idle hidle] at hpress
      obtain ⟨⟨q, effects'⟩, hq, hd⟩ := Option.map_eq_some_iff.1 hpress
      have hactive : d.active = [] := by
        rw [h.active, hheld]
        rfl
      rcases press_turn hidle hq with ⟨hrunning, hlines⟩ | ⟨hrunning, line, hlines⟩
      · dsimp only at hd
        rw [hlines, hrunning] at hd
        cases hd
        exact ⟨h.active, hrunning.trans (hidle.symm.trans h.running), h.earlier, h.held⟩
      · dsimp only at hd
        rw [hlines, hrunning] at hd
        cases hd
        -- The number of the new line is not among those of earlier ones.
        have hfresh : d.started ∉ d.canceled :=
          fun hm => absurd (h.earlier _ hm) (Nat.lt_irrefl _)
        refine ⟨?_, ?_, fun m hm => Nat.lt_succ_of_lt (h.earlier m hm), fun m hm => ?_⟩
        · change d.active ++ [d.started] = [d.started]
          rw [hactive, List.nil_append]
        · change q.running = some (decide (d.started ∈ d.canceled))
          rw [hrunning, decide_eq_false hfresh]
        · cases hm
          exact Nat.lt_succ_self _
  | finished n o =>
    rw [Desk.receive] at he
    split at he
    · rename_i hn
      cases he
      rw [h.active, Option.mem_toList] at hn
      refine ⟨?_, rfl, fun m hm => ?_, fun _ hm => by cases hm⟩
      · change d.active.erase n = []
        rw [h.active, hn]
        exact List.erase_cons_head n []
      · rcases List.mem_insert_iff.1 hm with rfl | hm
        · exact h.held m hn
        · exact h.earlier m hm
    · cases he
  | session s =>
    cases he
    exact ⟨h.active, h.running, h.earlier, h.held⟩
  | resize width =>
    cases he
    exact ⟨h.active, h.running, h.earlier, h.held⟩
  | edited e =>
    cases he
    exact ⟨h.active, (edited_running e d.prompt).trans h.running, h.earlier, h.held⟩

theorem Sole.receiveAll (h : Sole d) (hd : d.receiveAll es = some d') : Sole d' := by
  induction es generalizing d with
  | nil =>
    cases hd
    exact h
  | cons e es ih =>
    obtain ⟨d₁, hfirst, hrest⟩ := Option.bind_eq_some_iff.1 hd
    exact ih (h.receive hfirst) hrest

/-- However keys and the ends of lines follow one another, at most one line is active, one is
exactly when the prompt says so, and then no key does anything to the desk or asks for anything,
except that an interrupt cancels the context of that line. -/
theorem sole_line {session : Session} {history : History} {defines : Dict Text}
    {environment : Text → Text} {es : List Event} {d : Desk}
    (h : (new session history defines environment).receiveAll es = some d) :
    d.active.length ≤ 1 ∧ (d.active.length = 1 ↔ d.prompt.isRunning = true) ∧
      ∀ n ∈ d.active, ∀ k, d.press k = some (if k = .interrupt then { d with
        prompt := { d.prompt with running := some true }
        canceled := d.canceled.insert n } else d, []) := by
  have hsole := (new_sole session history defines environment).receiveAll h
  refine ⟨?_, ?_, fun n hn => hsole.press hn⟩
  · rw [hsole.active]
    exact Option.length_toList_le
  · rw [isRunning, hsole.active, hsole.running]
    cases d.held with
    | none => exact iff_of_false Nat.zero_ne_one Bool.false_ne_true
    | some n => exact iff_of_true rfl rfl

theorem receive_enter {d : Desk} (hidle : d.prompt.running = none)
    (hcycling : d.prompt.cycling = false) (hmode : d.prompt.mode = .eval)
    (hline : d.prompt.field.text.trim.isEmpty = false) :
    ∃ d', d.receive (.key .enter) = some d' ∧ d'.active = d.active ++ [d.started] ∧
      d'.canceled = d.canceled := by
  have hpress : d.prompt.press .enter = some d.prompt.submit := by
    rw [Prompt.press, hcycling]
    rfl
  have hsubmit : d.prompt.submit.1.running = some false ∧
      ∃ line, d.prompt.submit.2.filterMap line? = [line] := by
    unfold submit
    dsimp only
    rw [hline, hmode, if_neg Bool.false_ne_true, if_neg (by decide)]
    exact ⟨rfl, _, rfl⟩
  obtain ⟨hrunning, line, hlines⟩ := hsubmit
  refine ⟨start { d with prompt := d.prompt.submit.1 } [line], ?_, rfl, rfl⟩
  rw [receive, press, handle_idle hidle, hpress, Option.map_some]
  dsimp only [Option.map_some]
  rw [hlines, hrunning]
  rfl

def blank : Desk := new .new ⟨[], .missing⟩ [] fun _ => []

theorem receiveAll_interrupted :
    ∃ d, blank.receiveAll [.key (.typed (blanks 1)), .key .enter, .key .interrupt] = some d ∧
      d.active = [0] ∧ d.canceled = [0] := by
  obtain ⟨p, htyped, hidle, hcycling, hmode, hfield⟩ : ∃ p,
      Prompt.blank.edit true (Field.insert (blanks 1)) = p ∧ p.running = none ∧
        p.cycling = false ∧ p.mode = .eval ∧ p.field = ⟨blanks 1, 2⟩ :=
    ⟨_, Option.some.inj (receive_blanks 0 (by decide)), rfl, rfl, rfl, rfl⟩
  have hfirst : blank.receive (.key (.typed (blanks 1))) = some { blank with prompt := p } := by
    have hhandle : Prompt.blank.handle (.typed (blanks 1)) =
        some (Prompt.blank.edit true (Field.insert (blanks 1)), []) := rfl
    rw [receive, press, show blank.prompt = Prompt.blank from rfl, hhandle, htyped,
      Option.map_some]
    dsimp only [Option.map_some]
    rw [hidle]
    rfl
  have hline : p.field.text.trim.isEmpty = false := by
    rw [hfield, Field.text, text_blanks]
    decide +kernel
  have hsole : blank.Sole := new_sole _ _ _ _
  obtain ⟨d, hsecond, hactive, hcanceled⟩ :=
    receive_enter (d := { blank with prompt := p }) hidle hcycling hmode hline
  have hmem : 0 ∈ d.active := by
    rw [hactive]
    exact List.mem_cons_self
  have hthird := ((hsole.receive hfirst).receive hsecond).press hmem .interrupt
  refine ⟨{ d with
    prompt := { d.prompt with running := some true }
    canceled := d.canceled.insert 0 }, ?_, hactive, ?_⟩
  · rw [receiveAll, hfirst, Option.bind_some, receiveAll, hsecond, Option.bind_some, receiveAll,
      receive, hthird]
    rfl
  · change d.canceled.insert 0 = [0]
    rw [hcanceled]
    rfl

theorem sole_line_interrupted :
    ∃ d, blank.receiveAll [.key (.typed (blanks 1)), .key .enter, .key .interrupt] = some d ∧
      d.active = [0] ∧ d.canceled = [0] ∧
      d.active.length ≤ 1 ∧ (d.active.length = 1 ↔ d.prompt.isRunning = true) ∧
      ∀ n ∈ d.active, ∀ k, d.press k = some (if k = .interrupt then { d with
        prompt := { d.prompt with running := some true }
        canceled := d.canceled.insert n } else d, []) := by
  obtain ⟨d, h, hactive, hcanceled⟩ := receiveAll_interrupted
  exact ⟨d, h, hactive, hcanceled, sole_line h⟩

end Desk

end LoxLang.Prompt
