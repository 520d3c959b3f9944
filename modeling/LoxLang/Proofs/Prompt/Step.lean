import LoxLang.Proofs.Prompt.Turns

namespace LoxLang.Prompt
set_option autoImplicit true

/-- The key shows an entry of the history. -/
def Key.Recalls (k : Key) : Prop := k = .up ∨ k = .down ∨ k = .shiftUp ∨ k = .shiftDown

def Key.Completes (k : Key) : Prop := k = .tab ∨ k = .backTab

inductive Step (p : Prompt) : Key → Prompt → Prop where
  /-- The line stays; the prompt may be left. -/
  | stay (quitting : Bool) (hk : k = .interrupt ∨ k = .endOfInput) : Step p k { p with quitting }
  /-- The line is edited or put back, or the completion that is tried is settled. -/
  | edit (field : Field) (historyAt : Nat) (accept : Bool)
      (hfield : p.field.Legal → field.Legal)
      (hat : historyAt = p.historyAt ∨ historyAt = p.history.size) :
      Step p k (refresh accept { p with cycling := false, field, historyAt })
  | type (cs : List Char) : Step p (.typed cs) (p.edit true (Field.insert cs))
  | toggle (hcycling : p.cycling = false) : Step p .escape p.toggleMode
  | browse (forward sameMode : Bool) (hk : k.Recalls) : Step p k (p.moveInHistory forward sameMode)
  | complete (forward : Bool) (hk : k.Completes) (h : p.cycle forward = some q) : Step p k q
  | submit (h : p.cycling = false ∨ p.found = []) : Step p .enter p.submit.1

theorem press_step {p q : Prompt} (h : p.press k = some (q, effects)) : p.Step k q := by
  have hplain (change : Field → Field) (hchange : p.field.Legal → (change p.field).Legal) :
      p.Step k (p.editPlainly change) :=
    .edit (change p.field) p.history.size false hchange (.inr rfl)
  have hcycle (forward : Bool) (hk : k.Completes)
      (hc : (p.cycle forward).map (·, []) = some (q, effects)) : p.Step k q := by
    obtain ⟨r, hr, hq⟩ := Option.map_eq_some_iff.1 hc
    cases hq
    exact .complete forward hk hr
  unfold press at h
  cases k with
  | tab => exact hcycle true (.inl rfl) h
  | backTab => exact hcycle false (.inr rfl) h
  | interrupt =>
    dsimp only at h
    split at h
    · cases h
      exact .stay true (.inl rfl)
    · cases h
      exact hplain _ fun _ => Field.set_legal _ _
  | endOfInput =>
    dsimp only at h
    split at h
    · cases h
      exact .stay true (.inr rfl)
    · cases h
      exact .stay p.quitting (.inr rfl)
  | enter =>
    dsimp only at h
    split at h
    · rename_i htakes
      have hq : p.submit.1 = q := congrArg Prod.fst (Option.some.inj h)
      rw [← hq]
      apply Step.submit
      simpa [List.isEmpty_iff] using htakes
    · cases h
      exact .edit p.field p.historyAt true id (.inl rfl)
  | escape =>
    dsimp only at h
    split at h
    · cases h
      exact .edit _ p.historyAt false
        (fun _ => Field.moveTo_legal (Field.set_legal _ _) _) (.inl rfl)
    · rename_i hcycling
      cases h
      exact .toggle (Bool.eq_false_iff.2 hcycling)
  | up | down | shiftUp | shiftDown =>
    cases h
    exact .browse _ _ (by simp [Key.Recalls])
  | space =>
    cases h
    exact .edit (p.field.insert [' ']) p.history.size true (Field.insert_legal · _) (.inr rfl)
  | typed cs =>
    cases h
    exact .type cs
  | left =>
    cases h
    exact hplain _ Field.left_legal
  | right =>
    cases h
    exact hplain _ (Field.moveTo_legal · _)
  | lineStart =>
    cases h
    exact hplain _ Field.home_legal
  | lineEnd =>
    cases h
    exact hplain _ Field.toEnd_legal
  | backspace =>
    cases h
    exact hplain _ (Field.deleteFrom_legal · (Nat.sub_le _ _))
  | delete =>
    cases h
    exact hplain _ Field.delete_legal
  | deleteBefore =>
    cases h
    exact hplain _ (Field.deleteFrom_legal · (Nat.zero_le _))
  | deleteAfter =>
    cases h
    exact hplain _ Field.deleteAfter_legal
  | deleteWord =>
    cases h
    exact hplain _ Field.deleteWord_legal

/-- What a message does: a key is pressed while nothing is running, or what is shown stays as it is
and the session goes on beside it. -/
inductive Heard (p : Prompt) : Message → Prompt → Prop where
  | aside (session : Session) (width : Int) (buffer : Text) (running : Option Bool)
      (hsession : session = p.session ∨ m = .session session ∨
        ∃ e : Editing, m = .edited e ∧ session = e.session)
      (hrunning : p.running = none → running = none) :
      Heard p m { p with session, width, buffer, running }
  | key (k : Key) (hidle : p.running = none) (hstep : p.Step k q) : Heard p (.key k) q

theorem receive_heard {p q : Prompt} (h : p.receive m = some q) : p.Heard m q := by
  cases m with
  | key k =>
    obtain ⟨⟨_, effects⟩, hk, rfl⟩ := Option.map_eq_some_iff.1 h
    cases hrunning : p.running with
    | none =>
      rw [handle_idle hrunning] at hk
      exact .key k hrunning (press_step hk)
    | some b =>
      have hbusy (r : Option Bool) : p.Heard (.key k) { p with running := r } :=
        .aside p.session p.width p.buffer r (.inl rfl) fun hr => by
          rw [hrunning] at hr
          cases hr
      rw [handle_busy hrunning, Option.some.injEq, Prod.mk.injEq] at hk
      rw [← hk.1]
      split
      · exact hbusy _
      · exact hbusy _
  | resize width =>
    cases h
    exact .aside p.session width p.buffer p.running (.inl rfl) id
  | session s =>
    cases h
    exact .aside s p.width p.buffer p.running (.inr (.inl rfl)) id
  | finished o =>
    cases h
    exact .aside p.session p.width p.buffer none (.inl rfl) fun _ => rfl
  | edited e =>
    have haside (buffer : Text) : p.Heard (.edited e) { p with session := e.session, buffer } :=
      .aside e.session p.width buffer p.running (.inr (.inr ⟨e, rfl, rfl⟩)) id
    cases h
    unfold edited
    cases e.ending with
    | ran o | canceled | declined | failed reason => exact haside _

theorem receiveAll_append (p : Prompt) (ms ms' : List Message) :
    p.receiveAll (ms ++ ms') = (p.receiveAll ms).bind (·.receiveAll ms') := by
  induction ms generalizing p with
  | nil => rfl
  | cons m ms ih =>
    change ((p.receive m).bind fun q => q.receiveAll (ms ++ ms')) =
      ((p.receive m).bind fun q => q.receiveAll ms).bind fun q => q.receiveAll ms'
    rw [Option.bind_assoc]
    simp only [ih]

theorem receive_key {p q : Prompt} (h : p.handle k = some (q, effects)) :
    p.receive (.key k) = some q := by
  rw [receive, h]
  rfl

/-- Looking for completions changes only what is on offer, and never starts trying any. -/
theorem refresh_leaves (accept : Bool) (p : Prompt) :
    ∃ found start stop cycling selected, (cycling = true → p.cycling = true) ∧
      p.refresh accept =
        { p with found, wordStart := start, wordEnd := stop, cycling, selected } := by
  rw [refresh_eq]
  split
  · exact ⟨_, _, _, _, _, Bool.noConfusion, rfl⟩
  · exact ⟨_, _, _, p.cycling, _, id, rfl⟩

theorem refresh_cycling {p : Prompt} (h : (p.refresh accept).cycling = true) :
    p.cycling = true := by
  obtain ⟨found, start, stop, cycling, selected, hcycling, hp⟩ := refresh_leaves accept p
  rw [hp] at h
  exact hcycling h

theorem refresh_settled {p : Prompt} (h : p.cycling = false) :
    (p.refresh accept).cycling = false :=
  Bool.eq_false_iff.2 fun hc => Bool.eq_false_iff.1 h (refresh_cycling hc)

theorem switchTo_leaves (mode : Mode) (p : Prompt) :
    ∃ evalDraft commandDraft field, field.Legal ∧
      p.switchTo mode = refresh false { p with mode, evalDraft, commandDraft, field } := by
  unfold switchTo
  dsimp only [restore]
  split
  · exact ⟨_, _, _, Field.moveTo_legal (Field.set_legal _ _) _, rfl⟩
  · exact ⟨_, _, _, Field.moveTo_legal (Field.set_legal _ _) _, rfl⟩

theorem cycle_leaves {p q : Prompt} (h : p.cycle forward = some q) : q = p ∨
    ∃ field found stop cycling selected untried, field.Legal ∧ (cycling = true → found ≠ []) ∧
      q = { p with field, found, wordEnd := stop, cycling, selected, untried } := by
  have hreplace {r s : Prompt} {c : Text} (hs : r.replaceWord c = some s) :
      ∃ field stop, field.Legal ∧ s = { r with field, wordEnd := stop } := by
    unfold replaceWord at hs
    dsimp only at hs
    split at hs
    · cases hs
      exact ⟨_, _, Field.moveTo_legal (Field.set_legal _ _) _, rfl⟩
    · cases hs
  unfold cycle at h
  split at h
  · cases h
    exact .inl rfl
  · obtain ⟨r, hr, hq⟩ := Option.bind_eq_some_iff.1 h
    obtain ⟨field, stop, hlegal, rfl⟩ := hreplace hr
    cases hq
    exact .inr ⟨field, [], stop, false, -1, p.untried, hlegal, Bool.noConfusion, rfl⟩
  · rename_i hone
    have hfound : p.found ≠ [] := by assumption
    dsimp only at h
    split at h
    · obtain ⟨field, stop, hlegal, rfl⟩ := hreplace h
      right
      split
      · exact ⟨field, p.found, stop, _, _, _, hlegal, fun _ => hfound, rfl⟩
      · exact ⟨field, p.found, stop, _, _, _, hlegal, fun _ => hfound, rfl⟩
    · cases h

/-- What carrying out a command changes of the prompt: it may be left, and its session may be
replaced by a new one. -/
theorem execute_leaves (line : Text) (p : Prompt) :
    ∃ quitting session, (session = p.session ∨
        Session.new.define p.environment p.defines = (none, session)) ∧
      (p.execute line).1 = { p with quitting, session } := by
  have hsame : ∃ quitting session, (session = p.session ∨
      Session.new.define p.environment p.defines = (none, session)) ∧
      p = { p with quitting, session } := ⟨p.quitting, p.session, .inl rfl, rfl⟩
  unfold execute
  dsimp only
  split
  · exact ⟨true, p.session, .inl rfl, rfl⟩
  · split
    · exact hsame
    · split
      · exact hsame
      · split
        · exact hsame
        · split
          · split
            · exact hsame
            · rename_i s hs
              exact ⟨p.quitting, s, .inr hs, rfl⟩
          · split
            · exact hsame
            · exact hsame

/-- A line that is not blank is taken: nothing is left of it, nor of the drafts and of what was on
offer. -/
theorem submit_taken {p : Prompt} (hline : p.field.text.trim ≠ []) :
    ∃ history historyAt quitting session running, historyAt = history.size ∧
      (session = p.session ∨ Session.new.define p.environment p.defines = (none, session)) ∧
      p.submit.1 = { p with
        evalDraft := ⟨[], 0⟩
        commandDraft := ⟨[], 0⟩
        field := .empty
        found := []
        history, historyAt, quitting, session, running } := by
  have hempty : p.field.text.trim.isEmpty = false := by
    rwa [← Bool.not_eq_true, List.isEmpty_iff]
  unfold submit
  dsimp only
  rw [hempty, if_neg Bool.false_ne_true, Field.set_nil]
  split
  · obtain ⟨quitting, session, hsession, hp⟩ := execute_leaves p.field.text.trim { p with
      evalDraft := ⟨[], 0⟩
      commandDraft := ⟨[], 0⟩
      field := .empty
      found := []
      history := (p.history.add p.field.text.trim p.mode).2
      historyAt := (p.history.add p.field.text.trim p.mode).2.size }
    rw [hp]
    exact ⟨_, _, quitting, session, p.running, rfl, hsession, rfl⟩
  · exact ⟨_, _, p.quitting, p.session, some false, rfl, .inl rfl, rfl⟩

theorem submit_blank {p : Prompt} (hline : p.field.text.trim = []) : p.submit = (p, []) := by
  unfold submit
  dsimp only
  rw [hline]
  rfl

end LoxLang.Prompt
