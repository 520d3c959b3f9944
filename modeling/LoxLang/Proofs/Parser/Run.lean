import LoxLang.Parser.Statement
import LoxLang.Proofs.Grammar

namespace LoxLang

namespace Parser
set_option autoImplicit true

def left (p : Parser) : List Token := p.cursor.current :: p.cursor.rest

/-- The tokens that are left close with the end of input. -/
def Closed (p : Parser) : Prop := ∃ ts t, p.left = ts ++ [t] ∧ t.kind = .eof

/-- The parser one token further on. -/
def skip (p : Parser) : Parser := { p with cursor := p.cursor.advance }

/-- The parser at the next place where it can go on after a fault. -/
def resume (p : Parser) : Parser := { p with cursor := p.cursor.synchronize }

@[simp] theorem skip_diagnostics (p : Parser) : p.skip.diagnostics = p.diagnostics := rfl

theorem skip_eof {p : Parser} (h : p.cursor.current.kind = .eof) : p.skip = p := by
  simp [skip, Cursor.advance, Cursor.atEnd, h]

theorem left_eq_cons (p : Parser) : p.left = p.cursor.current :: p.cursor.rest := rfl

theorem current_eq (h : left p = t :: ts) : p.cursor.current = t := by
  rw [left_eq_cons] at h
  exact (List.cons.inj h).1

theorem left_skip (h : left p = t :: u :: ts) (ht : t.kind ≠ .eof) : p.skip.left = u :: ts := by
  obtain ⟨⟨previous, current, rest⟩, diagnostics, fresh⟩ := p
  simp only [left, List.cons.injEq] at h
  obtain ⟨rfl, rfl⟩ := h
  simp [skip, left, Cursor.advance, Cursor.atEnd, ht]

theorem Closed.left_skip (h : Closed p) (ht : p.cursor.current.kind ≠ .eof) :
    p.left = p.cursor.current :: p.skip.left := by
  obtain ⟨ts, t, he, hk⟩ := h
  cases ts with
  | nil =>
    have hc : p.cursor.current = t := current_eq he
    exact absurd (hc ▸ hk) ht
  | cons u us =>
    have hc : p.cursor.current = u := current_eq he
    cases hu : us ++ [t] with
    | nil => simp at hu
    | cons v vs =>
      have he' : p.left = u :: v :: vs := by rw [he, List.cons_append, hu]
      rw [he', Parser.left_skip he' (hc ▸ ht), hc]

theorem Closed.skip (h : Closed p) : p.skip.Closed := by
  by_cases ht : p.cursor.current.kind = .eof
  · rwa [skip_eof ht]
  · have hl := h.left_skip ht
    obtain ⟨ts, t, he, hk⟩ := h
    cases ts with
    | nil => exact absurd (current_eq he ▸ hk) ht
    | cons u us => exact ⟨us, t, (List.cons.inj (hl.symm.trans he)).2, hk⟩

theorem Closed.skip_previous (h : Closed p) (ht : p.cursor.current.kind ≠ .eof) :
    p.skip.cursor.previous = p.cursor.current := by
  have hl := h.left_skip ht
  obtain ⟨⟨previous, current, _ | ⟨t, rest⟩⟩, ds, mark⟩ := p
  · simp [left, Parser.skip, Cursor.advance] at hl
  · have ht : current.kind ≠ .eof := ht
    simp [Parser.skip, Cursor.advance, Cursor.atEnd, ht]

theorem close_eq (tokens : List Token) :
    ∃ ts t, close tokens = ts ++ [t] ∧ t.kind = .eof ∧ ts.length ≤ tokens.length := by
  unfold close
  split
  · exact ⟨[], _, rfl, rfl, Nat.zero_le _⟩
  · rename_i t hlast
    obtain ⟨ts, rfl⟩ := List.getLast?_eq_some_iff.1 hlast
    split
    · rename_i ht
      exact ⟨ts, t, rfl, ht, by simp⟩
    · exact ⟨ts ++ [t], _, rfl, rfl, Nat.le_refl _⟩

theorem start_left (tokens : List Token) : (start tokens).left = close tokens := by
  obtain ⟨ts, t, he, -, -⟩ := close_eq tokens
  rw [start, he]
  cases ts <;> rfl

theorem bind_ok {P : Parse α} {Q : α → Parse β} (h : P p = .ok a p') :
    (P >>= Q) p = Q a p' := by
  change EStateM.bind P Q p = _
  rw [EStateM.bind, h]

theorem bind_error {P : Parse α} {Q : α → Parse β} (h : P p = .error e p') :
    (P >>= Q) p = .error e p' := by
  change EStateM.bind P Q p = _
  rw [EStateM.bind, h]

theorem tryCatch_run (P : Parse α) (handle : Stop → Parse α) (p : Parser) :
    tryCatch P handle p =
      match P p with
      | .ok a p' => .ok a p'
      | .error e p' => handle e p' := by
  change EStateM.tryCatch P handle p = _
  delta EStateM.tryCatch
  dsimp only
  cases P p <;> rfl

theorem map_run (f : α → β) (P : Parse α) (p : Parser) :
    (f <$> P) p =
      match P p with
      | .ok a p' => .ok (f a) p'
      | .error e p' => .error e p' := by
  change EStateM.map f P p = _
  unfold EStateM.map
  cases P p <;> rfl

theorem ok_of_bind {P : Parse α} {Q : α → Parse β} (h : (P >>= Q) p = .ok b q) :
    ∃ a p', P p = .ok a p' ∧ Q a p' = .ok b q := by
  cases hp : P p with
  | ok a p' => exact ⟨a, p', rfl, by rwa [bind_ok hp] at h⟩
  | error e p' =>
    rw [bind_error hp] at h
    cases h

theorem error_of_bind {P : Parse α} {Q : α → Parse β} (h : (P >>= Q) p = .error e q) :
    P p = .error e q ∨ ∃ a p', P p = .ok a p' ∧ Q a p' = .error e q := by
  cases hp : P p with
  | ok a p' => exact .inr ⟨a, p', rfl, by rwa [bind_ok hp] at h⟩
  | error e p' =>
    rw [bind_error hp] at h
    cases h
    exact .inl rfl

@[simp] theorem pure_run (a : α) (p : Parser) : (pure a : Parse α) p = .ok a p := rfl

@[simp] theorem peek_run (p : Parser) : peek p = .ok p.cursor.current p := rfl

@[simp] theorem advance_run (p : Parser) : advance p = .ok () p.skip := rfl

@[simp] theorem report_run (t : Token) (message : Text) (p : Parser) :
    report t message p =
      .ok () { p with diagnostics := p.diagnostics ++ [.atToken .parsing t message] } := rfl

theorem sees_run (kinds : List Token.Kind) (p : Parser) :
    sees kinds p =
      .ok (p.cursor.current.kind != .eof && kinds.contains p.cursor.current.kind) p := rfl

theorem accept_run (kinds : List Token.Kind) (p : Parser) :
    accept kinds p =
      if p.cursor.current.kind ≠ .eof ∧ p.cursor.current.kind ∈ kinds then
        .ok (some p.cursor.current) p.skip
      else .ok none p := by
  rw [accept, bind_ok (sees_run kinds p)]
  by_cases h : p.cursor.current.kind ≠ .eof ∧ p.cursor.current.kind ∈ kinds
  · have hb : (p.cursor.current.kind != .eof && kinds.contains p.cursor.current.kind) = true := by
      simp [h.1, h.2]
    simp only [hb, if_pos h, ↓reduceIte]
    rfl
  · have hb : (p.cursor.current.kind != .eof && kinds.contains p.cursor.current.kind) = false := by
      rw [Bool.and_eq_false_iff]
      simp only [bne_eq_false_iff_eq, List.contains_eq_mem, decide_eq_false_iff_not]
      exact (Decidable.em (p.cursor.current.kind = .eof)).imp_right fun he hm => h ⟨he, hm⟩
    simp only [hb, if_neg h, Bool.false_eq_true, ↓reduceIte]
    rfl

theorem accept_some (h : left p = t :: u :: ts) (ht : t.kind ≠ .eof) (hk : t.kind ∈ kinds) :
    accept kinds p = .ok (some t) p.skip := by
  have hc := current_eq h
  subst hc
  rw [accept_run, if_pos ⟨ht, hk⟩]

theorem accept_none (h : left p = t :: ts) (hk : t.kind ∉ kinds) : accept kinds p = .ok none p := by
  have hc := current_eq h
  subst hc
  rw [accept_run, if_neg fun hm => hk hm.2]

theorem reject_run (t : Token) (message : Text) (p : Parser) :
    (reject t message : Parse α) p =
      .error (.rejected ⟨t, message⟩)
        { p with diagnostics := p.diagnostics ++ [.atToken .parsing t message] } := rfl

theorem expect_run (kind : Token.Kind) (message : Text) (p : Parser) :
    expect kind message p =
      if p.cursor.current.kind ≠ .eof ∧ p.cursor.current.kind = kind then
        .ok p.cursor.current p.skip
      else reject p.cursor.current message p := by
  by_cases h : p.cursor.current.kind ≠ .eof ∧ p.cursor.current.kind = kind
  · have ha : accept [kind] p = .ok (some p.cursor.current) p.skip := by
      rw [accept_run, if_pos ⟨h.1, List.mem_singleton.2 h.2⟩]
    rw [expect, bind_ok ha, if_pos h]
    rfl
  · have ha : accept [kind] p = .ok none p := by
      rw [accept_run, if_neg fun hm => h ⟨hm.1, List.mem_singleton.1 hm.2⟩]
    rw [expect, bind_ok ha, if_neg h]
    rfl

theorem expect_took (h : expect kind message p = .ok t q) :
    p.cursor.current.kind ≠ .eof ∧ p.cursor.current.kind = kind ∧ q = p.skip := by
  rw [expect_run] at h
  split at h
  · rename_i hk
    cases h
    exact ⟨hk.1, hk.2, rfl⟩
  · rw [reject_run] at h
    cases h

theorem expect_ok (h : left p = t :: u :: ts) (ht : t.kind ≠ .eof) (hk : t.kind = kind) :
    expect kind message p = .ok t p.skip := by
  have hc := current_eq h
  subst hc
  rw [expect_run, if_pos ⟨ht, hk⟩]

theorem refer_run (name : Token) (p : Parser) :
    refer name p = .ok ⟨name, p.fresh⟩ { p with fresh := p.fresh + 1 } := rfl

/-- The run returns a value that `f` maps to `b`, reports nothing and leaves these tokens. -/
def Yields (P : Parse α) (f : α → β) (b : β) (rest : List Token) (p : Parser) : Prop :=
  ∃ a p', P p = .ok a p' ∧ f a = b ∧ p'.left = rest ∧ p'.diagnostics = p.diagnostics

/-- There is a token, and its kind is none of these. -/
def Before (kinds : List Token.Kind) (ts : List Token) : Prop :=
  ∃ t us, ts = t :: us ∧ t.kind ∉ kinds

theorem Before.ne_nil (h : Before kinds ts) : ts ≠ [] := by
  obtain ⟨t, us, rfl, -⟩ := h
  exact List.cons_ne_nil t us

theorem Before.mono (h : Before kinds ts) (hk : ∀ k ∈ kinds', k ∈ kinds) : Before kinds' ts := by
  obtain ⟨t, us, he, ht⟩ := h
  exact ⟨t, us, he, fun hm => ht (hk _ hm)⟩

theorem Before.cons (h : t.kind ∉ kinds) : Before kinds (t :: ts) := ⟨t, ts, rfl, h⟩

theorem left_skip_of (h : left p = t :: ts) (ht : t.kind ≠ .eof) (hn : ts ≠ []) :
    p.skip.left = ts := by
  obtain ⟨u, us, rfl⟩ := List.exists_cons_of_ne_nil hn
  exact left_skip h ht

theorem Yields.run (h : P p = Q p') (hd : p'.diagnostics = p.diagnostics)
    (hq : Yields Q f b rest p') : Yields P f b rest p := by
  obtain ⟨a, p'', he, hb, hl, hd'⟩ := hq
  exact ⟨a, p'', h.trans he, hb, hl, hd'.trans hd⟩

theorem Yields.pure {f : α → β} (hl : left p = rest) (hf : f a = b) :
    Yields (Pure.pure a) f b rest p := ⟨a, p, rfl, hf, hl, rfl⟩

theorem Yields.bind {P : Parse α} {Q : α → Parse γ} (h : Yields P f b rest p)
    (hQ : ∀ a p', f a = b → p'.left = rest → Yields (Q a) g c rest' p') :
    Yields (P >>= Q) g c rest' p := by
  obtain ⟨a, p', he, hb, hl, hd⟩ := h
  exact .run (bind_ok he) hd (hQ a p' hb hl)

theorem Yields.map {P : Parse α} {h : α → γ} (hp : Yields P (fun a => f (h a)) b rest p) :
    Yields (h <$> P) f b rest p := by
  rw [map_eq_pure_bind]
  exact hp.bind fun a p' ha hl => .pure hl ha

theorem Yields.accept {Q : Option Token → Parse α} (hl : left p = t :: ts) (hn : ts ≠ [])
    (ht : t.kind ≠ .eof) (hk : t.kind ∈ kinds)
    (hQ : ∀ p', p'.left = ts → Yields (Q (some t)) f b rest p') :
    Yields (Parser.accept kinds >>= Q) f b rest p := by
  have ha : Parser.accept kinds p = .ok (some t) p.skip := by
    have hc := current_eq hl
    subst hc
    rw [accept_run, if_pos ⟨ht, hk⟩]
  exact .run (bind_ok ha) rfl (hQ _ (left_skip_of hl ht hn))

theorem Yields.pass {Q : Option Token → Parse α} (hl : left p = ts) (hb : Before kinds ts)
    (hQ : Yields (Q none) f b rest p) : Yields (Parser.accept kinds >>= Q) f b rest p := by
  obtain ⟨t, us, rfl, hk⟩ := hb
  exact .run (bind_ok (accept_none hl hk)) rfl hQ

theorem Yields.expect {Q : Token → Parse α} (hl : left p = t :: ts) (hn : ts ≠ [])
    (hk : t.kind = kind) (ht : kind ≠ .eof)
    (hQ : ∀ p', p'.left = ts → Yields (Q t) f b rest p') :
    Yields (Parser.expect kind message >>= Q) f b rest p := by
  have he : Parser.expect kind message p = .ok t p.skip := by
    have hc := current_eq hl
    subst hc
    rw [expect_run, if_pos ⟨hk ▸ ht, hk⟩]
  exact .run (bind_ok he) rfl (hQ _ (left_skip_of hl (hk ▸ ht) hn))

theorem Yields.peek {Q : Token → Parse α} (hl : left p = t :: ts) (hQ : Yields (Q t) f b rest p) :
    Yields (Parser.peek >>= Q) f b rest p := by
  have hc := current_eq hl
  subst hc
  exact .run (bind_ok (peek_run p)) rfl hQ

theorem Yields.advance {Q : Unit → Parse α} (hl : left p = t :: ts) (hn : ts ≠ [])
    (ht : t.kind ≠ .eof) (hQ : ∀ p', p'.left = ts → Yields (Q ()) f b rest p') :
    Yields (Parser.advance >>= Q) f b rest p :=
  .run (bind_ok (advance_run p)) rfl (hQ _ (left_skip_of hl ht hn))

theorem Yields.refer {Q : Reference Mark → Parse α} (hl : left p = ts)
    (hQ : ∀ mark p', p'.left = ts → Yields (Q ⟨name, mark⟩) f b rest p') :
    Yields (Parser.refer name >>= Q) f b rest p :=
  .run (bind_ok (refer_run name p)) rfl (hQ p.fresh _ hl)

theorem Yields.sees {Q : Bool → Parse α} (hl : left p = t :: ts) (ht : t.kind ≠ .eof)
    (hk : t.kind ∈ kinds) (hQ : Yields (Q true) f b rest p) :
    Yields (Parser.sees kinds >>= Q) f b rest p := by
  have hc := current_eq hl
  subst hc
  have hs : Parser.sees kinds p = .ok true p := by
    rw [sees_run]
    simp [ht, hk]
  exact .run (bind_ok hs) rfl hQ

theorem Yields.overlook {Q : Bool → Parse α} (hl : left p = ts) (hb : Before kinds ts)
    (hQ : Yields (Q false) f b rest p) : Yields (Parser.sees kinds >>= Q) f b rest p := by
  obtain ⟨t, us, rfl, hk⟩ := hb
  have hc := current_eq hl
  subst hc
  have hs : Parser.sees kinds p = .ok false p := by
    rw [sees_run]
    simp [hk]
  exact .run (bind_ok hs) rfl hQ

end Parser

end LoxLang
