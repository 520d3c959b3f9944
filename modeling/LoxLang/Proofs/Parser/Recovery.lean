import LoxLang.Proofs.Parser.Bounds

namespace LoxLang

namespace Parser
set_option autoImplicit true

/-- Parsing can resume behind the first tokens and before the others: at the end of input, before a
word that begins a declaration, or just past a semicolon. -/
inductive Boundary : List Token → List Token → Prop where
  | ends : t.kind = .eof → Boundary ds (t :: ts)
  | starts : t.kind.startsDeclaration → Boundary ds (t :: ts)
  | passes : t.kind = .semicolon → Boundary (ds ++ [t]) ts

theorem Boundary.none (he : t.kind ≠ .eof) (hs : t.kind.startsDeclaration = false)
    (hp : ∀ u, ds.getLast? = some u → u.kind ≠ .semicolon) : ¬ Boundary ds (t :: ts) := by
  intro h
  generalize hd : t :: ts = us at h
  cases h with
  | ends hk =>
    cases hd
    exact he hk
  | starts hk =>
    cases hd
    exact Bool.false_ne_true (hs.symm.trans hk)
  | passes hk => exact hp _ List.getLast?_concat hk

/-- Behind the tokens `ds`, the first boundary is found when `us` are dropped. -/
def FirstBoundary (ds us rest : List Token) : Prop :=
  Boundary (ds ++ us) rest ∧
    ∀ vs ws, us = vs ++ ws → ws ≠ [] → ¬ Boundary (ds ++ vs) (ws ++ rest)

theorem FirstBoundary.here (h : Boundary ds rest) : FirstBoundary ds [] rest := by
  refine ⟨by rwa [List.append_nil], fun vs ws he hne => ?_⟩
  exact absurd (List.append_eq_nil_iff.1 he.symm).2 hne

theorem FirstBoundary.drop (hnone : ¬ Boundary ds (t :: (us ++ rest)))
    (h : FirstBoundary (ds ++ [t]) us rest) : FirstBoundary ds (t :: us) rest := by
  refine ⟨by simpa using h.1, fun vs ws he hne => ?_⟩
  cases vs with
  | nil =>
    obtain rfl : t :: us = ws := he
    rwa [List.append_nil]
  | cons v vs =>
    obtain ⟨rfl, rfl⟩ := List.cons.inj he
    simpa using h.2 vs ws rfl hne

theorem FirstBoundary.keeps (h : FirstBoundary ds us rest) :
    ∀ t ∈ us, t.kind.startsDeclaration = false := by
  intro t ht
  obtain ⟨vs, ws, rfl⟩ := List.append_of_mem ht
  rw [← Bool.not_eq_true]
  exact fun hs => h.2 vs (t :: ws) rfl (List.cons_ne_nil t ws) (.starts hs)

theorem boundary_first (ds : List Token) (previous current : Token) (rest : List Token)
    (hprevious : ds.getLast? = some previous) (heof : ∃ t ∈ current :: rest, t.kind = .eof) :
    ∃ us, current :: rest = us ++ (Cursor.boundary previous current rest).current ::
        (Cursor.boundary previous current rest).rest ∧
      FirstBoundary ds us ((Cursor.boundary previous current rest).current ::
        (Cursor.boundary previous current rest).rest) := by
  induction rest generalizing ds previous current with
  | nil =>
    obtain ⟨t, ht, hk⟩ := heof
    cases List.mem_singleton.1 ht
    exact ⟨[], rfl, .here (.ends hk)⟩
  | cons t rest ih =>
    rw [Cursor.boundary]
    split
    · rename_i hb
      refine ⟨[], rfl, .here ?_⟩
      rcases hb with he | hp | hs
      · exact .ends he
      · obtain ⟨ds, rfl⟩ := List.getLast?_eq_some_iff.1 hprevious
        exact .passes hp
      · exact .starts hs
    · rename_i hb
      obtain ⟨he, hp, hs⟩ : current.kind ≠ .eof ∧ previous.kind ≠ .semicolon ∧
          ¬ current.kind.startsDeclaration := by simpa only [not_or] using hb
      obtain ⟨u, hu, hk⟩ := heof
      have hrest : ∃ v ∈ t :: rest, v.kind = .eof :=
        ⟨u, (List.mem_cons.1 hu).resolve_left fun h => he (h ▸ hk), hk⟩
      obtain ⟨us, hl, hfirst⟩ := ih (ds ++ [current]) current t List.getLast?_concat hrest
      refine ⟨current :: us, congrArg (current :: ·) hl, .drop (Boundary.none he ?_ ?_) hfirst⟩
      · exact Bool.eq_false_iff.2 hs
      · intro v hv
        obtain rfl : previous = v := Option.some.inj (hprevious.symm.trans hv)
        exact hp

theorem Closed.eof_mem (h : Closed p) : ∃ t ∈ p.left, t.kind = .eof := by
  obtain ⟨ts, t, hl, ht⟩ := h
  exact ⟨t, hl ▸ List.mem_append_right ts (List.mem_singleton_self t), ht⟩

theorem resume_left (q : Parser) : q.resume.left =
    (Cursor.boundary q.skip.cursor.previous q.skip.cursor.current q.skip.cursor.rest).current ::
      (Cursor.boundary q.skip.cursor.previous q.skip.cursor.current q.skip.cursor.rest).rest := rfl

/-- A token that does not begin a declaration is given up, unless it is the end of input, and the first
boundary is found. -/
theorem Closed.resume_first (h : Closed q) (hs : q.cursor.current.kind.startsDeclaration = false) :
    ∃ us, q.left = us ++ q.resume.left ∧ FirstBoundary [] us q.resume.left := by
  by_cases he : q.cursor.current.kind = .eof
  · have hl : q.resume.left = q.left := by
      rw [resume_left, skip_eof he]
      cases hr : q.cursor.rest with
      | nil => rw [Cursor.boundary, left, hr]
      | cons t rest => rw [Cursor.boundary, if_pos (.inl he), left, hr]
    rw [hl]
    exact ⟨[], rfl, .here (.ends he)⟩
  · have hl := h.left_skip he
    obtain ⟨us, hus, hfirst⟩ := boundary_first [q.cursor.current] q.skip.cursor.previous
      q.skip.cursor.current q.skip.cursor.rest (by rw [h.skip_previous he]; rfl) h.skip.eof_mem
    rw [resume_left]
    refine ⟨q.cursor.current :: us, ?_, .drop (Boundary.none he hs fun _ hu => ?_) hfirst⟩
    · rw [hl]
      exact congrArg (q.cursor.current :: ·) hus
    · exact absurd hu (Option.some_ne_none _).symm

open Grammar

/-- A declaration that is rejected at a token that does not itself begin a declaration is left out, and
parsing resumes at the first boundary from that token on. None of the words that begin declarations is
dropped on the way, and a declaration of the grammar that stands at the boundary is parsed next. -/
theorem declaration_recovers (tokens : List Token) (hm : Moves (start tokens) p)
    (hr : declare n p = .error (.rejected e) q) (hs : e.token.kind.startsDeclaration = false) :
    declaration (n + 1) p = .ok none q.resume ∧ q.cursor.current = e.token ∧
      ∃ us, q.left = us ++ q.resume.left ∧ FirstBoundary [] us q.resume.left ∧
        (∀ t ∈ us, t.kind.startsDeclaration = false) ∧
        ∀ ts s rest, q.resume.left = ts ++ rest → Declaration ts s → rest ≠ [] →
          (Statement true ts s → Before [.else_] rest) →
          ∀ m, 24 * q.resume.left.length + 18 ≤ m →
            Yields (declaration m) (Option.map Stmt.erase) (some s) rest q.resume := by
  have hc := ((start_within tokens).moves hm).closed
  obtain ⟨q', hm', he, rfl⟩ := (declare_treads n p).rejects hr
  have hq : Closed (q'.fault e) := (hm'.suffix hc).1
  have hcur : (q'.fault e).cursor.current = e.token := he.symm
  obtain ⟨us, hl, hfirst⟩ := hq.resume_first (hcur ▸ hs)
  refine ⟨by rw [declaration_run, hr], hcur, us, hl, hfirst, hfirst.keeps, ?_⟩
  intro ts s rest hrest hd hne helse m hmn
  exact hd.complete m _ rest hrest hne helse (hrest ▸ hmn)

/-- In `var = 1; print a;` the statement behind the semicolon is parsed. -/
theorem declaration_recovers_semicolon :
    ∃ q, declaration 200 (start [⟨.var, "var", none, 1⟩, ⟨.equal, "=", none, 1⟩,
        ⟨.number, "1", some (.number 1), 1⟩, ⟨.semicolon, ";", none, 1⟩,
        ⟨.print, "print", none, 1⟩, ⟨.identifier, "a", none, 1⟩, ⟨.semicolon, ";", none, 1⟩]) =
          .ok none q ∧
      q.left = [⟨.print, "print", none, 1⟩, ⟨.identifier, "a", none, 1⟩,
        ⟨.semicolon, ";", none, 1⟩, ⟨.eof, [], none, 1⟩] ∧
      Yields (declaration 200) (Option.map Stmt.erase)
        (some (.print (.var ⟨⟨.identifier, "a", none, 1⟩, ()⟩))) [⟨.eof, [], none, 1⟩] q := by
  have hone : Derives .assignment [⟨.identifier, "a", none, 1⟩]
      (.var ⟨⟨.identifier, "a", none, 1⟩, ()⟩) :=
    .noAssignment (.noOr (.noAnd (.noEquality (.noComparison (.noTerm (.noFactor (.noUnary
      (.noCall (.name rfl)))))))))
  obtain ⟨hd, -, us, -, -, -, hnext⟩ := declaration_recovers
    [⟨.var, "var", none, 1⟩, ⟨.equal, "=", none, 1⟩,
      ⟨.number, "1", some (.number 1), 1⟩, ⟨.semicolon, ";", none, 1⟩,
      ⟨.print, "print", none, 1⟩, ⟨.identifier, "a", none, 1⟩, ⟨.semicolon, ";", none, 1⟩]
    (n := 199) .refl rfl rfl
  exact ⟨_, hd, rfl, hnext [⟨.print, "print", none, 1⟩, ⟨.identifier, "a", none, 1⟩,
    ⟨.semicolon, ";", none, 1⟩] _ [⟨.eof, [], none, 1⟩] rfl
    (.statement (.print rfl hone rfl)) (List.cons_ne_nil _ _)
    (fun h => .cons (by decide)) 200 (by decide)⟩

/-- In `var a = 1 print a;` the word that is rejected begins a statement, and is dropped. -/
theorem declaration_drops_word :
    ∃ e q us, declare 199 (start [⟨.var, "var", none, 1⟩, ⟨.identifier, "a", none, 1⟩,
        ⟨.equal, "=", none, 1⟩, ⟨.number, "1", some (.number 1), 1⟩,
        ⟨.print, "print", none, 1⟩, ⟨.identifier, "a", none, 1⟩, ⟨.semicolon, ";", none, 1⟩]) =
          .error (.rejected e) q ∧ e.token.kind = .print ∧ q.left = us ++ q.resume.left ∧
      e.token ∈ us ∧ ¬ FirstBoundary [] us q.resume.left ∧
      (Parsed.ofTokens [⟨.var, "var", none, 1⟩, ⟨.identifier, "a", none, 1⟩,
        ⟨.equal, "=", none, 1⟩, ⟨.number, "1", some (.number 1), 1⟩,
        ⟨.print, "print", none, 1⟩, ⟨.identifier, "a", none, 1⟩,
        ⟨.semicolon, ";", none, 1⟩]).statements = [] := by
  refine ⟨_, _, [⟨.print, "print", none, 1⟩, ⟨.identifier, "a", none, 1⟩,
    ⟨.semicolon, ";", none, 1⟩], rfl, rfl, rfl, List.mem_cons_self, fun h => ?_, rfl⟩
  exact absurd (h.keeps _ List.mem_cons_self) (by decide)

end Parser

end LoxLang
