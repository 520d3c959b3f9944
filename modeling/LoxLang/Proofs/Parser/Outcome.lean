import LoxLang.Proofs.Parser.Run

namespace LoxLang

namespace Parser
set_option autoImplicit true

/-- A run from `p` is not out of steps, takes at least `k` tokens if it returns, and if it reports
nothing then `R` relates the tokens it takes, its result and where it stands then. -/
def Parses (P : Parse α) (k : Nat) (R : List Token → α → Parser → Prop) (p : Parser) : Prop :=
  match P p with
  | .ok a p' => p'.Closed ∧ ∃ ts ds, p.left = ts ++ p'.left ∧ k ≤ ts.length ∧
      p'.diagnostics = p.diagnostics ++ ds ∧ (ds = [] → R ts a p')
  | .error (.rejected _) p' => p'.Closed ∧ ∃ ts ds, p.left = ts ++ p'.left ∧ ds ≠ [] ∧
      p'.diagnostics = p.diagnostics ++ ds
  | .error .exhausted _ => False

theorem Parses.mono (h : Parses P k R p) (hk : k' ≤ k) (hR : ∀ ts a p', R ts a p' → R' ts a p') :
    Parses P k' R' p := by
  unfold Parses at h ⊢
  split
  · rename_i a p' he
    simp only [he] at h
    obtain ⟨hc, ts, ds, hl, hn, hd, hr⟩ := h
    exact ⟨hc, ts, ds, hl, Nat.le_trans hk hn, hd, fun e => hR ts a p' (hr e)⟩
  · rename_i he
    simpa only [he] using h
  · rename_i he
    simp only [he] at h

theorem Parses.bind {P : Parse α} {Q : α → Parse β} (h : Parses P j R₁ p)
    (hQ : ∀ a p' ts, p'.Closed → p'.left.length + j ≤ p.left.length →
      Parses (Q a) (k - j) (fun us b p'' => R₁ ts a p' → R (ts ++ us) b p'') p') :
    Parses (P >>= Q) k R p := by
  unfold Parses at h
  split at h
  · rename_i a p' he
    obtain ⟨hc, ts, ds, hl, hn, hd, hr⟩ := h
    have hlen : p'.left.length + j ≤ p.left.length := by
      rw [hl, List.length_append]
      omega
    have hq := hQ a p' ts hc hlen
    unfold Parses at hq ⊢
    rw [bind_ok he]
    split at hq
    · rename_i b p'' he'
      obtain ⟨hc', us, es, hl', hn', hd', hr'⟩ := hq
      refine ⟨hc', ts ++ us, ds ++ es, by rw [hl, hl', List.append_assoc], ?_, ?_, ?_⟩
      · rw [List.length_append]
        omega
      · rw [hd', hd, List.append_assoc]
      · intro e
        obtain ⟨e₁, e₂⟩ := List.append_eq_nil_iff.1 e
        exact hr' e₂ (hr e₁)
    · obtain ⟨hc', us, es, hl', hn', hd'⟩ := hq
      refine ⟨hc', ts ++ us, ds ++ es, by rw [hl, hl', List.append_assoc], ?_, ?_⟩
      · intro e
        exact hn' (List.append_eq_nil_iff.1 e).2
      · rw [hd', hd, List.append_assoc]
    · exact hq
  · rename_i he
    unfold Parses
    rw [bind_error he]
    exact h
  · exact h.elim

theorem Parses.pure (hp : Closed p) (h : R [] a p) : Parses (pure a) 0 R p :=
  ⟨hp, [], [], rfl, Nat.le_refl _, (List.append_nil _).symm, fun _ => h⟩

theorem Parses.map {P : Parse α} {f : α → β} (hp : Parses P k (fun ts a => R ts (f a)) p) :
    Parses (f <$> P) k R p := by
  have h : Parses (P >>= fun a => Pure.pure (f a)) k R p := by
    refine hp.bind fun a p' ts hc _ => ?_
    refine (Parses.pure hc (a := f a) ?_).mono (by omega) fun _ _ _ h => h
    intro h
    rwa [List.append_nil]
  exact h

theorem Parses.report {Q : Unit → Parse β} (hp : Closed p)
    (h : ∀ p', p'.Closed → p'.left = p.left → Parses (Q ()) k R' p') :
    Parses (Parser.report t message >>= Q) k R p := by
  have hq := h { p with diagnostics := p.diagnostics ++ [.atToken .parsing t message] } hp rfl
  unfold Parses at hq ⊢
  rw [bind_ok (report_run t message p)]
  split at hq
  · obtain ⟨hc, ts, ds, hl, hn, hd, -⟩ := hq
    refine ⟨hc, ts, _ :: ds, hl, hn, by rw [hd, List.append_assoc]; rfl, ?_⟩
    intro e
    cases e
  · obtain ⟨hc, ts, ds, hl, -, hd⟩ := hq
    refine ⟨hc, ts, _ :: ds, hl, ?_, by rw [hd, List.append_assoc]; rfl⟩
    intro e
    cases e
  · exact hq

theorem Parses.reject (hp : Closed p) : Parses (reject t message : Parse α) k R p := by
  unfold Parses
  rw [reject_run]
  exact ⟨hp, [], _, rfl, List.cons_ne_nil _ _, rfl⟩

theorem Parses.advance {Q : Unit → Parse β} (hp : Closed p)
    (ht : p.cursor.current.kind ≠ .eof)
    (h : p.skip.Closed → p.skip.left.length < p.left.length →
      Parses (Q ()) (k - 1) (fun ts => R (p.cursor.current :: ts)) p.skip) :
    Parses (Parser.advance >>= Q) k R p := by
  have hl := hp.left_skip ht
  have hq := h hp.skip (by rw [hl]; exact Nat.lt_succ_self _)
  unfold Parses at hq ⊢
  rw [bind_ok (advance_run p)]
  split at hq
  · obtain ⟨hc, ts, ds, hl', hn, hd, hr⟩ := hq
    refine ⟨hc, _ :: ts, ds, by rw [hl, hl']; rfl, ?_, hd, hr⟩
    rw [List.length_cons]
    omega
  · obtain ⟨hc, ts, ds, hl', hn, hd⟩ := hq
    exact ⟨hc, _ :: ts, ds, by rw [hl, hl']; rfl, hn, hd⟩
  · exact hq

theorem Parses.peek {Q : Token → Parse β} (h : Parses (Q p.cursor.current) k R p) :
    Parses (Parser.peek >>= Q) k R p := by
  unfold Parses
  rw [bind_ok (peek_run p)]
  exact h

theorem Parses.sees {Q : Bool → Parse β}
    (ht : p.cursor.current.kind ≠ .eof → p.cursor.current.kind ∈ kinds → Parses (Q true) k R p)
    (hf : Parses (Q false) k R p) : Parses (Parser.sees kinds >>= Q) k R p := by
  unfold Parses
  rw [bind_ok (sees_run kinds p)]
  cases hb : p.cursor.current.kind != .eof && kinds.contains p.cursor.current.kind with
  | true =>
    simp only [Bool.and_eq_true, bne_iff_ne, List.contains_eq_mem, decide_eq_true_eq] at hb
    exact ht hb.1 hb.2
  | false => exact hf

theorem Parses.accept {Q : Option Token → Parse β} (hp : Closed p)
    (hs : ∀ t, p.cursor.current = t → t.kind ∈ kinds → p.skip.Closed →
      p.skip.left.length < p.left.length →
      Parses (Q (some t)) (k - 1) (fun ts => R (t :: ts)) p.skip)
    (hn : p.cursor.current.kind = .eof ∨ p.cursor.current.kind ∉ kinds →
      Parses (Q none) k R p) : Parses (Parser.accept kinds >>= Q) k R p := by
  by_cases hk : p.cursor.current.kind ≠ .eof ∧ p.cursor.current.kind ∈ kinds
  · have ha : Parser.accept kinds p = .ok (some p.cursor.current) p.skip := by
      rw [accept_run, if_pos hk]
    have hadv : Parses (Parser.advance >>= fun _ => Q (some p.cursor.current)) k R p :=
      Parses.advance hp hk.1 fun hc hl => hs _ rfl hk.2 hc hl
    unfold Parses at hadv ⊢
    rw [bind_ok (advance_run p)] at hadv
    rwa [bind_ok ha]
  · have ha : Parser.accept kinds p = .ok none p := by rw [accept_run, if_neg hk]
    have hq := hn (Decidable.or_iff_not_imp_left.2 fun he hm => hk ⟨he, hm⟩)
    unfold Parses at hq ⊢
    rwa [bind_ok ha]

theorem Parses.expect {Q : Token → Parse β} (hp : Closed p)
    (hs : ∀ t, t.kind = kind → p.skip.Closed → p.skip.left.length < p.left.length →
      Parses (Q t) (k - 1) (fun ts => R (t :: ts)) p.skip) :
    Parses (Parser.expect kind message >>= Q) k R p := by
  by_cases hk : p.cursor.current.kind ≠ .eof ∧ p.cursor.current.kind = kind
  · have he : Parser.expect kind message p = .ok p.cursor.current p.skip := by
      rw [expect_run, if_pos hk]
    have hadv : Parses (Parser.advance >>= fun _ => Q p.cursor.current) k R p :=
      Parses.advance hp hk.1 fun hc hl => hs _ hk.2 hc hl
    unfold Parses at hadv ⊢
    rw [bind_ok (advance_run p)] at hadv
    rwa [bind_ok he]
  · have he : Parser.expect kind message p = Parser.reject p.cursor.current message p := by
      rw [expect_run, if_neg hk]
    unfold Parses
    rw [bind_error (he.trans (reject_run _ _ _))]
    exact ⟨hp, [], _, rfl, List.cons_ne_nil _ _, rfl⟩

theorem Parses.refer {Q : Reference Mark → Parse β} (hp : Closed p)
    (h : ∀ mark p', p'.Closed → p'.left = p.left → Parses (Q ⟨name, mark⟩) k R p') :
    Parses (Parser.refer name >>= Q) k R p := by
  have hq := h p.fresh { p with fresh := p.fresh + 1 } hp rfl
  unfold Parses at hq ⊢
  rwa [bind_ok (refer_run name p)]

end Parser

end LoxLang
