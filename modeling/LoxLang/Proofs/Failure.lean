import LoxLang.Failure

namespace LoxLang

namespace Failure
set_option autoImplicit true

/-- A failure with what is known of it from how it was made: the number of the one that its kind
began with, if it is of a kind of ours, and the number of its cause, if it has one. -/
structure Entry where
  failure : Failure
  origin : Option Nat
  cause : Option Nat

def causeIn (es : List Entry) (cause : Option Nat) : Option Failure :=
  cause.bind fun j => es[j]?.map Entry.failure

def Unused (s : Sentinel) (es : List Entry) : Prop := ∀ e ∈ es, e.failure.sentinel? ≠ some s

/-- From a failure to itself, its cause, the cause of that and so on. -/
inductive Unwraps (es : List Entry) : Nat → Nat → Prop where
  | self : Unwraps es i i
  | cause {e : Entry} : es[i]? = some e → e.cause = some j → Unwraps es j k → Unwraps es i k

/-- From a failure to the first of a kind of ours that it unwraps to. -/
inductive Finds (es : List Entry) : Nat → Nat → Prop where
  | self {e : Entry} : es[i]? = some e → e.origin.isSome → Finds es i i
  | cause {e : Entry} : es[i]? = some e → e.origin = none → e.cause = some j →
      Finds es j k → Finds es i k

/-- Failures in the order in which they were made. -/
inductive Ledger : List Entry → Prop where
  | empty : Ledger []
  | plain (f : Foreign) (cause : Option Nat) : Ledger es → (∀ j ∈ cause, j < es.length) →
      Ledger (es ++ [⟨foreign f (causeIn es cause), none, cause⟩])
  | kind (s : Sentinel) (t : Text) : Ledger es → Unused s es →
      Ledger (es ++ [⟨own s t [] none, some es.length, none⟩])
  | wrap (cause : Option Nat) {i : Nat} {e : Entry} :
      Ledger es → es[i]? = some e → e.origin.isSome → (∀ j ∈ cause, j < es.length) →
      Ledger (es ++ [⟨e.failure.wrap (causeIn es cause), e.origin, cause⟩])
  | attach (more : List Log.Attr) {i : Nat} {e : Entry} :
      Ledger es → es[i]? = some e → e.origin.isSome →
      Ledger (es ++ [⟨e.failure.attach more, e.origin, e.cause⟩])
  /-- A nameless failure around one that unwraps to no kind of ours begins a kind. -/
  | adopt (n : Nat) {i : Nat} {e : Entry} : Ledger es → es[i]? = some e →
      (∀ k (x : Entry), Unwraps es i k → es[k]? = some x → x.origin = none) →
      Unused (.other n) es →
      Ledger (es ++ [⟨e.failure.adopt n, some es.length, some i⟩])
  /-- Of any other, the first of a kind of ours is taken as it is. -/
  | keep (n : Nat) {i k : Nat} {e x : Entry} : Ledger es → es[i]? = some e → Finds es i k →
      es[k]? = some x → Ledger (es ++ [⟨e.failure.adopt n, x.origin, x.cause⟩])

theorem wrap_parts {e : Failure} (h : e.sentinel?.isSome) (cause : Option Failure) :
    (wrap e cause).sentinel? = e.sentinel? ∧ (wrap e cause).cause? = cause ∧
      (wrap e cause).attrs = e.attrs := by
  cases e with
  | foreign f c => cases h
  | own s t attrs c => exact ⟨rfl, rfl, rfl⟩

theorem attach_parts (e : Failure) (more : List Log.Attr) :
    (attach e more).sentinel? = e.sentinel? ∧ (attach e more).cause? = e.cause? := by
  cases e with
  | foreign f c => exact ⟨rfl, rfl⟩
  | own s t attrs c => exact ⟨rfl, rfl⟩

theorem attach_attrs {e : Failure} (h : e.sentinel?.isSome) (more : List Log.Attr) :
    (attach e more).attrs = e.attrs ++ more := by
  cases e with
  | foreign f c => cases h
  | own s t attrs c => rfl

theorem chain_eq (e : Failure) : e.chain = e :: (e.cause?.map chain).getD [] := by
  cases e with
  | foreign f cause | own s t attrs cause =>
    cases cause with
    | none => rfl
    | some c => rfl

theorem known?_own {e : Failure} (h : e.sentinel?.isSome) : e.known? = some e := by
  rw [known?, chain_eq, List.find?_cons, h]

theorem known?_foreign {e : Failure} (h : e.sentinel? = none) :
    e.known? = e.cause?.bind known? := by
  rw [known?, chain_eq, List.find?_cons, h]
  cases e.cause? with
  | none => rfl
  | some c => rfl

theorem adopt_known {e x : Failure} (h : e.known? = some x) (n : Nat) : e.adopt n = x := by
  rw [adopt, h, Option.getD_some]

theorem adopt_parts {e : Failure} (h : e.known? = none) (n : Nat) :
    (e.adopt n).sentinel? = some (.other n) ∧ (e.adopt n).cause? = some e := by
  rw [adopt, h]
  exact ⟨rfl, rfl⟩

theorem has_iff (e : Failure) (s : Sentinel) :
    e.has s = true ↔ e.sentinel? = some s ∨ ∃ c ∈ e.cause?, c.has s = true := by
  unfold has
  rw [chain_eq, List.any_cons, Bool.or_eq_true, beq_iff_eq]
  cases e.cause? with
  | none => simp
  | some c => simp

theorem is_eq_has {t : Failure} (h : t.sentinel? = some s) (e : Failure) : e.is t = e.has s := by
  cases t with
  | foreign f cause => cases h
  | own s' text attrs cause =>
    cases h
    rfl

theorem is_iff {t : Failure} (ht : t.sentinel?.isSome) (e : Failure) :
    e.is t = true ↔ e.sentinel? = t.sentinel? ∨ ∃ c ∈ e.cause?, c.is t = true := by
  obtain ⟨s, hs⟩ := Option.isSome_iff_exists.1 ht
  simp only [is_eq_has hs, hs]
  exact has_iff e s

theorem attach_is {t : Failure} (ht : t.sentinel?.isSome) (e : Failure) (more : List Log.Attr) :
    (e.attach more).is t = e.is t := by
  obtain ⟨hsentinel, hcause⟩ := attach_parts e more
  rw [Bool.eq_iff_iff, is_iff ht, is_iff ht, hsentinel, hcause]

theorem is_attach {t : Failure} (ht : t.sentinel?.isSome) (e : Failure) (more : List Log.Attr) :
    e.is (t.attach more) = e.is t := by
  obtain ⟨s, hs⟩ := Option.isSome_iff_exists.1 ht
  rw [is_eq_has hs, is_eq_has ((attach_parts t more).1.trans hs)]

/-- What the numbers say of failures is right. -/
structure Sound (es : List Entry) : Prop where
  made : ∀ e ∈ es, ∀ o ∈ e.origin, o < es.length
  own : ∀ e ∈ es, e.failure.sentinel?.isSome = e.origin.isSome
  /-- Two failures are of one kind if they have one origin. -/
  same : ∀ e ∈ es, ∀ e' ∈ es, e.failure.sentinel? = e'.failure.sentinel? ↔ e.origin = e'.origin
  cause : ∀ (i : Nat) (e : Entry), es[i]? = some e →
    e.failure.cause? = causeIn es e.cause ∧ ∀ j ∈ e.cause, j < i

theorem causeIn_snoc {es : List Entry} (h : ∀ j ∈ cause, j < es.length) (x : Entry) :
    causeIn (es ++ [x]) cause = causeIn es cause := by
  cases cause with
  | none => rfl
  | some j =>
    change (es ++ [x])[j]?.map Entry.failure = es[j]?.map Entry.failure
    rw [List.getElem?_append_left (h j rfl)]

theorem Sound.snoc (h : Sound es) {x : Entry} (hmade : ∀ o ∈ x.origin, o < es.length + 1)
    (hown : x.failure.sentinel?.isSome = x.origin.isSome)
    (hsame : ∀ e ∈ es, e.failure.sentinel? = x.failure.sentinel? ↔ e.origin = x.origin)
    (hcause : x.failure.cause? = causeIn es x.cause) (hearlier : ∀ j ∈ x.cause, j < es.length) :
    Sound (es ++ [x]) where
  made e he o ho := by
    rw [List.length_append, List.length_singleton]
    rcases List.mem_append.1 he with he | he
    · exact Nat.lt_succ_of_lt (h.made e he o ho)
    · exact hmade o (List.mem_singleton.1 he ▸ ho)
  own e he := by
    rcases List.mem_append.1 he with he | he
    · exact h.own e he
    · exact List.mem_singleton.1 he ▸ hown
  same e he e' he' := by
    rcases List.mem_append.1 he with hold | hnew <;> rcases List.mem_append.1 he' with hold' | hnew'
    · exact h.same e hold e' hold'
    · obtain rfl := List.mem_singleton.1 hnew'
      exact hsame e hold
    · obtain rfl := List.mem_singleton.1 hnew
      rw [eq_comm, hsame e' hold', eq_comm]
    · obtain rfl := List.mem_singleton.1 hnew
      rw [List.mem_singleton.1 hnew']
      exact iff_of_true rfl rfl
  cause i e he := by
    rw [List.getElem?_append] at he
    split at he
    · obtain ⟨hc, hlt⟩ := h.cause i e he
      refine ⟨?_, hlt⟩
      rw [hc, causeIn_snoc fun j hj => Nat.lt_trans (hlt j hj) ‹_›]
    · rename_i hi
      rw [List.getElem?_singleton] at he
      split at he
      · cases he
        refine ⟨hcause.trans (causeIn_snoc hearlier _).symm, fun j hj => ?_⟩
        exact Nat.lt_of_lt_of_le (hearlier j hj) (Nat.le_of_not_lt hi)
      · cases he

theorem Sound.derive {i : Nat} {e : Entry} (h : Sound es) (hi : es[i]? = some e) {x : Failure}
    {cause : Option Nat} (hx : x.sentinel? = e.failure.sentinel?)
    (hcause : x.cause? = causeIn es cause)
    (hearlier : ∀ j ∈ cause, j < es.length) : Sound (es ++ [⟨x, e.origin, cause⟩]) := by
  have he : e ∈ es := List.mem_of_getElem? hi
  refine h.snoc (fun o ho => Nat.lt_succ_of_lt (h.made e he o ho)) ?_ (fun e' he' => ?_) hcause
    hearlier
  · exact (congrArg Option.isSome hx).trans (h.own e he)
  · change e'.failure.sentinel? = x.sentinel? ↔ _
    rw [hx]
    exact h.same e' he' e he

theorem Sound.begin (h : Sound es) {x : Failure} {cause : Option Nat}
    (hx : x.sentinel? = some s) (hs : Unused s es) (hcause : x.cause? = causeIn es cause)
    (hearlier : ∀ j ∈ cause, j < es.length) : Sound (es ++ [⟨x, some es.length, cause⟩]) := by
  refine h.snoc (fun o ho => ?_) ?_ (fun e he => ?_) hcause hearlier
  · exact Option.some.inj ho ▸ Nat.lt_succ_self _
  · exact congrArg Option.isSome hx
  · refine iff_of_false (fun hsame => hs e he (hsame.trans hx)) fun ho => ?_
    exact Nat.lt_irrefl _ (h.made e he es.length ho)

theorem Sound.earlier {i : Nat} {e : Entry} (h : Sound es) (hi : es[i]? = some e) :
    ∀ j ∈ e.cause, j < es.length :=
  fun j hj => Nat.lt_trans ((h.cause i e hi).2 j hj) (List.getElem?_eq_some_iff.1 hi).1

theorem Sound.cause_some {i j : Nat} {e : Entry} (h : Sound es) (hi : es[i]? = some e)
    (hj : e.cause = some j) : ∃ e', es[j]? = some e' ∧ e.failure.cause? = some e'.failure := by
  have hlt := h.earlier hi j hj
  refine ⟨es[j], List.getElem?_eq_getElem hlt, ?_⟩
  rw [(h.cause i e hi).1, causeIn, hj, Option.bind_some, List.getElem?_eq_getElem hlt]
  rfl

theorem Sound.foreign {i : Nat} {e : Entry} (h : Sound es) (hi : es[i]? = some e)
    (ho : e.origin = none) : e.failure.sentinel? = none := by
  have hown := h.own e (List.mem_of_getElem? hi)
  rwa [ho, Option.isSome_none, Option.isSome_eq_false_iff, Option.isNone_iff_eq_none] at hown

theorem Sound.finds {i k : Nat} {x : Entry} (h : Sound es) (hf : Finds es i k)
    (hk : es[k]? = some x) : ∀ e : Entry, es[i]? = some e → e.failure.known? = some x.failure := by
  induction hf with
  | self hi ho =>
    intro e he
    cases hi.symm.trans hk
    cases hi.symm.trans he
    exact known?_own ((h.own _ (List.mem_of_getElem? hi)).trans ho)
  | cause hi ho hj _ ih =>
    intro e he
    cases hi.symm.trans he
    obtain ⟨e', hj', hcause⟩ := h.cause_some hi hj
    rw [known?_foreign (h.foreign hi ho), hcause]
    exact ih hk e' hj'

/-- Nothing of a kind of ours is known where there is nothing such to unwrap to, by induction on the
number of the failure. -/
theorem Sound.unknown (h : Sound es) : ∀ (i : Nat) (e : Entry), es[i]? = some e →
    (∀ k (x : Entry), Unwraps es i k → es[k]? = some x → x.origin = none) →
    e.failure.known? = none := by
  intro i
  induction i using Nat.strongRecOn with
  | ind i ih =>
    intro e hi hnone
    rw [known?_foreign (h.foreign hi (hnone i e .self hi))]
    cases hj : e.cause with
    | none => rw [(h.cause i e hi).1, hj, causeIn, Option.bind_none, Option.bind_none]
    | some j =>
      obtain ⟨e', hj', hcause⟩ := h.cause_some hi hj
      rw [hcause]
      exact ih j ((h.cause i e hi).2 j hj) e' hj' fun k x hk hx => hnone k x (.cause hi hj hk) hx

theorem Ledger.sound (h : Ledger es) : Sound es := by
  induction h with
  | empty => exact ⟨by simp, by simp, by simp, by simp⟩
  | plain f cause h hearlier ih =>
    refine ih.snoc (by simp) rfl (fun e he => ?_) rfl hearlier
    have hown := ih.own e he
    change e.failure.sentinel? = none ↔ e.origin = none
    rw [← Option.not_isSome_iff_eq_none, ← Option.not_isSome_iff_eq_none, hown]
  | kind s t h hs ih => exact ih.begin rfl hs rfl (by simp)
  | wrap cause h hi ho hc ih =>
    have hown := (ih.own _ (List.mem_of_getElem? hi)).trans ho
    obtain ⟨hsentinel, hcause, -⟩ := wrap_parts hown (causeIn _ cause)
    exact ih.derive hi hsentinel hcause hc
  | attach more h hi ho ih =>
    obtain ⟨hsentinel, hcause⟩ := attach_parts _ more
    exact ih.derive hi hsentinel (hcause.trans (ih.cause _ _ hi).1) (ih.earlier hi)
  | adopt n h hi hnone hs ih =>
    obtain ⟨hsentinel, hcause⟩ := adopt_parts (ih.unknown _ _ hi hnone) n
    refine ih.begin hsentinel hs (hcause.trans ?_) fun j hj => ?_
    · rw [causeIn, Option.bind_some, hi, Option.map_some]
    · exact Option.some.inj hj ▸ (List.getElem?_eq_some_iff.1 hi).1
  | keep n h hi hf hk ih =>
    rw [adopt_known (ih.finds hf hk _ hi)]
    exact ih.derive hk rfl (ih.cause _ _ hk).1 (ih.earlier hk)

theorem Sound.is_iff {t : Entry} (h : Sound es) (ht : t ∈ es) (hown : t.origin.isSome) :
    ∀ (i : Nat) (e : Entry), es[i]? = some e → (e.failure.is t.failure = true ↔
      ∃ (k : Nat) (x : Entry), Unwraps es i k ∧ es[k]? = some x ∧ x.origin = t.origin) := by
  intro i
  -- A cause has a smaller number than what it is the cause of.
  induction i using Nat.strongRecOn with
  | ind i ih =>
    intro e hi
    obtain ⟨hcause, hearlier⟩ := h.cause i e hi
    rw [Failure.is_iff ((h.own t ht).trans hown), h.same e (List.mem_of_getElem? hi) t ht, hcause]
    constructor
    · rintro (ho | ⟨c, hc, his⟩)
      · exact ⟨i, e, .self, hi, ho⟩
      · obtain ⟨j, hj, hmap⟩ := Option.bind_eq_some_iff.1 hc
        obtain ⟨e', hj', rfl⟩ := Option.map_eq_some_iff.1 hmap
        obtain ⟨k, x, hk, hx, ho⟩ := (ih j (hearlier j hj) e' hj').1 his
        exact ⟨k, x, .cause hi hj hk, hx, ho⟩
    · rintro ⟨k, x, hk, hx, ho⟩
      cases hk with
      | self =>
        obtain rfl := Option.some.inj (hi.symm.trans hx)
        exact .inl ho
      | cause hi' hj hk =>
        rename_i j e'
        obtain rfl := Option.some.inj (hi.symm.trans hi')
        have hlt : j < es.length := h.earlier hi j hj
        have hj' : es[j]? = some es[j] := List.getElem?_eq_getElem hlt
        refine .inr ⟨es[j].failure, ?_, ?_⟩
        · rw [causeIn, hj, Option.bind_some, hj', Option.map_some]
          rfl
        · exact (ih j (hearlier j hj) _ hj').2 ⟨k, x, hk, hx, ho⟩

/-- Matching a failure of a kind of ours depends on origins alone: a failure matches it if it, its
cause, the cause of that or so on has the same origin. So context on either side changes nothing, one
with a cause matches by itself or by the cause, and failures without causes match both ways or not at
all. Another cause leaves the context as it is, and more context comes after it. -/
theorem is_iff_origin {i j : Nat} {e t : Entry} (h : Ledger es) (hi : es[i]? = some e)
    (hj : es[j]? = some t) (ht : t.origin.isSome) :
    (e.failure.is t.failure = true ↔
      ∃ (k : Nat) (x : Entry), Unwraps es i k ∧ es[k]? = some x ∧ x.origin = t.origin) ∧
    (∀ more, (e.failure.attach more).is t.failure = e.failure.is t.failure ∧
      e.failure.is (t.failure.attach more) = e.failure.is t.failure) ∧
    (e.origin.isSome →
      (∀ cause, (e.failure.wrap cause).is t.failure = true ↔
        e.origin = t.origin ∨ ∃ c ∈ cause, c.is t.failure = true) ∧
      (e.cause = none → t.cause = none → e.failure.is t.failure = t.failure.is e.failure) ∧
      ∀ cause more, (e.failure.wrap cause).attrs = e.failure.attrs ∧
        (e.failure.attach more).attrs = e.failure.attrs ++ more) := by
  have hs := h.sound
  have he := List.mem_of_getElem? hi
  have ht' := List.mem_of_getElem? hj
  have hown : t.failure.sentinel?.isSome := (hs.own t ht').trans ht
  refine ⟨hs.is_iff ht' ht i e hi, fun more => ⟨attach_is hown _ more, is_attach hown _ more⟩,
    fun ho => ?_⟩
  have hown' : e.failure.sentinel?.isSome := (hs.own e he).trans ho
  have hsame := hs.same e he t ht'
  refine ⟨fun cause => ?_, fun hc hc' => ?_, fun cause more => ?_⟩
  · obtain ⟨hsentinel, hcause, -⟩ := wrap_parts hown' cause
    rw [Failure.is_iff hown, hsentinel, hcause, hsame]
  · have hcause : e.failure.cause? = none := by
      rw [(hs.cause i e hi).1, hc, causeIn, Option.bind_none]
    have hcause' : t.failure.cause? = none := by
      rw [(hs.cause j t hj).1, hc', causeIn, Option.bind_none]
    rw [Bool.eq_iff_iff, Failure.is_iff hown, Failure.is_iff hown', hcause, hcause',
      eq_comm (a := t.failure.sentinel?)]
    simp
  · exact ⟨(wrap_parts hown' cause).2.2, attach_attrs hown' more⟩

/-- A compile error, the same at a line, a runtime error, the same caused by that compile error, and
this one with context. -/
def reported : List Entry :=
  let located := (Failure.of .compile).attach [Log.int "line" 3]
  let caused := (Failure.of .runtime).wrap (some located)
  [⟨.of .compile, some 0, none⟩, ⟨located, some 0, none⟩, ⟨.of .runtime, some 2, none⟩,
    ⟨caused, some 2, some 1⟩, ⟨caused.attach [Log.int "line" 1], some 2, some 1⟩]

theorem reported_ledger : Ledger reported := by
  have h₁ := Ledger.empty.kind .compile (Sentinel.compile.text) fun _ he => absurd he List.not_mem_nil
  have h₂ := h₁.attach (i := 0) [Log.int "line" 3] rfl rfl
  have h₃ := h₂.kind .runtime (Sentinel.runtime.text) (by simp [Unused, attach, sentinel?])
  have h₄ := h₃.wrap (i := 2) (some 1) rfl rfl (by simp)
  exact h₄.attach (i := 3) [Log.int "line" 1] rfl rfl

theorem is_iff_origin_reported : ∃ e t : Entry, Ledger reported ∧ reported[4]? = some e ∧
    reported[0]? = some t ∧ t.origin.isSome ∧ e.failure.is t.failure = true :=
  ⟨_, _, reported_ledger, rfl, rfl, rfl, (is_iff_origin reported_ledger (i := 4) (j := 0) rfl rfl
    rfl).1.2 ⟨1, _, .cause rfl rfl .self, rfl, rfl⟩⟩

end Failure

end LoxLang
