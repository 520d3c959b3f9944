import LoxLang.Proofs.Machine.Journal

namespace LoxLang
set_option autoImplicit true

structure Event.Inside (k : Nat) (us : List Event) : Prop where
  stays : ∀ e ∈ us, e.over? ≠ some k
  whole : ∀ j g, .enters j g ∈ us → ∃ e ∈ us, e.over? = some j

/-- A value that is returned between these events is consumed by the innermost call around it: the
call ends with it, and nothing of that call comes after. An initializer returns `nil`. -/
inductive Event.Consumed : List Event → Option Nat → Value → List Event → Prop where
  | intro : Event.Inside k us → (f.isInitializer = true → v = .nil) →
      (∀ e ∈ later, e.call? ≠ some k) →
      Event.Consumed (earlier ++ .enters k f :: us) (some k) v (.leaves k (.returned v) :: later)

/-- What is noted after so many events keeps returns inside calls. -/
structure Event.Contained (start : Nat) (es : List Event) : Prop where
  numbered : ∀ {before k f after}, es = before ++ .enters k f :: after → k = start + before.length
  /-- No statement of the program itself ends with a value. -/
  ends : ∀ {done}, .ends done ∈ es → done = .normal
  raises : ∀ {before call v after}, es = before ++ .raises call v :: after →
    Event.Consumed before call v after

def Completion.value? : Completion → Option Value
  | .normal => none
  | .returned v => some v

namespace Event

theorem split_append {us ts : List Event} (h : us ++ ts = before ++ e :: after) :
    (∃ rest, us = before ++ e :: rest ∧ after = rest ++ ts) ∨
      ∃ rest, before = us ++ rest ∧ ts = rest ++ e :: after := by
  rcases List.append_eq_append_iff.1 h with ⟨rest, hbefore, hts⟩ | ⟨rest, hus, hrest⟩
  · exact .inr ⟨rest, hbefore, hts⟩
  · cases rest with
    | nil => exact .inr ⟨[], by simpa using hus.symm, hrest.symm⟩
    | cons e' rest =>
      obtain ⟨rfl, rfl⟩ := List.cons.inj hrest
      exact .inl ⟨rest, hus, rfl⟩

theorem Consumed.prepend (h : Consumed before call v after) (us : List Event) :
    Consumed (us ++ before) call v after := by
  cases h with
  | intro hinside hnil hlater =>
    rw [← List.append_assoc]
    exact .intro hinside hnil hlater

theorem Consumed.append (h : Consumed before call v after)
    (hts : ∀ e ∈ ts, e.call? ≠ call) : Consumed before call v (after ++ ts) := by
  cases h with
  | intro hinside hnil hlater =>
    apply Consumed.intro hinside hnil
    intro e he
    rcases List.mem_append.1 he with he | he
    · exact hlater e he
    · exact hts e he

theorem Contained.nil : Contained start [] where
  numbered h := by simp at h
  ends h := absurd h List.not_mem_nil
  raises h := by simp at h

theorem Contained.single (henters : ∀ k f, e = .enters k f → k = start)
    (hraises : ∀ call v, e ≠ .raises call v) (hends : ∀ done, e = .ends done → done = .normal) :
    Contained start [e] := by
  have hsplit {before e' after} (h : [e] = before ++ e' :: after) : before = [] ∧ e = e' := by
    cases before with
    | nil => exact ⟨rfl, (List.cons.inj h).1⟩
    | cons e₀ before => simp at h
  constructor
  · intro before k f after h
    obtain ⟨rfl, he⟩ := hsplit h
    exact henters k f he
  · intro done h
    exact hends done (List.mem_singleton.1 h).symm
  · intro before call v after h
    exact absurd (hsplit h).2 (hraises call v)

/-- Two parts of a journal, the second with nothing of the calls that return in the first. -/
theorem Contained.append (hus : Contained start us) (hts : Contained (start + us.length) ts)
    (hapart : ∀ call v, .raises call v ∈ us → ∀ e ∈ ts, e.call? ≠ call) :
    Contained start (us ++ ts) := by
  constructor
  · intro before k f after h
    rcases split_append h with ⟨rest, hus', -⟩ | ⟨rest, rfl, hts'⟩
    · exact hus.numbered hus'
    · rw [hts.numbered hts', List.length_append, Nat.add_assoc]
  · intro done h
    rcases List.mem_append.1 h with h | h
    · exact hus.ends h
    · exact hts.ends h
  · intro before call v after h
    rcases split_append h with ⟨rest, hus', rfl⟩ | ⟨rest, rfl, hts'⟩
    · apply (hus.raises hus').append
      apply hapart call v
      rw [hus']
      exact List.mem_append_right _ List.mem_cons_self
    · exact (hts.raises hts').prepend us

inductive Closing (k : Nat) (f : Closure) : List Event → Prop where
  | finished : Closing k f [.leaves k .normal]
  | returned : (f.isInitializer = true → v = .nil) →
      Closing k f [.raises (some k) v, .leaves k (.returned v)]
  | broken : Closing k f [.breaks k]

/-- What is noted in a call, after so many events, while nothing is returned in it. -/
inductive Calm : Option Nat → Nat → List Event → Prop where
  | nil : Calm here start []
  | append : Calm here start us → Calm here (start + us.length) ts → Calm here start (us ++ ts)
  | begins : Calm here start [.begins here s]
  | ended : Calm none start [.ends .normal]
  | call : Calm (some start) (start + 1) us → Closing start f ts →
      Calm here start (.enters start f :: (us ++ ts))

inductive Trail (here : Option Nat) (start : Nat) : List Event → Option Value → Prop where
  | calm : Calm here start us → Trail here start us none
  | raised : Calm here start us → Trail here start (us ++ [.raises here v]) (some v)

theorem Calm.trail (h : Calm here start us) (ht : Trail here (start + us.length) ts v?) :
    Trail here start (us ++ ts) v? := by
  cases ht with
  | calm ht => exact .calm (h.append ht)
  | raised ht =>
    rw [← List.append_assoc]
    exact .raised (h.append ht)

theorem Trail.of_none (h : Trail here start us none) : Calm here start us := by
  cases h with
  | calm h => exact h

theorem Trail.calling {done : Completion} (h : Trail (some start) (start + 1) us done.value?)
    (hnil : f.isInitializer = true → ∀ v ∈ done.value?, v = .nil) :
    Calm here start (.enters start f :: (us ++ [.leaves start done])) := by
  cases done with
  | normal => exact .call h.of_none .finished
  | returned v =>
    cases h with
    | raised h =>
      rw [List.append_assoc]
      exact .call h (.returned fun hf => hnil hf v rfl)

theorem Closing.call? (h : Closing k f ts) : ∀ e ∈ ts, e.call? = some k := by
  cases h with
  | finished => simp [Event.call?]
  | returned => simp [Event.call?]
  | broken => simp [Event.call?]

theorem Closing.over (h : Closing k f ts) : ∃ e ∈ ts, e.over? = some k := by
  cases h with
  | finished => exact ⟨_, List.mem_cons_self, rfl⟩
  | returned => exact ⟨_, List.mem_cons_of_mem _ List.mem_cons_self, rfl⟩
  | broken => exact ⟨_, List.mem_cons_self, rfl⟩

theorem Closing.not_enters (h : Closing k f ts) : .enters j g ∉ ts := by
  cases h with
  | finished => simp
  | returned => simp
  | broken => simp

/-- An event belongs to this call or to one that began after so many events. -/
def Within (here : Option Nat) (start : Nat) (e : Event) : Prop :=
  e.call? = here ∨ ∃ k, e.call? = some k ∧ start ≤ k

theorem Within.mono (h : Within here start e) (hle : start' ≤ start) : Within here start' e := by
  rcases h with h | ⟨k, hk, hle'⟩
  · exact .inl h
  · exact .inr ⟨k, hk, Nat.le_trans hle hle'⟩

theorem Within.outer (h : Within (some start) (start + 1) e) : Within here start e := by
  rcases h with h | ⟨k, hk, hle⟩
  · exact .inr ⟨start, h, Nat.le_refl _⟩
  · exact .inr ⟨k, hk, Nat.le_of_succ_le hle⟩

theorem Calm.within (h : Calm here start us) : ∀ e ∈ us, Within here start e := by
  induction h with
  | nil =>
    intro e he
    exact absurd he List.not_mem_nil
  | append _ _ ihu iht =>
    intro e he
    rcases List.mem_append.1 he with he | he
    · exact ihu e he
    · exact (iht e he).mono (Nat.le_add_right _ _)
  | begins =>
    intro e he
    rw [List.mem_singleton.1 he]
    exact .inl rfl
  | ended =>
    intro e he
    rw [List.mem_singleton.1 he]
    exact .inl rfl
  | call _ hclosing ih =>
    intro e he
    rcases List.mem_cons.1 he with rfl | he
    · exact .inr ⟨_, rfl, Nat.le_refl _⟩
    · rcases List.mem_append.1 he with he | he
      · exact (ih e he).outer
      · exact .inr ⟨_, hclosing.call? e he, Nat.le_refl _⟩

theorem call?_of_over? {e : Event} (h : e.over? = some k) : e.call? = some k := by
  cases e with
  | leaves | breaks => exact h
  | enters | begins | raises | ends => cases h

theorem Calm.le_of_over (h : Calm here start us) (hm : e ∈ us) (hk : e.over? = some k) :
    start ≤ k := by
  induction h with
  | nil => exact absurd hm List.not_mem_nil
  | append _ _ ihu iht =>
    rcases List.mem_append.1 hm with hm | hm
    · exact ihu hm
    · exact Nat.le_trans (Nat.le_add_right _ _) (iht hm)
  | begins | ended =>
    rw [List.mem_singleton.1 hm] at hk
    cases hk
  | call _ hclosing ih =>
    rcases List.mem_cons.1 hm with rfl | hm
    · cases hk
    · rcases List.mem_append.1 hm with hm | hm
      · exact Nat.le_of_succ_le (ih hm)
      · cases (hclosing.call? _ hm).symm.trans (call?_of_over? hk)
        exact Nat.le_refl _

theorem Calm.whole (h : Calm here start us) (hm : .enters k f ∈ us) :
    ∃ e ∈ us, e.over? = some k := by
  induction h with
  | nil => exact absurd hm List.not_mem_nil
  | append _ _ ihu iht =>
    rcases List.mem_append.1 hm with hm | hm
    · exact (ihu hm).imp fun _ => And.imp_left (List.mem_append_left _)
    · exact (iht hm).imp fun _ => And.imp_left (List.mem_append_right _)
  | begins | ended => cases List.mem_singleton.1 hm
  | call _ hclosing ih =>
    rcases List.mem_cons.1 hm with hm | hm
    · cases hm
      obtain ⟨e, he, hover⟩ := hclosing.over
      exact ⟨e, List.mem_cons_of_mem _ (List.mem_append_right _ he), hover⟩
    · rcases List.mem_append.1 hm with hm | hm
      · obtain ⟨e, he, hover⟩ := ih hm
        exact ⟨e, List.mem_cons_of_mem _ (List.mem_append_left _ he), hover⟩
      · exact absurd hm hclosing.not_enters

theorem Calm.inside (h : Calm (some k) (k + 1) us) : Inside k us where
  stays _ hm hover := Nat.not_succ_le_self k (h.le_of_over hm hover)
  whole _ _ hm := h.whole hm

theorem Contained.raised (h : Contained start us) (hm : .raises call v ∈ us) :
    ∃ k, call = some k ∧ start ≤ k ∧ k < start + us.length := by
  obtain ⟨before, after, rfl⟩ := List.append_of_mem hm
  have hconsumed := h.raises rfl
  cases hconsumed with
  | @intro k us f v later earlier =>
    have hk := h.numbered (List.append_assoc _ _ _)
    exact ⟨k, rfl, by omega, by simp; omega⟩

/-- Two parts of a journal, the second of the call around both and of later ones. -/
theorem Contained.follow (hus : Contained start us) (hts : Contained (start + us.length) ts)
    (hhere : ∀ k ∈ here, k < start) (hw : ∀ e ∈ ts, Within here (start + us.length) e) :
    Contained start (us ++ ts) := by
  apply hus.append hts
  intro call v hm e he hcall
  obtain ⟨k, rfl, hle, hlt⟩ := hus.raised hm
  rcases hw e he with h | ⟨j, h, hj⟩
  · exact absurd hle (Nat.not_le.2 (hhere k (h.symm.trans hcall)))
  · cases h.symm.trans hcall
    exact absurd hlt (Nat.not_lt.2 hj)

theorem Contained.enter : Contained start [.enters start f] :=
  .single (fun _ _ h => by cases h; rfl) (fun _ _ => nofun) fun _ => nofun

theorem Contained.entered (h : Contained (start + 1) us) :
    Contained start (.enters start f :: us) := by
  have hall : Contained start ([.enters start f] ++ us) := by
    apply Contained.enter.append h
    intro call v hm
    cases List.mem_singleton.1 hm
  exact hall

theorem lt_next : ∀ k ∈ some start, k < start + 1 := by
  intro k hk
  cases hk
  exact Nat.lt_succ_self _

theorem Contained.closed (hus : Contained (start + 1) us) (he : e.over? = some start) :
    Contained start (.enters start f :: (us ++ [e])) := by
  apply Contained.entered
  have hclosing : Contained (start + 1 + us.length) [e] := by
    apply Contained.single
    · rintro k g rfl
      cases he
    · rintro call v rfl
      cases he
    · rintro done rfl
      cases he
  apply hus.follow hclosing lt_next
  intro e' he'
  rw [List.mem_singleton.1 he']
  exact .inl (call?_of_over? he)

theorem raises_tail {before : List Event}
    (h : [.raises call v, .leaves k done] = before ++ .raises call' u :: after) :
    before = [] ∧ call' = call ∧ u = v ∧ after = [.leaves k done] := by
  cases before with
  | nil =>
    cases h
    exact ⟨rfl, rfl, rfl, rfl⟩
  | cons e before =>
    obtain ⟨-, h⟩ := List.cons.inj h
    have hm : Event.raises call' u ∈ [Event.leaves k done] := by
      rw [h]
      exact List.mem_append_right _ List.mem_cons_self
    cases List.mem_singleton.1 hm

theorem Contained.returned (hus : Contained (start + 1) us) (hinside : Inside start us)
    (hnil : f.isInitializer = true → v = .nil) : Contained start
      (.enters start f :: (us ++ [.raises (some start) v, .leaves start (.returned v)])) := by
  have hentered : Contained start (.enters start f :: us) := hus.entered
  have hclosing : Closing start f [.raises (some start) v, .leaves start (.returned v)] :=
    .returned hnil
  rw [← List.cons_append]
  constructor
  · intro before k g after heq
    rcases split_append heq with ⟨rest, hbefore, -⟩ | ⟨rest, -, htail⟩
    · exact hentered.numbered hbefore
    · apply absurd _ (hclosing.not_enters (j := k) (g := g))
      rw [htail]
      exact List.mem_append_right _ List.mem_cons_self
  · intro done hm
    rcases List.mem_append.1 hm with hm | hm
    · exact hentered.ends hm
    · simp at hm
  · intro before call u after heq
    rcases split_append heq with ⟨rest, hbefore, rfl⟩ | ⟨rest, rfl, htail⟩
    · apply (hentered.raises hbefore).append
      have hm : .raises call u ∈ us := by
        have hall : .raises call u ∈ .enters start f :: us := by
          rw [hbefore]
          exact List.mem_append_right _ List.mem_cons_self
        exact (List.mem_cons.1 hall).resolve_left nofun
      obtain ⟨k, rfl, hle, -⟩ := hus.raised hm
      intro e he hcall
      cases (hclosing.call? e he).symm.trans hcall
      exact Nat.not_succ_le_self _ hle
    · obtain ⟨rfl, rfl, rfl, rfl⟩ := raises_tail htail
      rw [List.append_nil]
      have hlast : Consumed ([] ++ .enters start f :: us) (some start) u
          [.leaves start (.returned u)] := .intro hinside hnil fun _ => nofun
      exact hlast

/-- What is noted of a run keeps returns inside calls, by induction on how it is made up. -/
theorem Calm.contained (h : Calm here start us) (hhere : ∀ k ∈ here, k < start) :
    Contained start us := by
  induction h with
  | nil => exact .nil
  | append _ ht ihu iht =>
    apply (ihu hhere).follow (iht _) hhere ht.within
    intro k hk
    exact Nat.lt_of_lt_of_le (hhere k hk) (Nat.le_add_right _ _)
  | begins => exact .single (fun _ _ => nofun) (fun _ _ => nofun) fun _ => nofun
  | ended => exact .single (fun _ _ => nofun) (fun _ _ => nofun) fun _ h => by cases h; rfl
  | @call start us f ts _ h hclosing ih =>
    have hus : Contained (start + 1) us := ih lt_next
    cases hclosing with
    | finished | broken => exact hus.closed rfl
    | returned hnil => exact hus.returned h.inside hnil

end Event

end LoxLang
