import LoxLang.Proofs.Machine.Chain
import LoxLang.Proofs.Prompt.Names
import LoxLang.Proofs.Source.Along
import LoxLang.Proofs.Source.Globals
import Mathlib.Data.List.Induction

namespace LoxLang
set_option autoImplicit true

namespace Text

theorem before_trans {s t u : Text} (h : before s t = true) (h' : before t u = true) :
    before s u = true := by
  induction s generalizing t u with
  | nil => rw [before]
  | cons a s ih =>
    cases t with
    | nil => cases h
    | cons b t =>
      cases u with
      | nil => cases h'
      | cons c u =>
        rw [before] at h h' ⊢
        by_cases hab : a = b
        · subst hab
          rw [if_pos (beq_self_eq_true a)] at h
          by_cases hac : a = c
          · subst hac
            rw [if_pos (beq_self_eq_true a)] at h' ⊢
            exact ih h h'
          · rw [if_neg (mt eq_of_beq hac)] at h' ⊢
            exact h'
        · rw [if_neg (mt eq_of_beq hab)] at h
          by_cases hbc : b = c
          · subst hbc
            rw [if_neg (mt eq_of_beq hab)]
            exact h
          · rw [if_neg (mt eq_of_beq hbc)] at h'
            have hac : a < c := UInt8.lt_trans (of_decide_eq_true h) (of_decide_eq_true h')
            rw [if_neg (mt eq_of_beq (UInt8.ne_of_lt hac))]
            exact decide_eq_true hac

theorem before_total (s t : Text) : before s t = true ∨ before t s = true := by
  induction s generalizing t with
  | nil => exact .inl (by rw [before])
  | cons a s ih =>
    cases t with
    | nil => exact .inr (by rw [before])
    | cons b t =>
      rw [before, before]
      by_cases hab : a = b
      · subst hab
        rw [if_pos (beq_self_eq_true a), if_pos (beq_self_eq_true a)]
        exact ih t
      · rw [if_neg (mt eq_of_beq hab), if_neg (mt eq_of_beq (Ne.symm hab))]
        exact (UInt8.lt_or_lt_of_ne hab).imp decide_eq_true decide_eq_true

theorem sort_pairwise (ts : List Text) : (sort ts).Pairwise fun s t => before s t = true := by
  apply List.pairwise_mergeSort
  · exact fun s t u => before_trans
  · intro s t
    rw [Bool.or_eq_true]
    exact before_total s t

theorem nodup_sort {ts : List Text} : (sort ts).Nodup ↔ ts.Nodup :=
  (List.mergeSort_perm ts before).nodup_iff

end Text

theorem nodup_eraseDups [BEq α] [LawfulBEq α] (l : List α) : l.eraseDups.Nodup := by
  induction l using List.reverseRecOn with
  | nil => exact List.nodup_nil
  | append_singleton l a ih =>
    rw [List.eraseDups_append]
    by_cases ha : a ∈ l
    · have hnone : [a].removeAll l = [] := by simp [List.removeAll, ha]
      rw [hnone, List.eraseDups_nil, List.append_nil]
      exact ih
    · have hone : [a].removeAll l = [a] := by simp [List.removeAll, ha]
      rw [hone, List.eraseDups_cons, List.filter_nil, List.eraseDups_nil, List.nodup_append]
      refine ⟨ih, List.nodup_singleton a, fun x hx y hy => ?_⟩
      rw [List.mem_singleton.1 hy]
      rintro rfl
      exact ha (List.mem_eraseDups.1 hx)

theorem Dict.nodup_set {d : Dict α} (h : (d.map Prod.fst).Nodup) (x : Text) (v : α) :
    ((d.set x v).map Prod.fst).Nodup := by
  induction d with
  | nil => exact List.nodup_singleton x
  | cons e d ih =>
    obtain ⟨y, w⟩ := e
    obtain ⟨hy, hd⟩ := List.nodup_cons.1 h
    rw [Dict.set]
    split
    · exact h
    · rename_i hne
      refine List.nodup_cons.2 ⟨fun hm => ?_, ih hd⟩
      obtain ⟨e, he, hname⟩ := List.mem_map.1 hm
      rcases Dict.mem_set he with rfl | he
      · exact hne hname.symm
      · exact hy (List.mem_map.2 ⟨e, he, hname⟩)

def Store.Distinct (s : Store) : Prop := ∀ id, ((s.fields id).map Prod.fst).Nodup

theorem Store.Update.distinct {s s' : Store} (h : s.Update s') (hs : s.Distinct) :
    s'.Distinct := by
  intro id
  cases h with
  | newFrame | define | newSerial => exact hs id
  | newObject =>
    rw [Store.fields_newObject]
    exact hs id
  | setField id' x v =>
    rcases Store.fields_setField s id' x v id with hf | hf
    · rw [hf]
      exact hs id
    · rw [hf]
      exact Dict.nodup_set (hs id) x v

namespace Class

/-- The class itself and its superclass, the superclass of that and so on. -/
inductive Inherits : Class → Class → Prop where
  | self : Inherits c c
  | up : c.superclass = some d → Inherits d e → Inherits c e

/-- A walk along the superclasses that looks at the own methods of each for this name. -/
def Walks (x : Text) (P : Class → Prop) : Prop :=
  ∀ c : Class, P c ↔ c.methods.has x = true ∨ ∃ parent, c.superclass = some parent ∧ P parent

theorem Walks.iff {P Q : Class → Prop} (hP : Walks x P) (hQ : Walks x Q) : ∀ c, P c ↔ Q c
  | mk n y none methods => by
    rw [hP, hQ]
    simp [superclass]
  | mk n y (some parent) methods => by
    have ih := hP.iff hQ parent
    rw [hP, hQ]
    simp [superclass, ih]

theorem walks_findMethod (x : Text) : Walks x fun c => (c.findMethod x).isSome = true := by
  rintro ⟨n, y, parent, methods⟩
  beta_reduce
  rw [findMethod.eq_def, Class.methods, Dict.has]
  cases hget : methods.get? x with
  | some f => simp [hget]
  | none =>
    cases parent with
    | some c => simp [hget, superclass]
    | none => simp [hget, superclass]

theorem walks_allMethods (x : Text) : Walks x fun c => x ∈ c.allMethods := by
  rintro ⟨n, y, parent, methods⟩
  have hown : x ∈ methods.map Prod.fst ↔ methods.has x = true := by
    rw [← Dict.mem_names, Dict.names, Text.sort, List.mem_mergeSort]
  beta_reduce
  rw [allMethods.eq_def, List.mem_append, hown, Class.methods]
  cases parent with
  | some c => simp [superclass]
  | none => simp [superclass]

theorem walks_inherits (x : Text) :
    Walks x fun c => ∃ d, c.Inherits d ∧ d.methods.has x = true := by
  intro c
  constructor
  · rintro ⟨d, hd, hx⟩
    cases hd with
    | self => exact .inl hx
    | up hc hd => exact .inr ⟨_, hc, _, hd, hx⟩
  · rintro (hx | ⟨parent, hc, d, hd, hx⟩)
    · exact ⟨c, .self, hx⟩
    · exact ⟨d, .up hc hd, hx⟩

theorem findMethod_isSome_iff (c : Class) (x : Text) :
    (c.findMethod x).isSome = true ↔ ∃ d, c.Inherits d ∧ d.methods.has x = true :=
  (walks_findMethod x).iff (walks_inherits x) c

theorem mem_methodNames_iff (c : Class) (x : Text) :
    x ∈ c.methodNames ↔ (c.findMethod x).isSome = true := by
  rw [methodNames, Text.sort, List.mem_mergeSort, List.mem_eraseDups]
  exact (walks_allMethods x).iff (walks_findMethod x) c

theorem nodup_methodNames (c : Class) : c.methodNames.Nodup :=
  Text.nodup_sort.2 (nodup_eraseDups _)

end Class

theorem Machine.property_ok_iff (id : Nat) (c : Class) (p : Token) (m : Machine) :
    (∃ v m', property id c p m = .ok v m') ↔
      (m.store.fields id).has p.lexeme = true ∨ (c.findMethod p.lexeme).isSome = true := by
  have hread (F : Machine → Eval Value) : (MonadState.get >>= F) m = F m m := rfl
  unfold property
  rw [hread, Dict.has]
  cases (m.store.fields id).get? p.lexeme with
  | some v => exact iff_of_true ⟨v, m, rfl⟩ (.inl rfl)
  | none =>
    cases c.findMethod p.lexeme with
    | some f => exact iff_of_true ⟨_, _, rfl⟩ (.inr rfl)
    | none =>
      refine iff_of_false ?_ (by simp)
      rintro ⟨v, m', h⟩
      cases h

def Value.object? : Value → Option (Nat × Class)
  | object id c => some (id, c)
  | _ => none

theorem Value.object?_eq_some {v : Value} {id : Nat} :
    v.object? = some (id, c) ↔ v = object id c := by
  cases v with
  | object id' c' => simp [object?]
  | _ => simp [object?]

theorem Machine.new_kept {I : Store → Prop} (h : ∀ {s s' : Store}, s.Update s' → I s → I s')
    (hempty : I .empty) (natives : List Native) : I (Machine.new natives).store := by
  have hfold {entries : List (Native × Nat)} {s : Store} (hs : I s) : I (entries.foldl
      (fun s e => s.define globals e.1.name (.native e.2)) s) := by
    induction entries generalizing s with
    | nil => exact hs
    | cons e entries ih => exact ih (h (.define globals e.1.name (.native e.2)) hs)
  exact hfold (h (.newFrame none) hempty)

namespace Session

theorem Reached.kept {I : Store → Prop} (h : ∀ {s s' : Store}, s.Update s' → I s → I s')
    (hempty : I .empty) (hs : Reached s) : I s.machine.store := by
  induction hs with
  | new => exact Machine.new_kept h hempty _
  | define environment defines _ ih =>
    exact (Machine.kept_of_update h ⟨[], 0, .never⟩ 0).upheld.defineAll environment defines.sorted ih
  | run o _ t _ ih => exact Source.run_upheld (Machine.kept_of_update h o.host o.steps).upheld t ih

theorem Reached.distinct (h : Reached s) : s.machine.store.Distinct :=
  h.kept Store.Update.distinct fun id => by
    rw [Store.fields_empty]
    exact List.nodup_nil

/-- What is offered for a global variable in a session is each once what can be taken from its
value: the properties of an object, which are its fields and the methods of its class and of all
ancestors, and the methods that are found in a class, in order. -/
theorem members_exact (h : Reached s) (x : Text) :
    (∀ id c, s.lookup? x = some (.object id c) →
      (s.members x).Nodup ∧ ∀ p : Token,
        (p.lexeme ∈ s.members x ↔ ∃ v m, Machine.property id c p s.machine = .ok v m) ∧
        (p.lexeme ∈ s.members x ↔ (s.machine.store.fields id).has p.lexeme = true ∨
          ∃ d, c.Inherits d ∧ d.methods.has p.lexeme = true)) ∧
      ∀ c, s.lookup? x = some (.klass c) →
        (s.members x).Nodup ∧ (s.members x).Pairwise (fun p q => Text.before p q = true) ∧
          ∀ p, p ∈ s.members x ↔ (c.findMethod p).isSome = true := by
  constructor
  · intro id c hx
    have hmembers : s.members x = (s.machine.store.fields id).names ++
        c.methodNames.filter (!(s.machine.store.fields id).names.contains ·) := by
      rw [Session.members, hx]
    have hmem (p : Text) : p ∈ s.members x ↔ (s.machine.store.fields id).has p = true ∨
        (c.findMethod p).isSome = true := by
      rw [hmembers, List.mem_append, List.mem_filter, Dict.mem_names, Class.mem_methodNames_iff,
        Bool.not_eq_true', List.contains_eq_mem, decide_eq_false_iff_not, Dict.mem_names]
      exact ⟨Or.imp_right And.left, fun hp => or_iff_not_imp_left.2 fun hno =>
        ⟨hp.resolve_left hno, hno⟩⟩
    refine ⟨?_, fun p => ⟨?_, ?_⟩⟩
    · rw [hmembers, List.nodup_append]
      refine ⟨Text.nodup_sort.2 (h.distinct id), c.nodup_methodNames.filter _, ?_⟩
      rintro p hp _ hq rfl
      have hnew := (List.mem_filter.1 hq).2
      rw [List.contains_eq_mem, decide_eq_true hp] at hnew
      cases hnew
    · rw [hmem, Machine.property_ok_iff]
    · rw [hmem, Class.findMethod_isSome_iff]
  · intro c hx
    have hmembers : s.members x = c.methodNames := by rw [Session.members, hx]
    rw [hmembers]
    exact ⟨c.nodup_methodNames, Text.sort_pairwise _, c.mem_methodNames_iff⟩

/-- A class with an inherited and an overridden method, and an object of it with two fields, of
which one hides a method. -/
def heirs : Session := (drain (Source.run ⟨⟨Native.standard, 0, .never⟩, false, [], fun _ => [], 30⟩
  ("class A \x7b m() \x7b\x7d n() \x7b\x7d \x7d class B < A \x7b n() \x7b\x7d \x7d " ++
    "var o = B(); o.f = B; o.n = A;") Session.new.machine)).2

theorem members_exact_heirs : Reached heirs ∧
    ∃ id c, heirs.lookup? "o" = some (.object id c) ∧ (heirs.members "o").Nodup ∧
      Text.ofString "f" ∈ heirs.members "o" ∧ Text.ofString "m" ∈ heirs.members "o" ∧
        Text.ofString "x" ∉ heirs.members "o" := by
  have h : Reached heirs := .run _ rfl _ .new
  have hcheck : ((heirs.lookup? "o").bind Value.object?).any (fun o =>
      (heirs.machine.store.fields o.1).has "f" && (o.2.findMethod "m").isSome &&
        !((heirs.machine.store.fields o.1).has "x" || (o.2.findMethod "x").isSome)) = true := by
    decide +kernel
  obtain ⟨⟨id, c⟩, ho, hknown⟩ := (Option.any_eq_true _ _).1 hcheck
  obtain ⟨v, hx, hv⟩ := Option.bind_eq_some_iff.1 ho
  obtain rfl := Value.object?_eq_some.1 hv
  rw [Bool.and_eq_true, Bool.and_eq_true, Bool.not_eq_true', Bool.or_eq_false_iff] at hknown
  obtain ⟨⟨hf, hm⟩, hno, hnone⟩ := hknown
  obtain ⟨hnodup, hmem⟩ := (members_exact h "o").1 id c hx
  refine ⟨h, id, c, hx, hnodup, ?_, ?_, fun hx => ?_⟩
  · exact (hmem ⟨.identifier, "f", none, 1⟩).2.2 (.inl hf)
  · exact (hmem ⟨.identifier, "m", none, 1⟩).2.2 (.inr ((c.findMethod_isSome_iff "m").1 hm))
  · rcases (hmem ⟨.identifier, "x", none, 1⟩).2.1 hx with hx | hx
    · exact Bool.eq_false_iff.1 hno hx
    · exact Bool.eq_false_iff.1 hnone ((c.findMethod_isSome_iff "x").2 hx)

end Session

end LoxLang
