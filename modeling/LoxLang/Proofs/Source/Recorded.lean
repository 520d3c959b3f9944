import Mathlib.Data.List.Induction
import Mathlib.Data.List.Pairwise
import Mathlib.Data.List.Perm.Basic
import LoxLang.Proofs.Parser.Single
import LoxLang.Proofs.Resolver.Records
import LoxLang.Source

namespace LoxLang

namespace Resolver
set_option autoImplicit true

/-- At the end of a program the resolver is where it started, but for the faults it has found and the
distances it has recorded. -/
theorem stmts_upon {ss : List (Stmt Mark)} (h : Adds (stmts ss) initial ds bs) :
    (stmts ss initial).2 = initial.upon ds bs := by
  have hleft := stmts_leaves ss initial
  have hadded : (stmts ss initial).2 = (stmts ss initial).2.upon ds bs :=
    congrArg Prod.snd (h [] [])
  rw [hadded]
  generalize (stmts ss initial).2 = r at hleft ⊢
  obtain ⟨scopes, body, home, ds₀, bs₀⟩ := r
  obtain ⟨hscopes, hbody, hhome⟩ := hleft
  cases hscopes
  cases hbody
  cases hhome
  rfl

theorem stmts_again (ss : List (Stmt Mark)) :
    (stmts ss (stmts ss initial).2).1 = (stmts ss initial).1 ∧
      (stmts ss (stmts ss initial).2).2.bindings =
        (stmts ss initial).2.bindings ++ (stmts ss initial).2.bindings := by
  obtain ⟨ds, bs, hadds, -, -⟩ := stmts_records ss initial
  rw [stmts_upon hadds, hadds]
  exact ⟨rfl, rfl⟩

theorem Binding.mark?_isSome {b : Binding} (h : b.reference?.isSome) : b.node.mark?.isSome := by
  obtain ⟨node, n⟩ := b
  cases node with
  | var | assign | this | super => rfl
  | _ => cases h

end Resolver

namespace Made
set_option autoImplicit true

theorem exists_places {ns : List (Expr Mark)} {xs : List Spot}
    (h : ns.Subperm (xs.map Prod.fst)) :
    ∃ ps : List Spot, ps.Subperm xs ∧ ps.map Prod.fst = ns := by
  obtain ⟨l, hperm, hsub⟩ := h
  obtain ⟨l', hsub', rfl⟩ := List.sublist_map_iff.1 hsub
  have hcomp : Relation.Comp (fun x y => x = List.map Prod.fst y) List.Perm ns l' := by
    rw [List.eq_map_comp_perm]
    exact hperm.symm
  obtain ⟨ps, rfl, hps⟩ := hcomp
  exact ⟨ps, ⟨l', hps.symm, hsub'⟩, rfl⟩

theorem place_unique {xs : List Spot} (h : (Maker.marks xs).Nodup) {x y : Spot} (hx : x ∈ xs)
    (hy : y ∈ xs) (hxy : x.1 = y.1) (hm : x.1.mark?.isSome) : x = y := by
  obtain ⟨k, hk⟩ := Option.isSome_iff_exists.1 hm
  by_contra hne
  let Apart (x y : Spot) : Prop := ∀ i, x.1.mark? = some i → ∀ j, y.1.mark? = some j → i ≠ j
  have hpairwise : xs.Pairwise Apart := List.pairwise_filterMap.1 h
  have : Std.Symm Apart := ⟨fun _ _ h j hj i hi => (h i hi j hj).symm⟩
  exact hpairwise.forall hx hy hne k hk k (hxy ▸ hk) rfl

end Made

namespace Source
set_option autoImplicit true

theorem program_marks (text : Text) :
    ((Stmt.nodesAll (ofText text).program).filterMap Expr.mark?).Nodup := by
  obtain ⟨-, hnodes, -, hmarks⟩ := Made.ofTokens_fits (ofText text).tokens
  have hlisted : (Made.ofTokens (ofText text).tokens).places.map Prod.fst =
      Stmt.nodesAll (ofText text).program := hnodes
  rw [← hlisted, List.filterMap_map]
  exact hmarks

/-- No node of a program has two places: each was made at an address of its own. Resolving records
distances of references only, each at most once, so they are of as many nodes as there are distances.
Resolving the same program again records the same distance of each. -/
theorem recorded_once (text : Text) :
    let s := ofText text
    let made := Made.ofTokens s.tokens
    let first := Resolver.stmts s.program Resolver.initial
    let again := Resolver.stmts s.program first.2
    made.tree = s.program ∧ made.places.map Prod.fst = Stmt.nodesAll s.program ∧
      (made.places.map Prod.snd).Nodup ∧
      (∀ b ∈ first.2.bindings, b.reference?.isSome ∧ ∃! a, (b.node, a) ∈ made.places) ∧
      (∃ called : List Spot, called.map Prod.fst = first.2.bindings.map Resolver.Binding.node ∧
        (∀ p ∈ called, p ∈ made.places) ∧ (called.map Prod.snd).Nodup) ∧
      again.1 = first.1 ∧ again.2.bindings = first.2.bindings ++ first.2.bindings ∧
      ∀ b ∈ first.2.bindings, ∀ b' ∈ again.2.bindings, b'.node = b.node →
        b'.distance = b.distance := by
  intro s made first again
  obtain ⟨htree, hnodes, haddresses, hmarks⟩ := Made.ofTokens_fits s.tokens
  obtain ⟨ds, bs, hadds, hsub, hrefs, -⟩ := Resolver.stmts_records s.program Resolver.initial
  obtain ⟨hsame, hagain⟩ := Resolver.stmts_again s.program
  have hfirst : first.2.bindings = bs := hadds.bindings
  rw [← hfirst] at hsub hrefs
  have hmarked : ∀ b ∈ first.2.bindings, b.node.mark?.isSome :=
    fun b hb => Resolver.Binding.mark?_isSome (hrefs b hb)
  obtain ⟨called, hcalled, hmap⟩ := Made.exists_places (hnodes ▸ hsub)
  refine ⟨htree, hnodes, haddresses, ?_, ⟨called, hmap, hcalled.subset, ?_⟩, hsame, hagain, ?_⟩
  · intro b hb
    have hmem : b.node ∈ made.places.map Prod.fst :=
      hnodes ▸ hsub.subset (List.mem_map_of_mem hb)
    obtain ⟨⟨node, a⟩, hp, hnode⟩ := List.mem_map.1 hmem
    cases hnode
    refine ⟨hrefs b hb, a, hp, ?_⟩
    intro a' ha'
    exact congrArg Prod.snd (Made.place_unique hmarks ha' hp rfl (hmarked b hb))
  · obtain ⟨l, hperm, hsub⟩ := hcalled
    exact (hperm.map _).nodup_iff.1 (haddresses.sublist (hsub.map _))
  · intro b hb b' hb' hnode
    have hmarks' := Resolver.nodup_marks hsub (program_marks text)
    have hnodup : (first.2.bindings.map Resolver.Binding.node).Nodup :=
      Resolver.nodup_of_marks hmarks' (List.forall_mem_map.2 hmarked)
    rw [hagain, List.mem_append, or_self] at hb'
    rw [List.inj_on_of_nodup_map hnodup hb' hb hnode]

/-- What is recorded of texts that are resolved in turn. A node is known by the number of its text
and its mark there. -/
abbrev Ledger := Nat → Resolver.Table

/-- Enters what resolving a text records, faults or none. A text that cannot be scanned and parsed is
not resolved. -/
def Ledger.enter (L : Ledger) (entry : Text × Nat) : Ledger :=
  if (ofText entry.1).error? = none then
    Function.update L entry.2
      ((L entry.2).recordAll (Resolved.ofProgram (ofText entry.1).program).bindings)
  else L

/-- What is recorded once these texts have been run in turn. -/
def recorded (ts : List Text) : Ledger := ts.zipIdx.foldl Ledger.enter fun _ => .empty

theorem recorded_concat (ts : List Text) (t : Text) :
    recorded (ts ++ [t]) = (recorded ts).enter (t, ts.length) := by
  rw [recorded, List.zipIdx_append, List.foldl_append, Nat.zero_add]
  rfl

theorem Ledger.enter_other (L : Ledger) (t : Text) (h : i ≠ k) : L.enter (t, k) i = L i := by
  unfold Ledger.enter
  split
  · exact Function.update_of_ne h _ _
  · rfl

theorem recorded_later {ts : List Text} (h : ts.length ≤ i) : recorded ts i = .empty := by
  induction ts using List.reverseRecOn with
  | nil => rfl
  | append_singleton ts t ih =>
    rw [List.length_append, List.length_singleton] at h
    rw [recorded_concat, Ledger.enter_other _ _ (by omega)]
    exact ih (by omega)

theorem recorded_own {ts : List Text} (ht : ts[i]? = some t) (h : (ofText t).error? = none) :
    recorded ts i =
      Resolver.Table.empty.recordAll (Resolved.ofProgram (ofText t).program).bindings := by
  induction ts using List.reverseRecOn with
  | nil => cases ht
  | append_singleton ts u ih =>
    rw [recorded_concat]
    by_cases hi : i < ts.length
    · rw [List.getElem?_append_left hi] at ht
      rw [Ledger.enter_other _ _ (Nat.ne_of_lt hi)]
      exact ih ht
    · rw [List.getElem?_append_right (Nat.le_of_not_lt hi), List.getElem?_singleton] at ht
      obtain ⟨hlast, hsame⟩ := Option.ite_none_right_eq_some.1 ht
      cases hsame
      have hend : i = ts.length := by omega
      rw [hend, Ledger.enter, if_pos h, Function.update_self, recorded_later Nat.le.refl]

theorem recorded_tells {ts : List Text} (ht : ts[i]? = some t) (h : (ofText t).error? = none) :
    (ofText t).program.map (Stmt.map (recorded ts i) id) =
      (Resolved.ofProgram (ofText t).program).tree := by
  rw [recorded_own ht h]
  exact (Resolved.ofProgram_recorded (program_marks t)).symm

end Source

end LoxLang
