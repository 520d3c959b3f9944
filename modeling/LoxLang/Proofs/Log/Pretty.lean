import LoxLang.Log.Pretty

namespace LoxLang.Log.Pretty
set_option autoImplicit true

def members? : Value → Option (List Attr)
  | .group fields | .deferred _ fields => some fields
  | _ => none

/-- The leaves of attributes that stand within some groups, in order, each with the names on the way
to it. An attribute without name and value is none, and a group without a name adds none. -/
inductive Leaves : List Text → List Attr → List (List Text × Value) → Prop where
  | nil : Leaves groups [] []
  | blank : Leaves groups rest ls → Leaves groups (([], .null) :: rest) ls
  | leaf : members? v = none → ¬ (k = [] ∧ v = .null) → Leaves groups rest ls →
      Leaves groups ((k, v) :: rest) ((groups ++ [k], v) :: ls)
  | inlined : members? v = some fields → Leaves groups fields ls → Leaves groups rest ls' →
      Leaves groups (([], v) :: rest) (ls ++ ls')
  | group : k ≠ [] → members? v = some fields → Leaves (groups ++ [k]) fields ls →
      Leaves groups rest ls' → Leaves groups ((k, v) :: rest) (ls ++ ls')

/-- A leaf as an attribute: its names joined by dots, after what stands before all of them. -/
def dotted (path : Text) (leaf : List Text × Value) : Attr :=
  (path ++ Text.join "." leaf.1, leaf.2)

def pathOf (path : Text) (groups : List Text) : Text := path ++ groups.flatMap (· ++ Text.ofString ".")

theorem pathOf_snoc (path : Text) (groups : List Text) (k : Text) :
    pathOf path (groups ++ [k]) = pathOf path groups ++ k ++ "." := by
  simp [pathOf]

theorem join_snoc (sep : Text) (groups : List Text) (k : Text) :
    Text.join sep (groups ++ [k]) = groups.flatMap (· ++ sep) ++ k := by
  induction groups with
  | nil => simp [Text.join]
  | cons g groups ih =>
    have hcons : Text.join sep (g :: (groups ++ [k])) =
        g ++ sep ++ Text.join sep (groups ++ [k]) := by
      cases groups <;> simp [Text.join]
    rw [List.cons_append, hcons, ih, List.flatMap_cons, List.append_assoc (g ++ sep)]

theorem leaves_members (path k : Text) (h : members? v = some fields) :
    leaves path k v = flatten (if k.isEmpty then path else path ++ k ++ ".") fields := by
  cases v with
  | group _ | deferred _ _ =>
    cases h
    rw [leaves]
  | _ => cases h

theorem leaves_leaf (path k : Text) (h : members? v = none) (hv : ¬ (k = [] ∧ v = .null)) :
    leaves path k v = [(path ++ k, v)] := by
  cases v with
  | group _ | deferred _ _ => cases h
  | null =>
    have hk : k ≠ [] := fun hk => hv ⟨hk, rfl⟩
    simp [leaves, isBlank, hk]
  | _ => simp [leaves, isBlank]

theorem Leaves.flatten (h : Leaves groups as ls) (path : Text) :
    Pretty.flatten (pathOf path groups) as = ls.map (dotted path) := by
  induction h with
  | nil => rw [Pretty.flatten, List.map_nil]
  | blank _ ih => simpa [Pretty.flatten, leaves, isBlank] using ih
  | leaf hv hblank _ ih =>
    rw [Pretty.flatten, leaves_leaf _ _ hv hblank, ih, List.map_cons, dotted, join_snoc, pathOf,
      List.append_assoc]
    rfl
  | inlined hv _ _ ih ih' =>
    rw [Pretty.flatten, leaves_members _ _ hv, if_pos List.isEmpty_nil, ih, ih', List.map_append]
  | group hk hv _ _ ih ih' =>
    rw [Pretty.flatten, leaves_members _ _ hv, if_neg (mt List.isEmpty_iff.1 hk), ← pathOf_snoc,
      ih, ih', List.map_append]

mutual
theorem exists_leaves_members (groups : List Text) :
    (v : Value) → members? v = some fields → ∃ ls, Leaves groups fields ls
  | .group fs, h => Option.some.inj h ▸ exists_leaves groups fs
  | .deferred _ fs, h => Option.some.inj h ▸ exists_leaves groups fs

theorem exists_leaves (groups : List Text) : (as : List Attr) → ∃ ls, Leaves groups as ls
  | [] => ⟨[], .nil⟩
  | (k, v) :: rest => by
    obtain ⟨ls', hrest⟩ := exists_leaves groups rest
    cases hv : members? v with
    | some fields =>
      by_cases hk : k = []
      · obtain ⟨ls, hls⟩ := exists_leaves_members groups v hv
        exact ⟨ls ++ ls', hk ▸ .inlined hv hls hrest⟩
      · obtain ⟨ls, hls⟩ := exists_leaves_members (groups ++ [k]) v hv
        exact ⟨ls ++ ls', .group hk hv hls hrest⟩
    | none =>
      by_cases hblank : k = [] ∧ v = .null
      · obtain ⟨rfl, rfl⟩ := hblank
        exact ⟨ls', .blank hrest⟩
      · exact ⟨(groups ++ [k], v) :: ls', .leaf hv hblank hrest⟩
end

theorem flatten_append (path : Text) (as bs : List Attr) :
    flatten path (as ++ bs) = flatten path as ++ flatten path bs := by
  induction as with
  | nil => rw [List.nil_append, flatten, List.nil_append]
  | cons a as ih => rw [List.cons_append, flatten, flatten, ih, List.append_assoc]

mutual
theorem leaves_prune (path k : Text) : (v : Value) → leaves path k v.prune = leaves path k v
  | .group fields => by rw [Value.prune, leaves, leaves, flatten_pruneFields]
  | .string _ | .int _ | .uint _ | .float _ | .bool _ | .duration _ | .time _ | .null | .error _
  | .deferred _ _ => by rw [Value.prune]; exact fun _ h => Value.noConfusion h

theorem flatten_pruneFields (path : Text) :
    (as : List Attr) → flatten path (pruneFields as) = flatten path as
  | [] => by rw [pruneFields]
  | (k, v) :: rest => by
    have hv := leaves_prune path k v
    rw [pruneFields]
    split
    · rename_i hempty
      have hgroup : v.prune = .group [] := by
        unfold isEmptyGroup at hempty
        split at hempty
        · rename_i heq
          exact (Prod.mk.inj heq).2
        · cases hempty
      rw [hgroup, leaves, flatten] at hv
      rw [flatten_pruneFields path rest, flatten, ← hv, List.nil_append]
    · rw [flatten, flatten, hv, flatten_pruneFields path rest]
end

namespace Writer

/-- A group without a name and a nameless attribute without a value leave no trace. -/
example : ([.group "repl", .attrs [("", .group [("line", .int 3)]), ("", .null)]].foldl scope
    (.new ⟨.info, .text, none, true, false⟩)).line none ⟨.info, "eval", [("value", .group [])]⟩ =
      Text.ofString "level=INFO msg=eval repl.line=3\n" := by
  decide +kernel

end Writer

end LoxLang.Log.Pretty
