import Mathlib.Data.List.Perm.Subperm
import Mathlib.Logic.Function.Basic
import LoxLang.Proofs.Resolver.Balanced
import LoxLang.Proofs.Tree.Map

namespace LoxLang

namespace Resolver
set_option autoImplicit true

def upon (r : Resolver) (ds : List Diagnostic) (bs : List Binding) : Resolver :=
  { r with diagnostics := ds, bindings := bs }

/-- From this state a step adds these faults and these distances, whatever was there before. -/
def Adds (P : Resolve α) (r : Resolver) (ds : List Diagnostic) (bs : List Binding) : Prop :=
  ∀ ds₀ bs₀, P (r.upon ds₀ bs₀) = ((P r).1, (P r).2.upon (ds₀ ++ ds) (bs₀ ++ bs))

theorem Adds.bindings {P : Resolve α} (h : Adds P initial ds bs) : (P initial).2.bindings = bs := by
  have hrun : P initial = ((P initial).1, (P initial).2.upon ds bs) := h [] []
  exact congrArg (fun a => a.2.bindings) hrun

abbrev Table := Mark → Distance

namespace Table

/-- A table in which nothing is recorded. -/
def empty : Table := fun _ => none

/-- Records a distance, in the place of an earlier one for the same mark. -/
def record (T : Table) (b : Binding) : Table :=
  match b.node.mark? with
  | some i => Function.update T i (some b.distance)
  | none => T

def recordAll (T : Table) (bs : List Binding) : Table := bs.foldl record T

theorem recordAll_append (T : Table) (bs bs' : List Binding) :
    T.recordAll (bs ++ bs') = (T.recordAll bs).recordAll bs' := List.foldl_append

theorem record_other {T : Table} (h : b.node.mark? ≠ some i) : T.record b i = T i := by
  unfold record
  cases hj : b.node.mark? with
  | none => rfl
  | some j => exact Function.update_of_ne (fun hij => h (hj.trans (congrArg some hij.symm))) _ _

theorem recordAll_other {T : Table} (h : ∀ b ∈ bs, b.node.mark? ≠ some i) :
    T.recordAll bs i = T i := by
  induction bs generalizing T with
  | nil => rfl
  | cons b bs ih =>
    obtain ⟨hb, hbs⟩ := List.forall_mem_cons.1 h
    exact (ih hbs).trans (record_other hb)

theorem recordAll_congr {T T' : Table} (h : T i = T' i) (bs : List Binding) :
    T.recordAll bs i = T'.recordAll bs i := by
  induction bs generalizing T T' with
  | nil => exact h
  | cons b bs ih =>
    apply ih
    by_cases hb : b.node.mark? = some i
    · simp only [record, hb, Function.update_self]
    · rw [record_other hb, record_other hb, h]

def Tells (T : Table) (ns : List (Expr Mark)) (bs : List Binding) : Prop :=
  ∀ n ∈ ns, ∀ i, n.mark? = some i → T i = empty.recordAll bs i

end Table

theorem nodup_of_marks {ns : List (Expr Mark)} (h : (ns.filterMap Expr.mark?).Nodup)
    (hrefs : ∀ n ∈ ns, n.mark?.isSome) : ns.Nodup := by
  induction ns with
  | nil => exact List.nodup_nil
  | cons n ns ih =>
    obtain ⟨k, hk⟩ := Option.isSome_iff_exists.1 (hrefs n List.mem_cons_self)
    rw [List.filterMap_cons_some hk, List.nodup_cons] at h
    refine List.nodup_cons.2 ⟨?_, ih h.2 fun n' hn' => hrefs n' (List.mem_cons_of_mem _ hn')⟩
    intro hn
    exact h.1 (List.mem_filterMap.2 ⟨n, hn, hk⟩)

theorem nodup_marks {ns ms : List (Expr Mark)} (hs : ns.Subperm ms)
    (h : (ms.filterMap Expr.mark?).Nodup) : (ns.filterMap Expr.mark?).Nodup := by
  obtain ⟨l, hperm, hsub⟩ := hs
  exact (hperm.filterMap _).nodup_iff.1 (h.sublist (hsub.filterMap _))

theorem marks_apart {ns ms : List (Expr Mark)} (h : ((ns ++ ms).filterMap Expr.mark?).Nodup)
    (hn : n ∈ ns) (hm : m ∈ ms) (hi : n.mark? = some i) : m.mark? ≠ some i := by
  rw [List.filterMap_append, List.nodup_append] at h
  intro hj
  exact h.2.2 i (List.mem_filterMap.2 ⟨n, hn, hi⟩) i (List.mem_filterMap.2 ⟨m, hm, hj⟩) rfl

/-- A step records references among these nodes only, each at most as often as it occurs, and what it
returns is read off from a table that tells what it records. -/
def Records (ns : List (Expr Mark)) (P : Resolve α) (F : Table → α) : Prop :=
  ∀ r, ∃ ds bs, Adds P r ds bs ∧ (bs.map Binding.node).Subperm ns ∧
    (∀ b ∈ bs, b.reference?.isSome) ∧
    ((ns.filterMap Expr.mark?).Nodup → ∀ T : Table, T.Tells ns bs → (P r).1 = F T)

theorem Records.weaken {P : Resolve α} (h : Records ns P F) (hn : ns.Subperm ms) :
    Records ms P F := by
  intro r
  obtain ⟨ds, bs, hadds, hsub, hrefs, hread⟩ := h r
  refine ⟨ds, bs, hadds, hsub.trans hn, hrefs, fun hnodup T hT => ?_⟩
  exact hread (nodup_marks hn hnodup) T fun n hm => hT n (hn.subset hm)

theorem Records.inside {P : Resolve α} (h : Records ns P F) : Records (node :: ns) P F :=
  h.weaken (List.sublist_cons_self node ns).subperm

theorem Records.recast {P : Resolve α} {F G : Table → α} (h : Records ns P F) (hF : ∀ T, F T = G T) :
    Records ns P G := by
  rwa [show F = G from funext hF] at h

theorem Records.silent {P : Resolve α} (ds : Resolver → List Diagnostic)
    (h : ∀ r, Adds P r (ds r) []) (hF : ∀ r, (P r).1 = a) : Records ns P fun _ => a :=
  fun r => ⟨ds r, [], h r, List.nil_subperm, nofun, fun _ _ _ => hF r⟩

theorem Records.pure (a : α) : Records ns (Pure.pure a) fun _ => a := by
  refine .silent (fun _ => []) (fun r ds bs => ?_) fun _ => rfl
  rw [List.append_nil, List.append_nil]
  rfl

theorem Records.bind {P : Resolve α} {Q : α → Resolve β} (h : Records ns P F) (G : α → Table → β)
    (hQ : ∀ a, Records ms (Q a) (G a)) : Records (ns ++ ms) (P >>= Q) fun T => G (F T) T := by
  intro r
  obtain ⟨ds, bs, hadds, hsub, hrefs, hread⟩ := h r
  obtain ⟨ds', bs', hadds', hsub', hrefs', hread'⟩ := hQ (P r).1 (P r).2
  refine ⟨ds ++ ds', bs ++ bs', ?_, ?_, ?_, fun hnodup T hT => ?_⟩
  · intro ds₀ bs₀
    rw [run_bind, run_bind, hadds, hadds', List.append_assoc, List.append_assoc]
  · rw [List.map_append]
    exact hsub.append hsub'
  · intro b hb
    rcases List.mem_append.1 hb with hb | hb
    · exact hrefs b hb
    · exact hrefs' b hb
  -- The nodes of either step have marks that the other does not record.
  · have hfirst : T.Tells ns bs := by
      intro n hn i hi
      rw [hT n (List.mem_append_left _ hn) i hi, Table.recordAll_append]
      apply Table.recordAll_other
      intro b hb
      exact marks_apart hnodup hn (hsub'.subset (List.mem_map_of_mem hb)) hi
    have hsecond : T.Tells ms bs' := by
      intro n hn i hi
      rw [hT n (List.mem_append_right _ hn) i hi, Table.recordAll_append]
      apply Table.recordAll_congr
      apply Table.recordAll_other
      intro b hb hj
      exact marks_apart hnodup (hsub.subset (List.mem_map_of_mem hb)) hn hj hi
    have hnodups := nodup_marks (List.sublist_append_left ns ms).subperm hnodup
    have hnodups' := nodup_marks (List.sublist_append_right ns ms).subperm hnodup
    have hresult : (P r).1 = F T := hread hnodups T hfirst
    have hrest : ((P >>= Q) r).1 = G (P r).1 T := hread' hnodups' T hsecond
    rw [hrest, hresult]

theorem Records.then {P : Resolve α} {Q : α → Resolve β} (h : Records [] P F)
    (hQ : ∀ a, Records ns (Q a) G) : Records ns (P >>= Q) G := h.bind _ hQ

theorem Records.before {P : Resolve α} {Q : α → Resolve β} (h : Records ns P F) (f : α → β)
    (hQ : ∀ a, Records [] (Q a) fun _ => f a) : Records ns (P >>= Q) fun T => f (F T) := by
  have hboth := h.bind (fun a _ => f a) hQ
  rwa [List.append_nil] at hboth

theorem Records.map {P : Resolve α} (h : Records ns P F) (f : α → β) :
    Records ns (P >>= fun a => Pure.pure (f a)) fun T => f (F T) := h.before f fun _ => .pure _

theorem Records.get {K : Resolver → Resolve α} (hK : ∀ r ds bs, K (upon r ds bs) = K r)
    (h : ∀ r, Records ns (K r) F) : Records ns (MonadState.get >>= K) F := by
  intro r
  obtain ⟨ds, bs, hadds, hrest⟩ := h r r
  refine ⟨ds, bs, ?_, hrest⟩
  intro ds₀ bs₀
  rw [run_bind, run_bind, run_get, run_get]
  dsimp only
  rw [hK]
  exact hadds ds₀ bs₀

theorem Records.ite {c : Prop} [Decidable c] {P Q : Resolve α} (hP : Records ns P F)
    (hQ : Records ns Q F) : Records ns (if c then P else Q) F := by
  split
  · exact hP
  · exact hQ

theorem Records.modify {f : Resolver → Resolver}
    (hf : ∀ r ds bs, f (upon r ds bs) = (f r).upon ds bs) :
    Records [] (MonadState.modifyGet fun r => (PUnit.unit, f r)) fun _ => PUnit.unit := by
  refine .silent (fun _ => []) (fun r ds bs => ?_) fun _ => rfl
  rw [List.append_nil, List.append_nil]
  exact congrArg (Prod.mk PUnit.unit) (hf r ds bs)

theorem report_records (t : Token) (message : Text) :
    Records [] (report t message) fun _ => PUnit.unit := by
  refine .silent (fun _ => [.atToken .resolving t message]) (fun r ds bs => ?_) fun _ => rfl
  rw [List.append_nil]
  rfl

theorem told_records (c : Prop) [Decidable c] (t : Token) (message : Text)
    {Q : PUnit → Resolve α} (h : ∀ u, Records ns (Q u) F) :
    Records ns (if c then report t message >>= Q else Q PUnit.unit) F :=
  .ite ((report_records t message).then h) (h _)

theorem begin_records : Records [] begin fun _ => PUnit.unit := .modify fun _ _ _ => rfl

theorem finish_records : Records [] finish fun _ => PUnit.unit := .modify fun _ _ _ => rfl

theorem mark_records (x : Text) (b : Bool) : Records [] (mark x b) fun _ => PUnit.unit := by
  apply Records.modify
  intro r ds bs
  obtain ⟨scopes, body, home, ds₀, bs₀⟩ := r
  cases scopes with
  | nil => rfl
  | cons s ss => rfl

theorem declare_records (t : Token) : Records [] (declare t) fun _ => PUnit.unit :=
  .get (fun _ _ _ => rfl) fun _ => told_records _ _ _ fun _ => mark_records _ _

theorem define_records (t : Token) : Records [] (define t) fun _ => PUnit.unit := mark_records _ _

def Refers (node : Expr Mark) (ref : Reference Mark) : Prop :=
  (Binding.mk node 0).reference?.isSome ∧ node.mark? = some ref.mark

/-- No distance is recorded for a reference whose binding is global or missing. -/
theorem Refers.unrecorded (h : Refers node ref) :
    Records [node] (Pure.pure ⟨ref.name, none⟩) fun T => ref.map T id := by
  intro r
  refine ⟨[], [], ?_, List.nil_subperm, nofun, fun _ T hT => ?_⟩
  · intro ds bs
    rw [List.append_nil, List.append_nil]
    rfl
  · have hnone : T ref.mark = none := hT node (List.mem_singleton_self _) _ h.2
    exact congrArg (Reference.mk ref.name) hnone.symm

theorem Refers.recorded (h : Refers node ref) (n : Nat) :
    Records [node] (do
      modify fun r => { r with bindings := r.bindings ++ [Binding.mk node n] }
      return ⟨ref.name, some n⟩) fun T => ref.map T id := by
  intro r
  refine ⟨[], [⟨node, n⟩], ?_, .refl _, ?_, fun _ T hT => ?_⟩
  · intro ds bs
    rw [List.append_nil]
    rfl
  · intro b hb
    rw [List.mem_singleton.1 hb]
    exact h.1
  · have hsome : T ref.mark = some n := by
      rw [hT node (List.mem_singleton_self _) _ h.2, Table.recordAll, List.foldl_cons, List.foldl_nil,
        Table.record]
      simp only [h.2, Function.update_self]
    exact congrArg (Reference.mk ref.name) hsome.symm

theorem Refers.bind_records (h : Refers node ref) :
    Records [node] (bind node ref) fun T => ref.map T id := by
  apply Records.get (fun _ _ _ => rfl)
  intro r
  cases distance r.scopes ref.name.lexeme with
  | none => exact h.unrecorded
  | some n => exact h.recorded n

theorem read_records (ref : Reference Mark) :
    Records [.var ref] (read ref) fun T => ref.map T id :=
  have hrefers : Refers (.var ref) ref := ⟨rfl, rfl⟩
  .get (fun _ _ _ => rfl) fun _ => told_records _ _ _ fun _ => hrefers.bind_records

theorem this_records (ref : Reference Mark) :
    Records [.this ref] (this ref) fun T => ref.map T id := by
  have hrefers : Refers (.this ref) ref := ⟨rfl, rfl⟩
  apply Records.get (fun _ _ _ => rfl)
  intro r
  cases r.home with
  | none => exact (report_records _ _).then fun _ => hrefers.unrecorded
  | plain | derived => exact hrefers.bind_records

theorem super_records (ref : Reference Mark) (x : Token) :
    Records [.super ref x] (super ref x) fun T => ref.map T id := by
  have hrefers : Refers (.super ref x) ref := ⟨rfl, rfl⟩
  apply Records.get (fun _ _ _ => rfl)
  intro r
  cases r.home with
  | none | plain => exact (report_records _ _).then fun _ => hrefers.unrecorded
  | derived => exact hrefers.bind_records

theorem checkReturn_records (word : Token) (value : Option (Expr Mark)) :
    Records [] (checkReturn word value) fun _ => PUnit.unit := by
  apply Records.get (fun _ _ _ => rfl)
  intro r
  apply told_records
  intro _
  exact .ite (report_records _ _) (.pure _)

theorem params_records (ps : List Token) : Records [] (params ps) fun _ => PUnit.unit := by
  induction ps with
  | nil => exact .pure _
  | cons p ps ih => exact (declare_records p).then fun _ => (define_records p).then fun _ => ih

mutual
theorem expr_records (e : Expr Mark) : Records e.nodes (expr e) fun T => e.map T id := by
  cases e with
  | literal v => exact .pure _
  | grouping e | unary op e | get e x =>
    apply Records.inside
    exact (expr_records e).map _
  | binary a op b | logical a op b =>
    apply Records.inside
    exact (expr_records a).bind _ fun _ => (expr_records b).map _
  | var ref => exact (read_records ref).map _
  | assign ref e =>
    have hrefers : Refers (.assign ref e) ref := ⟨rfl, rfl⟩
    -- The value comes first.
    have hassign : Records (e.nodes ++ [.assign ref e]) (expr (.assign ref e))
        fun T => .assign (ref.map T id) (e.map T id) :=
      (expr_records e).bind _ fun _ => hrefers.bind_records.map _
    exact hassign.weaken List.perm_append_comm.subperm
  | call f paren args =>
    apply Records.inside
    exact (expr_records f).bind _ fun _ => (exprs_records args).map _
  | set o x e =>
    have hset : Records (e.nodes ++ o.nodes) (expr (.set o x e))
        fun T => .set (o.map T id) x (e.map T id) :=
      (expr_records e).bind _ fun _ => (expr_records o).map _
    have hswap := hset.weaken List.perm_append_comm.subperm
    exact hswap.inside
  | this ref => exact (this_records ref).map _
  | super ref x => exact (super_records ref x).map _

theorem exprs_records (es : List (Expr Mark)) :
    Records (Expr.nodesAll es) (exprs es) fun T => Expr.mapAll T id es := by
  cases es with
  | nil => exact .pure _
  | cons e es => exact (expr_records e).bind _ fun _ => (exprs_records es).map _
end

theorem expr?_records (o : Option (Expr Mark)) :
    Records (Expr.nodes? o) (expr? o) fun T => o.map (Expr.map T id) := by
  cases o with
  | none => exact .pure _
  | some e => exact (expr_records e).map _

theorem superclass_records (x : Token) (sup : Option (Reference Mark)) :
    Records (Reference.nodes? sup) (superclass x sup) fun T => sup.map (Reference.map T id) := by
  cases sup with
  | none => exact .pure _
  | some ref =>
    unfold superclass
    apply told_records
    intro _
    apply (Records.modify fun _ _ _ => rfl).then
    intro _
    apply (read_records ref).before some
    intro _
    exact begin_records.then fun _ => (mark_records _ _).then fun _ => .pure _

mutual
theorem stmt_records (s : Stmt Mark) : Records s.nodes (stmt s) fun T => s.map T id := by
  cases s with
  | expression e | print e => exact (expr_records e).map _
  | varDecl x init =>
    apply (declare_records x).then
    intro _
    apply (expr?_records init).before (Stmt.varDecl x)
    intro _
    exact (define_records x).then fun _ => .pure _
  | block body =>
    apply begin_records.then
    intro _
    apply (stmts_records body).before Stmt.block
    intro _
    exact finish_records.then fun _ => .pure _
  | ifThen c s | loop c s => exact (expr_records c).bind _ fun _ => (stmt_records s).map _
  | ifElse c s t =>
    exact (expr_records c).bind _ fun _ => (stmt_records s).bind _ fun _ => (stmt_records t).map _
  | funDecl f =>
    apply (declare_records f.name).then
    intro _
    apply (define_records f.name).then
    intro _
    exact (routine_records .function f).map _
  | ret word value => exact (checkReturn_records word value).then fun _ => (expr?_records value).map _
  | classDecl x sup methods =>
    apply Records.get (fun _ _ _ => rfl)
    intro r
    apply (Records.modify fun _ _ _ => rfl).then
    intro _
    apply (declare_records x).then
    intro _
    apply (define_records x).then
    intro _
    apply (superclass_records x sup).bind fun o T => Stmt.classDecl x o (Stmt.mapRoutines T id methods)
    intro o
    apply begin_records.then
    intro _
    apply (mark_records _ _).then
    intro _
    apply (routines_records methods).before (Stmt.classDecl x o)
    intro fs
    apply finish_records.then
    intro _
    have hclose : Records [] (do
        modify fun a => { a with home := r.home }
        return .classDecl x o fs : Resolve (Stmt Distance)) fun _ => .classDecl x o fs :=
      (Records.modify fun _ _ _ => rfl).then fun _ => .pure _
    exact .ite (finish_records.then fun _ => hclose) hclose

theorem stmts_records (ss : List (Stmt Mark)) :
    Records (Stmt.nodesAll ss) (stmts ss) fun T => Stmt.mapAll T id ss := by
  cases ss with
  | nil => exact .pure _
  | cons s ss => exact (stmt_records s).bind _ fun _ => (stmts_records ss).map _

theorem routine_records (kind : Body) (f : Routine (Stmt Mark)) :
    Records (Stmt.routineNodes f) (routine kind f) fun T => Stmt.mapRoutine T id f := by
  obtain ⟨name, ps, body⟩ := f
  have hbody : Records (Stmt.nodesAll body) (routine kind ⟨name, ps, body⟩)
      fun T => ⟨name, ps, Stmt.mapAll T id body⟩ := by
    apply Records.get (fun _ _ _ => rfl)
    intro r
    apply (Records.modify fun _ _ _ => rfl).then
    intro _
    apply begin_records.then
    intro _
    apply (params_records ps).then
    intro _
    apply (stmts_records body).before (Routine.mk name ps)
    intro _
    apply finish_records.then
    intro _
    exact (Records.modify fun _ _ _ => rfl).then fun _ => .pure _
  apply hbody.recast
  intro T
  rw [Stmt.mapRoutine, List.map_id]
  rfl

theorem routines_records (fs : List (Routine (Stmt Mark))) :
    Records (Stmt.routinesNodes fs) (routines fs) fun T => Stmt.mapRoutines T id fs := by
  cases fs with
  | nil => exact .pure _
  | cons f fs => exact (routine_records _ f).bind _ fun _ => (routines_records fs).map _
end

end Resolver

namespace Resolved
open Resolver

theorem ofProgram_recorded {program : List (Stmt Mark)}
    (h : ((Stmt.nodesAll program).filterMap Expr.mark?).Nodup) :
    (ofProgram program).tree =
      program.map (Stmt.map (Table.empty.recordAll (ofProgram program).bindings) id) := by
  obtain ⟨ds, bs, hadds, -, -, hread⟩ := stmts_records program initial
  have hbindings : (ofProgram program).bindings = bs := hadds.bindings
  rw [hbindings, ← Stmt.mapAll_eq]
  exact hread h _ fun _ _ _ _ => rfl

end Resolved

end LoxLang
