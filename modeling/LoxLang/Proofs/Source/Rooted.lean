import LoxLang.Proofs.Machine.Context
import LoxLang.Proofs.Machine.Rooted
import LoxLang.Proofs.Source.Sound

namespace LoxLang

namespace Machine
set_option autoImplicit true

variable {host : Host}

theorem statements_rooting (hhost : ∀ f ∈ host.natives, f.Tame host.natives) (steps : Nat)
    {m : Machine} (hm : m.Rooted) (ss : List (Stmt Distance)) :
    Rooting (fun _ _ => True) (statements host steps ss) m := by
  induction ss generalizing m with
  | nil => exact .pure hm trivial
  | cons s ss ih =>
    apply (heed_rooting host hm).bind
    intro _ m₁ h₁ _
    apply ((roots hhost steps).execute h₁.rooted s).bind
    intro _ m₂ h₂ _
    exact ih h₂.rooted

theorem Rooting.attempt {P : Eval α} {m : Machine} (h : Rooting R P m) :
    (attempt P m).2.Rooted := by
  unfold Rooting at h
  unfold Machine.attempt
  cases hP : P m with
  | ok a m' =>
    rw [hP] at h
    exact h.1.rooted
  | error e m' =>
    rw [hP] at h
    exact h.rooted.at_ h.rooted.store.size

theorem rooted_upheld (hhost : ∀ f ∈ host.natives, f.Tame host.natives) (steps : Nat) :
    Upheld Machine.Rooted host steps where
  define {m} x v hv hm := by
    have hrooted : v.Rooted m.store := by
      cases hv
      all_goals trivial
    exact (hm.later (hm.store.define hrooted globals x) (.define _ _ _ _)).rooted
  write _ hm := ⟨hm.store, hm.current⟩
  value e hm := ((roots hhost steps).evaluate hm e).attempt
  interpret program hm := (statements_rooting hhost steps hm program).attempt

theorem new_rooted (natives : List Native) : (Machine.new natives).Rooted := by
  have hempty : (Store.empty.newFrame none).2.Rooted := by
    refine ⟨Nat.zero_lt_one, rfl, fun f hf hne => ?_, fun f e he => ?_, fun id e he => ?_⟩
    · exact absurd (Nat.lt_one_iff.1 hf) hne
    · rw [Store.vars_newFrame] at he
      exact absurd he List.not_mem_nil
    · rw [show (Store.empty.newFrame none).2.fields id = [] from Store.fields_empty id] at he
      exact absurd he List.not_mem_nil
  have hstore : (Machine.new natives).store.Rooted :=
    List.foldlRecOn natives.zipIdx _ hempty fun _ hs e _ =>
      hs.define (v := .native e.2) trivial globals e.1.name
  exact ⟨hstore, hstore.size⟩

end Machine

namespace Store
set_option autoImplicit true

/-- The frames from `f` outwards, up to one that lies in no other. -/
inductive Walk (s : Store) : FrameId → List FrameId → Prop where
  | last : s.parent? f = none → Walk s f [f]
  | step : s.parent? f = some p → Walk s p fs → Walk s f (f :: fs)

/-- The frames from `f` outwards are each younger than the next, and the last is the global one. -/
structure Outward (s : Store) (f : FrameId) (fs : List FrameId) : Prop where
  walk : s.Walk f fs
  younger : fs.Pairwise (· > ·)
  last : fs.getLast? = some Machine.globals

/-- The classes that can be come by: those of values that are stored, and their ancestors. -/
def Knows (s : Store) (c : Class) : Prop :=
  ∃ d : Class, (s.Holds (.klass d) ∨ ∃ id, s.Holds (.object id d)) ∧ c ∈ d.lineage

/-- The frames that can be come by: the global one, those in which functions and methods were made,
and those around them. -/
inductive Live (s : Store) : FrameId → Prop where
  | globals : Live s Machine.globals
  | function : s.Holds (.function f) → Live s f.frame
  | method : s.Knows c → c.methods.get? x = some f → Live s f.frame
  | around : Live s f → s.parent? f = some p → Live s p

theorem Walk.head {s : Store} (h : s.Walk f fs) : f ∈ fs := by
  cases h with
  | last => exact List.mem_cons_self
  | step => exact List.mem_cons_self

theorem Walk.holder? {s : Store} (h : s.Walk f fs) (hyounger : fs.Pairwise (· > ·)) (x : Text) :
    s.holder? x f = fs.find? fun g => (s.vars g).has x := by
  induction h with
  | @last f hp =>
    rw [Store.holder?, hp]
    cases hx : (s.vars f).has x <;> simp [hx]
  | @step f p fs hp hwalk ih =>
    obtain ⟨hlt, hyounger⟩ := List.pairwise_cons.1 hyounger
    rw [Store.holder?, hp]
    dsimp only
    rw [if_pos (hlt p hwalk.head), ih hyounger]
    cases hx : (s.vars f).has x <;> simp [hx]

theorem Outward.assign? {s : Store} (h : s.Outward f fs) (x : Text) (v : Value) :
    s.assign? f x v = (fs.find? fun g => (s.vars g).has x).map fun g => s.define g x v := by
  rw [Store.assign?, h.walk.holder? h.younger]

theorem Outward.get? {s : Store} (h : s.Outward f fs) (x : Text) :
    s.get? f x = fs.findSome? fun g => (s.vars g).get? x := by
  rw [Store.get?, h.walk.holder? h.younger]
  clear h
  induction fs with
  | nil => rfl
  | cons g fs ih =>
    rw [List.find?_cons, List.findSome?_cons, Dict.has]
    cases hx : (s.vars g).get? x with
    | some v => exact hx
    | none => exact ih

theorem Rooted.outward {s : Store} (h : s.Rooted) (hf : f < s.frames.size) :
    ∃ fs, s.Outward f fs := by
  suffices ∃ fs, s.Outward f fs ∧ ∀ g ∈ fs, g ≤ f from this.imp fun _ h => h.1
  induction f using Nat.strongRecOn with
  | ind f ih =>
    by_cases hglobal : f = Machine.globals
    · subst hglobal
      exact ⟨[Machine.globals], ⟨.last h.root, List.pairwise_singleton _ _, rfl⟩, by simp⟩
    · obtain ⟨p, hlt, hp⟩ := h.parent f hf hglobal
      obtain ⟨fs, ⟨hwalk, hyounger, hlast⟩, hle⟩ := ih p hlt (Nat.lt_trans hlt hf)
      have hbelow (g : FrameId) (hg : g ∈ fs) : g < f := Nat.lt_of_le_of_lt (hle g hg) hlt
      refine ⟨f :: fs, ⟨.step hp hwalk, List.pairwise_cons.2 ⟨hbelow, hyounger⟩, ?_⟩, ?_⟩
      · rw [List.getLast?_cons, hlast]
        rfl
      · exact List.forall_mem_cons.2 ⟨Nat.le_refl f, fun g hg => (hbelow g hg).le⟩

theorem Rooted.holds {s : Store} (h : s.Rooted) (hv : s.Holds v) : v.Rooted s := by
  rcases hv with ⟨f, x, hx⟩ | ⟨id, x, hx⟩
  · exact h.value hx
  · exact h.fields id _ (Dict.mem_of_get? hx)

end Store

namespace Class
set_option autoImplicit true

theorem mem_lineage : ∀ c : Class, c ∈ c.lineage
  | mk _ _ _ _ => by
    unfold lineage
    exact List.mem_cons_self

theorem Rooted.lineage {c : Class} (h : c.Rooted s) :
    ∀ d ∈ c.lineage, d.Rooted s ∧ d.serial ≤ c.serial := by
  induction h with
  | @mk n parent x ms hn hms hserial hparent ih =>
    unfold Class.lineage
    refine List.forall_mem_cons.2 ⟨⟨.mk hn hms hserial hparent, Nat.le_refl n⟩, fun d hd => ?_⟩
    cases parent with
    | none => exact absurd hd List.not_mem_nil
    | some c =>
      obtain ⟨hd, hle⟩ := ih c rfl d hd
      exact ⟨hd, Nat.le_trans hle (hserial c rfl).le⟩

theorem Rooted.lineage_pairwise {c : Class} (h : c.Rooted s) :
    c.lineage.Pairwise fun d e => e.serial < d.serial := by
  induction h with
  | @mk n parent x ms _ _ hserial hparent ih =>
    unfold Class.lineage
    refine List.pairwise_cons.2 ⟨fun d hd => ?_, ?_⟩
    · cases parent with
      | none => exact absurd hd List.not_mem_nil
      | some c => exact Nat.lt_of_le_of_lt ((hparent c rfl).lineage d hd).2 (hserial c rfl)
    · cases parent with
      | none => exact .nil
      | some c => exact ih c rfl

theorem allMethods_eq : ∀ c : Class,
    c.allMethods = c.lineage.flatMap fun d => d.methods.map Prod.fst
  | mk _ _ none _ => by simp [allMethods, lineage, methods]
  | mk _ _ (some c) _ => by
    have ih := allMethods_eq c
    simp [allMethods, lineage, methods, ih]

end Class

namespace Store
set_option autoImplicit true

theorem Rooted.knows {s : Store} (h : s.Rooted) (hc : s.Knows c) : c.Rooted s := by
  obtain ⟨d, hd, hc⟩ := hc
  have hrooted : d.Rooted s := by
    rcases hd with hd | ⟨id, hd⟩
    · exact h.holds hd
    · exact h.holds hd
  exact (hrooted.lineage c hc).1

theorem Rooted.live {s : Store} (h : s.Rooted) (hf : s.Live f) : f < s.frames.size := by
  induction hf with
  | globals => exact h.size
  | function hf => exact h.holds hf
  | method hc hx =>
    cases h.knows hc with
    | mk _ hms _ _ => exact hms _ (Dict.mem_of_get? hx)
  | @around f p _ hp ih =>
    by_cases hglobal : f = Machine.globals
    · rw [hglobal, h.root] at hp
      cases hp
    · obtain ⟨q, hlt, hq⟩ := h.parent f ih hglobal
      cases hq.symm.trans hp
      exact Nat.lt_trans hlt ih

end Store

namespace Source
set_option autoImplicit true

theorem after_rooted {natives : List Native} (hN : ∀ n ∈ natives, n.Tame natives)
    {runs : List (Options × Text)} (hruns : ∀ r ∈ runs, r.1.host.natives = natives) {m : Machine}
    (hm : m.Rooted) : (after runs m).Rooted := by
  apply List.foldlRecOn runs _ hm
  intro m hm r hr
  have hhost : ∀ n ∈ r.1.host.natives, n.Tame r.1.host.natives := hruns r hr ▸ hN
  exact run_upheld (Machine.rooted_upheld hhost r.1.steps) r.2 hm

/-- Whatever texts are run in turn, however each ends, the frames from one that can be come by are
finitely many, none twice, and the last is the global one; and so are the ancestors of a class that
can be come by, each older than the one before. Variables and methods are searched for in these. -/
theorem chains_end (natives : List Native) (hN : ∀ n ∈ natives, n.Tame natives)
    (runs : List (Options × Text)) (hruns : ∀ r ∈ runs, r.1.host.natives = natives) :
    let s := (after runs (.new natives)).store
    (∀ f, s.Live f → ∃ fs, s.Outward f fs ∧ fs.Nodup ∧ ∀ x,
      s.get? f x = (fs.findSome? fun g => (s.vars g).get? x) ∧
      ∀ v, s.assign? f x v = (fs.find? fun g => (s.vars g).has x).map fun g => s.define g x v) ∧
    ∀ c, s.Knows c → (c.lineage.Pairwise fun d e => e.serial < d.serial) ∧
      (∀ x, c.findMethod x = c.lineage.findSome? fun d => d.methods.get? x) ∧
      c.allMethods = c.lineage.flatMap fun d => d.methods.map Prod.fst := by
  intro s
  have hs : s.Rooted := (after_rooted hN hruns (Machine.new_rooted natives)).store
  refine ⟨fun f hf => ?_, fun c hc => ?_⟩
  · obtain ⟨fs, hfs⟩ := hs.outward (hs.live hf)
    have hnodup : fs.Nodup := hfs.younger.imp fun hlt => Nat.ne_of_gt hlt
    exact ⟨fs, hfs, hnodup, fun x => ⟨hfs.get? x, hfs.assign? x⟩⟩
  · exact ⟨(hs.knows hc).lineage_pairwise, fun x => c.findMethod_eq x, c.allMethods_eq⟩

/-- A class that is declared again as a descendant of its own name. -/
def redeclared : List (Options × Text) :=
  [(⟨⟨Native.standard, 0, .never⟩, false, [], fun _ => [], 20⟩,
    "class A \x7b\x7d class B < A \x7b\x7d class A < B \x7b\x7d")]

def lineageOf (m : Machine) (x : Text) : List Class :=
  match (m.store.vars Machine.globals).get? x with
  | some (.klass c) => c.lineage
  | _ => []

theorem chains_end_redeclared :
    (∀ r ∈ redeclared, r.1.host.natives = Native.standard) ∧
      (lineageOf (after redeclared (.new Native.standard)) "A").map Class.name = ["A", "B", "A"] ∧
      (lineageOf (after redeclared (.new Native.standard)) "A").Pairwise
        fun c d => d.serial < c.serial := by
  have hruns : ∀ r ∈ redeclared, r.1.host.natives = Native.standard := by simp [redeclared]
  refine ⟨hruns, by decide +kernel, ?_⟩
  unfold lineageOf
  split
  · rename_i c hc
    exact ((chains_end Native.standard Native.standard_tame redeclared hruns).2 c
      ⟨c, .inl (.inl ⟨_, _, hc⟩), c.mem_lineage⟩).1
  · exact .nil

end Source

end LoxLang
