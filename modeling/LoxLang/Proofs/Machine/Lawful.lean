import LoxLang.Proofs.Machine.Retained
import LoxLang.Proofs.Machine.Steps
import LoxLang.Proofs.Resolver.Rules

namespace LoxLang
set_option autoImplicit true
open Resolver

/-- The body of a function breaks no rule of a place where values may be returned; that of an
initializer, no rule of an initializer. -/
def Closure.Lawful (f : Closure) : Prop :=
  ∃ K : Surroundings, K.body ≠ .none ∧ (f.isInitializer = true → K.body = .initializer) ∧
    faults (Stmt.placesAll K f.routine.body) = []

inductive Class.Lawful : Class → Prop where
  | mk {ms : Dict Closure} : (∀ e ∈ ms, e.2.Lawful) → (∀ c ∈ parent, Class.Lawful c) →
      Class.Lawful (.mk n x parent ms)

def Value.Lawful : Value → Prop
  | .function f => f.Lawful
  | .klass c | .object _ c => c.Lawful
  | .nil | .bool _ | .number _ | .string _ | .native _ | .absent => True

abbrev Store.Lawful (s : Store) : Prop := s.Only (fun _ => True) Value.Lawful

def Completion.Lawful (body : Body) : Completion → Prop
  | .normal => True
  | .returned v => body ≠ .none ∧ (body = .initializer → v = .nil) ∧ v.Lawful

namespace Resolver

theorem faults_append_nil {ps qs : List Place} :
    faults (ps ++ qs) = [] ↔ faults ps = [] ∧ faults qs = [] := by
  rw [faults_append, List.append_eq_nil_iff]

theorem faults_cons_nil {p : Place} {ps : List Place} :
    faults (p :: ps) = [] ↔ faults [p] = [] ∧ faults ps = [] := by
  rw [← faults_append_nil, List.singleton_append]

theorem ret_lawful {K : Surroundings} {value : Option (Expr μ)}
    (h : faults [⟨K, .ret word value.isSome⟩] = []) :
    K.body ≠ .none ∧ (K.body = .initializer → value = none) := by
  have hbreaks := faults_eq_nil.1 h _ (List.mem_singleton_self _)
  constructor
  · intro hbody
    exact hbreaks .strayReturn (.strayReturn hbody)
  · intro hbody
    cases value with
    | none => rfl
    | some e => exact absurd (.initializerValue hbody) (hbreaks .initializerValue)

end Resolver

theorem Stmt.routinePlaces_lawful {K : Surroundings} {r : Routine (Stmt Distance)}
    (h : faults (Stmt.routinePlaces K kind r) = []) (hkind : kind ≠ .none)
    (hinit : isInitializer = true → kind = .initializer) (serial : Nat) (frame : FrameId) :
    Closure.Lawful ⟨serial, r, frame, isInitializer⟩ := by
  obtain ⟨name, params, body⟩ := r
  exact ⟨_, hkind, hinit, (faults_append_nil.1 h).2⟩

theorem Stmt.methodPlaces_lawful {K : Surroundings} {rs : List (Routine (Stmt Distance))}
    (h : faults (Stmt.methodPlaces K rs) = []) : Stmt.Methods Value.Lawful rs := by
  induction rs with
  | nil =>
    intro r hr
    exact absurd hr List.not_mem_nil
  | cons r rs ih =>
    obtain ⟨hr, hrs⟩ := faults_append_nil.1 h
    intro r' hr' serial frame
    rcases List.mem_cons.1 hr' with rfl | hr'
    · apply Stmt.routinePlaces_lawful hr
      · unfold methodBody
        split
        · exact Body.noConfusion
        · exact Body.noConfusion
      · intro hinit
        exact if_pos (eq_of_beq hinit)
    · exact ih hrs r' hr' serial frame

theorem Class.Lawful.findMethod {c : Class} (h : c.Lawful) (hf : c.findMethod x = some f) :
    f.Lawful := by
  induction h with
  | mk hms _ ih =>
    unfold Class.findMethod at hf
    split at hf
    · rename_i hget
      cases hf
      exact hms _ (Dict.mem_of_get? hget)
    · split at hf
      · exact ih _ rfl hf
      · cases hf

theorem Class.Lawful.superclass {c : Class} (h : c.Lawful) (hd : c.superclass = some d) :
    d.Lawful := by
  cases h with
  | mk _ hparent => exact hparent d hd

theorem Value.From.lawful {v : Value} (h : v.From args) (hargs : ∀ a ∈ args, Value.Lawful a) :
    v.Lawful := by
  induction h with
  | given hv => exact hargs _ hv
  | ofObject _ ih => exact ih
  | parent _ hd ih => exact Class.Lawful.superclass ih hd
  | nil | bool | number | string => trivial

theorem Value.lawful : Stock (fun _ => True) Value.Lawful where
  nil := trivial
  bool _ := trivial
  number _ := trivial
  string _ := trivial
  this := trivial
  super := trivial
  object _ := id
  method hc hf := Class.Lawful.findMethod hc hf
  bound _ _ := id
  made _ _ hms hparent := .mk (fun e he => (hms e he).2) hparent

/-- A step of the machine that stores only lawful values. -/
abbrev Machine.Obeys (R : α → Prop) (P : Eval α) : Prop :=
  Retains (fun _ => True) Value.Lawful R P

end LoxLang
