import LoxLang.Resolver

namespace LoxLang

namespace Resolver

/-- What is around a place of a program. -/
structure Surroundings where
  /-- The names declared so far by the innermost scope, if that is not the global one. -/
  names : Option (List Text)
  /-- The variable whose initializer the place is in. -/
  pending : Option Text
  body : Body
  home : Home

namespace Surroundings

/-- What is around a whole program. -/
def outermost : Surroundings := ⟨none, none, .none, .none⟩

/-- Behind declarations of these names in the innermost scope. -/
def declare (K : Surroundings) (xs : List Text) : Surroundings :=
  { K with names := K.names.map (xs.reverse ++ ·) }

def initializing (K : Surroundings) (x : Text) : Surroundings :=
  { K.declare [x] with pending := some x }

def enter (K : Surroundings) : Surroundings := { K with names := some [], pending := none }

def inRoutine (K : Surroundings) (kind : Body) : Surroundings := { K.enter with body := kind }

def inClass (K : Surroundings) (derived : Bool) : Surroundings :=
  { K with names := some ["this"], pending := none, home := if derived then .derived else .plain }

theorem declare_nil (K : Surroundings) : K.declare [] = K := by simp [declare]

theorem declare_declare (K : Surroundings) (xs ys : List Text) :
    (K.declare xs).declare ys = K.declare (xs ++ ys) := by
  simp [declare, Function.comp_def]

theorem names_declare (K : Surroundings) (xs : List Text) :
    (K.declare xs).names.isSome = K.names.isSome := by
  simp [declare]

end Surroundings

inductive Site where
  | declaration (name : Token)
  | reading (name : Token)
  | ret (keyword : Token) (valued : Bool)
  | this (keyword : Token)
  | super (keyword : Token)
  | inheritance (name parent : Token)

/-- The token at which a broken rule is told of. -/
def Site.token : Site → Token
  | declaration name | reading name => name
  | ret keyword _ | this keyword | super keyword => keyword
  | inheritance _ parent => parent

/-- A place of a program that a rule may be about. -/
structure Place where
  around : Surroundings
  site : Site

inductive Breach where
  | redeclared | ownInitializer | strayReturn | initializerValue | strayThis | straySuper
  | noSuperclass | ownSuperclass
  deriving DecidableEq, Repr

def Breach.message : Breach → Text
  | redeclared => "Already a variable with this name in this scope."
  | ownInitializer => "Can't read local variable in its own initializer."
  | strayReturn => "Can't return from top-level code."
  | initializerValue => "Can't return a value from an initializer."
  | strayThis => "Can't use 'this' outside of a class."
  | straySuper => "Can't use 'super' outside of a class."
  | noSuperclass => "Can't use 'super' in a class with no superclass."
  | ownSuperclass => "A class can't inherit from itself."

/-- A place breaks a rule. Global names may be declared again and are read as they stand. -/
inductive Place.Breaks (K : Surroundings) : Site → Breach → Prop where
  | redeclared {xs : List Text} {x : Token} : K.names = some xs → x.lexeme ∈ xs →
      Breaks K (.declaration x) .redeclared
  | ownInitializer {xs : List Text} {x : Token} : K.names = some xs → K.pending = some x.lexeme →
      Breaks K (.reading x) .ownInitializer
  | strayReturn {word : Token} {valued : Bool} : K.body = .none →
      Breaks K (.ret word valued) .strayReturn
  | initializerValue {word : Token} : K.body = .initializer →
      Breaks K (.ret word true) .initializerValue
  | strayThis {word : Token} : K.home = .none → Breaks K (.this word) .strayThis
  | straySuper {word : Token} : K.home = .none → Breaks K (.super word) .straySuper
  | noSuperclass {word : Token} : K.home = .plain → Breaks K (.super word) .noSuperclass
  | ownSuperclass {x parent : Token} : parent.lexeme = x.lexeme →
      Breaks K (.inheritance x parent) .ownSuperclass

namespace Place

def breach? : Place → Option Breach
  | ⟨K, .declaration x⟩ =>
    if (K.names.getD []).contains x.lexeme then some .redeclared else none
  | ⟨K, .reading x⟩ =>
    if K.names.isSome ∧ K.pending = some x.lexeme then some .ownInitializer else none
  | ⟨K, .ret _ valued⟩ =>
    match K.body with
    | .none => some .strayReturn
    | .initializer => if valued then some .initializerValue else none
    | _ => none
  | ⟨K, .this _⟩ => if K.home = .none then some .strayThis else none
  | ⟨K, .super _⟩ =>
    match K.home with
    | .none => some .straySuper
    | .plain => some .noSuperclass
    | .derived => none
  | ⟨_, .inheritance x parent⟩ =>
    if parent.lexeme = x.lexeme then some .ownSuperclass else none

theorem breach?_eq_some {p : Place} {b : Breach} :
    p.breach? = some b ↔ Breaks p.around p.site b := by
  obtain ⟨⟨names, pending, body, home⟩, site⟩ := p
  constructor
  · intro h
    cases site with
    | declaration x =>
      cases names with
      | none => simp [breach?] at h
      | some xs =>
        simp only [breach?, Option.getD_some, List.contains_iff_mem,
          Option.ite_none_right_eq_some, Option.some.injEq] at h
        obtain ⟨hx, rfl⟩ := h
        exact .redeclared rfl hx
    | reading x =>
      cases names with
      | none => simp [breach?] at h
      | some xs =>
        simp only [breach?, Option.isSome_some, true_and, Option.ite_none_right_eq_some,
          Option.some.injEq] at h
        obtain ⟨hx, rfl⟩ := h
        exact .ownInitializer rfl hx
    | ret word valued =>
      cases body <;> cases valued <;> cases h
      · exact .strayReturn rfl
      · exact .strayReturn rfl
      · exact .initializerValue rfl
    | this word =>
      cases home <;> cases h
      exact .strayThis rfl
    | super word =>
      cases home <;> cases h
      · exact .straySuper rfl
      · exact .noSuperclass rfl
    | inheritance x parent =>
      simp only [breach?, Option.ite_none_right_eq_some, Option.some.injEq] at h
      obtain ⟨hx, rfl⟩ := h
      exact .ownSuperclass hx
  · intro h
    cases h with
    | redeclared hn hx => simp_all [breach?]
    | ownInitializer hn hx => simp_all [breach?]
    | strayReturn hb | initializerValue hb => simp_all [breach?]
    | strayThis hh | straySuper hh | noSuperclass hh => simp_all [breach?]
    | ownSuperclass hx => simp_all [breach?]

def fault? (p : Place) : Option Diagnostic :=
  p.breach?.map fun b => .atToken .resolving p.site.token b.message

end Place

/-- The faults to report at places. -/
def faults (ps : List Place) : List Diagnostic := ps.filterMap Place.fault?

theorem faults_append (ps qs : List Place) : faults (ps ++ qs) = faults ps ++ faults qs :=
  List.filterMap_append

theorem faults_eq_nil {ps : List Place} :
    faults ps = [] ↔ ∀ p ∈ ps, ∀ b, ¬ Place.Breaks p.around p.site b := by
  rw [faults, List.filterMap_eq_nil_iff]
  refine forall₂_congr fun p _ => ?_
  rw [Place.fault?, Option.map_eq_none_iff, Option.eq_none_iff_forall_ne_some]
  exact forall_congr' fun b => not_congr Place.breach?_eq_some

end Resolver

open Resolver

variable {μ : Type}

mutual
/-- The places of an expression, a value that is stored before the object that holds it. -/
def Expr.places (K : Surroundings) : Expr μ → List Place
  | .literal _ => []
  | .grouping e | .unary _ e | .assign _ e | .get e _ => e.places K
  | .binary l _ r | .logical l _ r => l.places K ++ r.places K
  | .var ref => [⟨K, .reading ref.name⟩]
  | .call f _ args => f.places K ++ Expr.placesAll K args
  | .set o _ v => v.places K ++ o.places K
  | .this ref => [⟨K, .this ref.name⟩]
  | .super ref _ => [⟨K, .super ref.name⟩]

def Expr.placesAll (K : Surroundings) : List (Expr μ) → List Place
  | [] => []
  | e :: es => e.places K ++ Expr.placesAll K es
end

def Expr.places? (K : Surroundings) : Option (Expr μ) → List Place
  | none => []
  | some e => e.places K

/-- The names that a statement declares in the scope around it. -/
def Stmt.declares : Stmt μ → List Text
  | .varDecl x _ | .classDecl x _ _ => [x.lexeme]
  | .funDecl f => [f.name.lexeme]
  | .ifThen _ s | .loop _ s => s.declares
  | .ifElse _ s t => s.declares ++ t.declares
  | .expression _ | .print _ | .block _ | .ret _ _ => []

def Stmt.parentPlaces (K : Surroundings) (x : Token) : Option (Reference μ) → List Place
  | none => []
  | some ref => [⟨K, .inheritance x ref.name⟩, ⟨K, .reading ref.name⟩]

def Stmt.paramPlaces (K : Surroundings) : List Token → List Place
  | [] => []
  | p :: ps => ⟨K, .declaration p⟩ :: Stmt.paramPlaces (K.declare [p.lexeme]) ps

mutual
/-- The places of a statement in the order of its text, but for values that are stored. -/
def Stmt.places (K : Surroundings) : Stmt μ → List Place
  | .expression e | .print e => e.places K
  | .varDecl x init =>
    ⟨K, .declaration x⟩ :: Expr.places? (K.initializing x.lexeme) init
  | .block body => Stmt.placesAll K.enter body
  | .ifThen c s | .loop c s => c.places K ++ s.places K
  | .ifElse c s t => c.places K ++ s.places K ++ t.places (K.declare s.declares)
  | .funDecl f => ⟨K, .declaration f.name⟩ :: Stmt.routinePlaces K .function f
  | .ret word value => ⟨K, .ret word value.isSome⟩ :: Expr.places? K value
  | .classDecl x sup methods =>
    ⟨K, .declaration x⟩ :: Stmt.parentPlaces (K.declare [x.lexeme]) x sup ++
      Stmt.methodPlaces (K.inClass sup.isSome) methods

/-- The places of statements that follow one another. -/
def Stmt.placesAll (K : Surroundings) : List (Stmt μ) → List Place
  | [] => []
  | s :: ss => s.places K ++ Stmt.placesAll (K.declare s.declares) ss

def Stmt.routinePlaces (K : Surroundings) (kind : Body) : Routine (Stmt μ) → List Place
  | ⟨_, params, body⟩ =>
    Stmt.paramPlaces (K.inRoutine kind) params ++
      Stmt.placesAll ((K.inRoutine kind).declare (params.map Token.lexeme)) body

def Stmt.methodPlaces (K : Surroundings) : List (Routine (Stmt μ)) → List Place
  | [] => []
  | f :: fs => Stmt.routinePlaces K (methodBody f.name) f ++ Stmt.methodPlaces K fs
end

end LoxLang
