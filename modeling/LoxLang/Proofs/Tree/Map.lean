import LoxLang.Tree

namespace LoxLang
set_option autoImplicit true

def Reference.map (f : μ → ν) (φ : Token → Token) (ref : Reference μ) : Reference ν :=
  ⟨φ ref.name, f ref.mark⟩

mutual
/-- Changes every mark and every token of an expression. -/
def Expr.map (f : μ → ν) (φ : Token → Token) : Expr μ → Expr ν
  | .literal v => .literal v
  | .grouping e => .grouping (e.map f φ)
  | .unary op e => .unary (φ op) (e.map f φ)
  | .binary l op r => .binary (l.map f φ) (φ op) (r.map f φ)
  | .logical l op r => .logical (l.map f φ) (φ op) (r.map f φ)
  | .var ref => .var (ref.map f φ)
  | .assign ref e => .assign (ref.map f φ) (e.map f φ)
  | .call e paren es => .call (e.map f φ) (φ paren) (Expr.mapAll f φ es)
  | .get o name => .get (o.map f φ) (φ name)
  | .set o name e => .set (o.map f φ) (φ name) (e.map f φ)
  | .this ref => .this (ref.map f φ)
  | .super ref method => .super (ref.map f φ) (φ method)

def Expr.mapAll (f : μ → ν) (φ : Token → Token) : List (Expr μ) → List (Expr ν)
  | [] => []
  | e :: es => e.map f φ :: Expr.mapAll f φ es
end

@[simp] theorem Expr.mapAll_eq (f : μ → ν) (φ : Token → Token) (es : List (Expr μ)) :
    Expr.mapAll f φ es = es.map (Expr.map f φ) := by
  induction es with
  | nil => rfl
  | cons e es ih => simp only [Expr.mapAll, ih, List.map_cons]

mutual
/-- Changes every mark and every token of a statement. -/
def Stmt.map (f : μ → ν) (φ : Token → Token) : Stmt μ → Stmt ν
  | .expression e => .expression (e.map f φ)
  | .print e => .print (e.map f φ)
  | .varDecl name init => .varDecl (φ name) (init.map (Expr.map f φ))
  | .block body => .block (Stmt.mapAll f φ body)
  | .ifThen c s => .ifThen (c.map f φ) (s.map f φ)
  | .ifElse c s t => .ifElse (c.map f φ) (s.map f φ) (t.map f φ)
  | .loop c s => .loop (c.map f φ) (s.map f φ)
  | .funDecl r => .funDecl (Stmt.mapRoutine f φ r)
  | .ret keyword value => .ret (φ keyword) (value.map (Expr.map f φ))
  | .classDecl name sup methods =>
    .classDecl (φ name) (sup.map (Reference.map f φ)) (Stmt.mapRoutines f φ methods)

def Stmt.mapAll (f : μ → ν) (φ : Token → Token) : List (Stmt μ) → List (Stmt ν)
  | [] => []
  | s :: ss => s.map f φ :: Stmt.mapAll f φ ss

def Stmt.mapRoutine (f : μ → ν) (φ : Token → Token) :
    Routine (Stmt μ) → Routine (Stmt ν)
  | ⟨name, params, body⟩ => ⟨φ name, params.map φ, Stmt.mapAll f φ body⟩

def Stmt.mapRoutines (f : μ → ν) (φ : Token → Token) :
    List (Routine (Stmt μ)) → List (Routine (Stmt ν))
  | [] => []
  | r :: rs => Stmt.mapRoutine f φ r :: Stmt.mapRoutines f φ rs
end

@[simp] theorem Stmt.mapAll_eq (f : μ → ν) (φ : Token → Token) (ss : List (Stmt μ)) :
    Stmt.mapAll f φ ss = ss.map (Stmt.map f φ) := by
  induction ss with
  | nil => rfl
  | cons s ss ih => simp only [Stmt.mapAll, ih, List.map_cons]

@[simp] theorem Stmt.mapRoutines_eq (f : μ → ν) (φ : Token → Token)
    (rs : List (Routine (Stmt μ))) :
    Stmt.mapRoutines f φ rs = rs.map (Stmt.mapRoutine f φ) := by
  induction rs with
  | nil => rfl
  | cons r rs ih => simp only [Stmt.mapRoutines, ih, List.map_cons]

/-- An expression without its marks. -/
def Expr.erase (e : Expr μ) : Expr Unit := e.map (fun _ => ()) id

theorem Expr.erase_call (f : Expr μ) (paren : Token) (args : List (Expr μ)) :
    (Expr.call f paren args).erase = .call f.erase paren (args.map Expr.erase) := by
  simp only [Expr.erase, Expr.map, Expr.mapAll_eq, id]
  rfl

/-- A statement without its marks. -/
def Stmt.erase (s : Stmt μ) : Stmt Unit := s.map (fun _ => ()) id

/-- A routine without its marks. -/
def Routine.erase (r : Routine (Stmt μ)) : Routine (Stmt Unit) := Stmt.mapRoutine (fun _ => ()) id r

theorem Stmt.erase_block (body : List (Stmt μ)) :
    (Stmt.block body).erase = .block (body.map Stmt.erase) := by
  simp only [Stmt.erase, Stmt.map, Stmt.mapAll_eq]
  rfl

theorem Stmt.erase_classDecl (name : Token) (sup : Option (Reference μ))
    (methods : List (Routine (Stmt μ))) :
    (Stmt.classDecl name sup methods).erase =
      .classDecl name (sup.map (Reference.map (fun _ => ()) id)) (methods.map Routine.erase) := by
  simp only [Stmt.erase, Stmt.map, Stmt.mapRoutines_eq, id]
  rfl

theorem Routine.erase_mk (name : Token) (params : List Token) (body : List (Stmt μ)) :
    (Routine.mk name params body).erase = ⟨name, params, body.map Stmt.erase⟩ := by
  simp only [Routine.erase, Stmt.mapRoutine, Stmt.mapAll_eq, id, List.map_id_fun]
  rfl

section
variable {μ ν ξ : Type} (f : μ → ν) (g : ν → ξ) (φ ψ : Token → Token)

mutual
theorem Expr.map_map (e : Expr μ) : (e.map f φ).map g ψ = e.map (g ∘ f) (ψ ∘ φ) := by
  cases e with
  | literal | var | this | super => rfl
  | grouping e => exact congrArg Expr.grouping (Expr.map_map e)
  | unary op e => exact congrArg (Expr.unary _) (Expr.map_map e)
  | binary l op r => simp only [Expr.map, Expr.map_map l, Expr.map_map r, Function.comp]
  | logical l op r => simp only [Expr.map, Expr.map_map l, Expr.map_map r, Function.comp]
  | assign ref e => exact congrArg (Expr.assign _) (Expr.map_map e)
  | call h paren args => simp only [Expr.map, Expr.map_map h, Expr.mapAll_mapAll args, Function.comp]
  | get o name => simp only [Expr.map, Expr.map_map o, Function.comp]
  | set o name e => simp only [Expr.map, Expr.map_map o, Expr.map_map e, Function.comp]

theorem Expr.mapAll_mapAll (es : List (Expr μ)) :
    Expr.mapAll g ψ (Expr.mapAll f φ es) = Expr.mapAll (g ∘ f) (ψ ∘ φ) es := by
  cases es with
  | nil => rfl
  | cons e es => simp only [Expr.mapAll, Expr.map_map e, Expr.mapAll_mapAll es]
end

theorem Expr.map?_map? (o : Option (Expr μ)) :
    (o.map (Expr.map f φ)).map (Expr.map g ψ) = o.map (Expr.map (g ∘ f) (ψ ∘ φ)) := by
  cases o with
  | none => rfl
  | some e => exact congrArg some (Expr.map_map f g φ ψ e)

mutual
theorem Stmt.map_map (s : Stmt μ) : (s.map f φ).map g ψ = s.map (g ∘ f) (ψ ∘ φ) := by
  cases s with
  | expression e => exact congrArg Stmt.expression (Expr.map_map f g φ ψ e)
  | print e => exact congrArg Stmt.print (Expr.map_map f g φ ψ e)
  | varDecl name init => exact congrArg (Stmt.varDecl _) (Expr.map?_map? f g φ ψ init)
  | block body => exact congrArg Stmt.block (Stmt.mapAll_mapAll body)
  | ifThen c s => simp only [Stmt.map, Expr.map_map, Stmt.map_map s]
  | ifElse c s t => simp only [Stmt.map, Expr.map_map, Stmt.map_map s, Stmt.map_map t]
  | loop c s => simp only [Stmt.map, Expr.map_map, Stmt.map_map s]
  | funDecl r => exact congrArg Stmt.funDecl (Stmt.mapRoutine_mapRoutine r)
  | ret word value => exact congrArg (Stmt.ret _) (Expr.map?_map? f g φ ψ value)
  | classDecl name sup methods =>
    simp only [Stmt.map, Option.map_map, Stmt.mapRoutines_mapRoutines methods]
    rfl

theorem Stmt.mapAll_mapAll (ss : List (Stmt μ)) :
    Stmt.mapAll g ψ (Stmt.mapAll f φ ss) = Stmt.mapAll (g ∘ f) (ψ ∘ φ) ss := by
  cases ss with
  | nil => rfl
  | cons s ss => simp only [Stmt.mapAll, Stmt.map_map s, Stmt.mapAll_mapAll ss]

theorem Stmt.mapRoutine_mapRoutine (r : Routine (Stmt μ)) :
    Stmt.mapRoutine g ψ (Stmt.mapRoutine f φ r) = Stmt.mapRoutine (g ∘ f) (ψ ∘ φ) r := by
  obtain ⟨name, params, body⟩ := r
  simp only [Stmt.mapRoutine, List.map_map, Stmt.mapAll_mapAll body, Function.comp]

theorem Stmt.mapRoutines_mapRoutines (rs : List (Routine (Stmt μ))) :
    Stmt.mapRoutines g ψ (Stmt.mapRoutines f φ rs) =
      Stmt.mapRoutines (g ∘ f) (ψ ∘ φ) rs := by
  cases rs with
  | nil => rfl
  | cons r rs =>
    simp only [Stmt.mapRoutines, Stmt.mapRoutine_mapRoutine r, Stmt.mapRoutines_mapRoutines rs]
end

end

theorem Stmt.erase_map (φ : Token → Token) (s : Stmt μ) :
    s.erase.map id φ = s.map (fun _ => ()) φ := Stmt.map_map _ _ id φ s

def Expr.mark? : Expr μ → Option μ
  | .var ref | .assign ref _ | .this ref | .super ref _ => some ref.mark
  | _ => none

mutual
def Expr.nodes : Expr μ → List (Expr μ)
  | .literal v => [.literal v]
  | .grouping e => .grouping e :: e.nodes
  | .unary op e => .unary op e :: e.nodes
  | .binary a op b => .binary a op b :: (a.nodes ++ b.nodes)
  | .logical a op b => .logical a op b :: (a.nodes ++ b.nodes)
  | .var ref => [.var ref]
  | .assign ref e => .assign ref e :: e.nodes
  | .call f paren args => .call f paren args :: (f.nodes ++ Expr.nodesAll args)
  | .get o x => .get o x :: o.nodes
  | .set o x e => .set o x e :: (o.nodes ++ e.nodes)
  | .this ref => [.this ref]
  | .super ref x => [.super ref x]

def Expr.nodesAll : List (Expr μ) → List (Expr μ)
  | [] => []
  | e :: es => e.nodes ++ Expr.nodesAll es
end

def Expr.nodes? : Option (Expr μ) → List (Expr μ)
  | none => []
  | some e => e.nodes

def Reference.nodes? : Option (Reference μ) → List (Expr μ)
  | none => []
  | some ref => [.var ref]

mutual
def Stmt.nodes : Stmt μ → List (Expr μ)
  | .expression e | .print e => e.nodes
  | .varDecl _ init => Expr.nodes? init
  | .block body => Stmt.nodesAll body
  | .ifThen c s | .loop c s => c.nodes ++ s.nodes
  | .ifElse c s t => c.nodes ++ (s.nodes ++ t.nodes)
  | .funDecl f => Stmt.routineNodes f
  | .ret _ value => Expr.nodes? value
  | .classDecl _ sup methods => Reference.nodes? sup ++ Stmt.routinesNodes methods

def Stmt.nodesAll : List (Stmt μ) → List (Expr μ)
  | [] => []
  | s :: ss => s.nodes ++ Stmt.nodesAll ss

def Stmt.routineNodes : Routine (Stmt μ) → List (Expr μ)
  | ⟨_, _, body⟩ => Stmt.nodesAll body

def Stmt.routinesNodes : List (Routine (Stmt μ)) → List (Expr μ)
  | [] => []
  | f :: fs => Stmt.routineNodes f ++ Stmt.routinesNodes fs
end

def Stmt.nodes? : Option (Stmt μ) → List (Expr μ)
  | none => []
  | some s => s.nodes

end LoxLang
