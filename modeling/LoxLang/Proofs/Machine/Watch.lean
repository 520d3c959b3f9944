import LoxLang.Machine.Eval
import LoxLang.Proofs.Resolver.Scoped

namespace LoxLang

/-- A scope that is being executed: the frame made for it and the names it has declared so far. -/
structure Activation where
  frame : FrameId
  names : List Text

/-- The activations of the scopes around a place, innermost first, the global one left out. -/
abbrev Display := List Activation

namespace Display

/-- Declares a name in the innermost scope. -/
def declare (x : Text) : Display → Display
  | [] => []
  | a :: Δ => { a with names := x :: a.names } :: Δ

def declare? (Δ : Display) : Option Text → Display
  | none => Δ
  | some x => Δ.declare x

def scopes (Δ : Display) : Scopes := Δ.map Activation.names

end Display

inductive Use where
  | read | this | assign | super
  deriving DecidableEq

/-- A reference at the moment it is evaluated: the name and its distance, the activations around it,
the current frame and the store. -/
structure Visit where
  use : Use
  name : Text
  mark : Distance
  display : Display
  current : FrameId
  store : Store

/-- A machine, the activations that each function was made in, by its serial number, and the
references evaluated so far. -/
structure Watched where
  machine : Machine
  homes : Nat → Display
  visits : List Visit

abbrev Watch := EStateM Stop Watched

namespace Watched

def lift {α : Type} (step : Eval α) : Watch α := fun w =>
  match step w.machine with
  | .ok a m => .ok a { w with machine := m }
  | .error e m => .error e { w with machine := m }

/-- Notes that the functions made from now on are made in these activations. -/
def open_ (Δ : Display) : Watch Unit := modify fun w =>
  { w with homes := fun n => if w.machine.store.serial ≤ n then Δ else w.homes n }

def visit (use : Use) (name : Text) (mark : Distance) (Δ : Display) (frame : FrameId) :
    Watch Unit := modify fun w =>
  { w with visits := w.visits ++ [⟨use, name, mark, Δ, frame, w.machine.store⟩] }

def refer (use : Use) (ref : Reference Distance) (Δ : Display) : Watch Unit := do
  visit use ref.name.lexeme ref.mark Δ (← get).machine.current

/-- Runs a step with another current frame and comes back, however the step ends. -/
def within {α : Type} (f : FrameId) (step : Watch α) : Watch α := fun w =>
  match step { w with machine := { w.machine with current := f } } with
  | .ok a w' => .ok a { w' with machine := { w'.machine with current := w.machine.current } }
  | .error e w' => .error e { w' with machine := { w'.machine with current := w.machine.current } }

/-- The activations around a method that is bound to an object now: a scope for `this` and those
that the method was made in. -/
def receiver (w : Watched) (method : Closure) : Display :=
  ⟨w.machine.store.frames.size, ["this"]⟩ :: w.homes method.serial

def methodHome (w : Watched) (c : Class) (name : Text) : Display :=
  match c.findMethod name with
  | some method => w.receiver method
  | none => []

def bindMethod (method : Closure) (v : Value) : Watch Closure := do
  open_ ((← get).receiver method)
  lift (Machine.bindMethod method v)

def property (id : Nat) (c : Class) (name : Token) : Watch Value := do
  open_ ((← get).methodHome c name.lexeme)
  lift (Machine.property id c name)

/-- The activations around a method of the superclass at this distance when it is bound now. -/
def superHome (w : Watched) (d : Distance) (method : Text) : Display :=
  match w.machine.store.getAt? w.machine.current (d.getD 0) "super" with
  | some (.klass c) => w.methodHome c method
  | _ => []

def superMethod (d : Distance) (method : Token) : Watch Value := do
  open_ ((← get).superHome d method.lexeme)
  lift (Machine.superMethod d method)

/-- The activations around the methods of a class that is declared now. -/
def classHome (w : Watched) (superclass : Option Class) (Δ : Display) : Display :=
  match superclass with
  | some _ => ⟨w.machine.store.frames.size, ["super"]⟩ :: Δ
  | none => Δ

def declareClass (name : Token) (superclass : Option Class)
    (methods : List (Routine (Stmt Distance))) (Δ : Display) : Watch Unit := do
  open_ ((← get).classHome superclass Δ)
  lift (Machine.declareClass name superclass methods)

def declareFunction (r : Routine (Stmt Distance)) (Δ : Display) : Watch Unit := do
  open_ Δ
  let here := (← get).machine.current
  let f ← lift (Machine.close r here false)
  lift (Machine.bindVariable here r.name.lexeme (.function f))

variable (host : Host)

mutual
/-- The value of an expression with these activations around it. -/
def evaluate : Nat → Display → Expr Distance → Watch Value
  | 0, _, _ => throw .exhausted
  | n + 1, Δ, e =>
    match e with
    | .literal v => return Value.ofLiteral v
    | .grouping e => evaluate n Δ e
    | .unary op e => do
      let v ← evaluate n Δ e
      lift (Machine.negate op v)
    | .binary l op r => do
      let left ← evaluate n Δ l
      let right ← evaluate n Δ r
      lift (Machine.combine op left right)
    | .logical l op r => do
      let left ← evaluate n Δ l
      if left.truthy == (op.kind == .or) then return left else evaluate n Δ r
    | .var ref => do
      refer .read ref Δ
      lift (Machine.lookUp ref.name ref.mark)
    | .assign ref e => do
      let v ← evaluate n Δ e
      refer .assign ref Δ
      lift (Machine.assign ref.name ref.mark v)
      return v
    | .call f paren args => do
      let callee ← evaluate n Δ f
      let values ← arguments n Δ args
      match Machine.arity? host callee with
      | none => lift (Machine.fault paren "Can only call functions and classes.")
      | some k =>
        if values.length = k then call n callee values
        else
          lift (Machine.fault paren ("Expected " ++ Text.ofNat k ++ " arguments but got " ++
            Text.ofNat values.length ++ "."))
    | .get o name => do
      match ← evaluate n Δ o with
      | .object id c => property id c name
      | _ => lift (Machine.fault name "Only instances have properties.")
    | .set o name e => do
      match ← evaluate n Δ o with
      | .object id _ =>
        let v ← evaluate n Δ e
        lift (modify fun m => { m with store := m.store.setField id name.lexeme v })
        return v
      | _ => lift (Machine.fault name "Only instances have fields.")
    | .this ref => do
      refer .this ref Δ
      lift (Machine.lookUp ref.name ref.mark)
    | .super ref method => do
      refer .super ref Δ
      superMethod ref.mark method

def arguments : Nat → Display → List (Expr Distance) → Watch (List Value)
  | 0, _, _ => throw .exhausted
  | _ + 1, _, [] => return []
  | n + 1, Δ, e :: es => do
    let v ← evaluate n Δ e
    return v :: (← arguments n Δ es)

/-- Calls a value, without counting its arguments. -/
def call : Nat → Value → List Value → Watch Value
  | 0, _, _ => throw .exhausted
  | n + 1, callee, args =>
    match callee with
    | .function f => invoke n f args
    | .klass c => do
      let id ← lift Machine.newObject
      match c.initializer? with
      | some init =>
        let bound ← bindMethod init (.object id c)
        let _ ← invoke n bound args
        return .object id c
      | none => return .object id c
    | .native i =>
      match host.natives[i]? with
      | some native =>
        (native.run host.now args).perform (fun q => lift (Machine.serve host q)) property
          fun v vs => call n v vs
      | none => lift (Machine.crash .missingNative)
    | _ => lift (Machine.crash .missingValue)

/-- Runs a function body in a frame of its own. The frame that holds the receiver of an initializer
is read in the end. -/
def invoke : Nat → Closure → List Value → Watch Value
  | 0, _, _ => throw .exhausted
  | n + 1, f, args => do
    let home := (← get).homes f.serial
    let frame ← lift (Machine.newFrame f.frame)
    lift (Machine.bindParams frame f.routine.params args)
    let inner : Activation := ⟨frame, (f.routine.params.map Token.lexeme).reverse⟩
    let done ← within frame (run n (inner :: home) f.routine.body)
    if f.isInitializer then
      visit .this "this" (some 0) home f.frame
      match (← get).machine.store.getAt? f.frame 0 "this" with
      | some v => return v
      | none => lift (Machine.crash .missingFrame)
    else match done with
      | .returned v => return v
      | .normal => return .nil

/-- Runs statements in order until one returns. -/
def run : Nat → Display → List (Stmt Distance) → Watch Completion
  | 0, _, _ => throw .exhausted
  | _ + 1, _, [] => return .normal
  | n + 1, Δ, s :: ss => do
    match ← execute n Δ s with
    | .normal => run n (Δ.declare? s.declared?) ss
    | .returned v => return .returned v

def execute : Nat → Display → Stmt Distance → Watch Completion
  | 0, _, _ => throw .exhausted
  | n + 1, Δ, s =>
    match s with
    | .expression e => do
      let _ ← evaluate n Δ e
      return .normal
    | .print e => do
      let v ← evaluate n Δ e
      lift (Machine.print v)
      return .normal
    | .varDecl name init => do
      let v ← match init with
        | some e => evaluate n (Δ.declare name.lexeme) e
        | none => pure .nil
      lift (Machine.bindVariable (← get).machine.current name.lexeme v)
      return .normal
    | .block body => do
      let frame ← lift (Machine.newFrame (← get).machine.current)
      within frame (run n (⟨frame, []⟩ :: Δ) body)
    | .ifThen c s => do
      if (← evaluate n Δ c).truthy then execute n Δ s else return .normal
    | .ifElse c s t => do
      if (← evaluate n Δ c).truthy then execute n Δ s else execute n Δ t
    | .loop c s => loop n Δ c s
    | .funDecl r => do
      declareFunction r (Δ.declare r.name.lexeme)
      return .normal
    | .ret _ value => do
      let v ← match value with
        | some e => evaluate n Δ e
        | none => pure .nil
      return .returned v
    | .classDecl name sup methods => do
      let superclass ← match sup with
        | some ref => do
          match ← evaluate n (Δ.declare name.lexeme) (.var ref) with
          | .klass c => pure (some c)
          | _ => lift (Machine.fault ref.name "Superclass must be a class.")
        | none => pure none
      declareClass name superclass methods (Δ.declare name.lexeme)
      return .normal

/-- Runs a loop, which looks for an interruption before each round. -/
def loop : Nat → Display → Expr Distance → Stmt Distance → Watch Completion
  | 0, _, _, _ => throw .exhausted
  | n + 1, Δ, c, s => do
    lift (Machine.heed host)
    if (← evaluate n Δ c).truthy then
      match ← execute n Δ s with
      | .normal => loop n Δ c s
      | .returned v => return .returned v
    else return .normal
end

/-- Runs the statements of a program, looking for an interruption before each. -/
def statements (steps : Nat) : List (Stmt Distance) → Watch Unit
  | [] => return ()
  | s :: ss => do
    lift (Machine.heed host)
    let _ ← execute host steps [] s
    statements steps ss

end Watched

end LoxLang
