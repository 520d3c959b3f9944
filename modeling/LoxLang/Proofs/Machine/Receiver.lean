import LoxLang.Proofs.Machine.Watch

namespace LoxLang

namespace Class

/-- The class and its ancestors, nearest first. -/
def lineage : Class → List Class
  | mk serial name superclass methods =>
    mk serial name superclass methods ::
      match superclass with
      | some c => c.lineage
      | none => []

def nearest? (name : Text) (c : Class) : Option Closure := c.lineage.findSome? (·.methods.get? name)

theorem nearest?_mk (name : Text) (serial : Nat) (x : Text) (superclass : Option Class)
    (methods : Dict Closure) : (mk serial x superclass methods).nearest? name =
      match methods.get? name with
      | some m => some m
      | none => superclass.bind (·.nearest? name) := by
  unfold nearest?
  cases hm : methods.get? name <;> cases superclass <;> simp [lineage, Class.methods, hm]

theorem findMethod_eq (name : Text) (c : Class) : c.findMethod name = c.nearest? name := by
  fun_induction c.findMethod name with
  | case1 _ _ _ _ _ hm => rw [nearest?_mk, hm]
  | case2 _ _ _ hnone _ ih => rw [nearest?_mk, hnone, ih, Option.bind_some]
  | case3 _ _ _ hnone => rw [nearest?_mk, hnone, Option.bind_none]

end Class

/-- What the innermost method around a place is bound to, and the superclass that its class was
declared with. -/
structure Context where
  receiver : Option (Nat × Class)
  parent : Option Class

def Context.outside : Context := ⟨none, none⟩

/-- Where a function was made: the context of its body, and for a method that is not bound yet the
superclass that its class was declared with. -/
structure Origin where
  context : Context
  parent : Option Class

/-- An expression whose evaluation has ended: its value unless it failed, the context around it and
the machine in the end. -/
structure Sight where
  expr : Expr Distance
  value : Option Value
  context : Context
  machine : Machine

/-- A machine, the origin of each function by its serial number, and the expressions evaluated so
far. -/
structure Anchored where
  machine : Machine
  origins : Nat → Origin
  sights : List Sight

/-- A step of a machine that knows receivers from the text. -/
abbrev Anchor := EStateM Stop Anchored

namespace Anchored

def lift {α : Type} (step : Eval α) : Anchor α := fun a =>
  match step a.machine with
  | .ok x m => .ok x { a with machine := m }
  | .error e m => .error e { a with machine := m }

def open_ (o : Origin) : Anchor Unit := modify fun a =>
  { a with origins := fun n => if a.machine.store.serial ≤ n then o else a.origins n }

def note (a : Anchored) (ctx : Context) (e : Expr Distance) (v : Option Value) : Anchored :=
  { a with sights := a.sights ++ [⟨e, v, ctx, a.machine⟩] }

/-- Evaluates an expression by a step and notes it, however the step ends. -/
def sighted (ctx : Context) (e : Expr Distance) (step : Anchor Value) : Anchor Value := fun a =>
  match step a with
  | .ok v a' => .ok v (a'.note ctx e (some v))
  | .error stop a' => .error stop (a'.note ctx e none)

/-- Runs a step with another current frame and comes back, however the step ends. -/
def within {α : Type} (f : FrameId) (step : Anchor α) : Anchor α := fun a =>
  match step { a with machine := { a.machine with current := f } } with
  | .ok x a' => .ok x { a' with machine := { a'.machine with current := a.machine.current } }
  | .error e a' => .error e { a' with machine := { a'.machine with current := a.machine.current } }

def bound (a : Anchored) (method : Closure) (id : Nat) (c : Class) : Origin :=
  ⟨⟨some (id, c), (a.origins method.serial).parent⟩, none⟩

def bindMethod (method : Closure) (id : Nat) (c : Class) : Anchor Closure := do
  open_ ((← get).bound method id c)
  lift (Machine.bindMethod method (.object id c))

/-- A field of an object, or else the nearest method of its class bound to it. -/
def property (id : Nat) (c : Class) (name : Token) : Anchor Value := do
  match ((← get).machine.store.fields id).get? name.lexeme with
  | some v => return v
  | none =>
    match c.nearest? name.lexeme with
    | some method => return .function (← bindMethod method id c)
    | none => lift (throw (.fault (.undefinedProperty name)))

/-- The object that the innermost method is bound to. -/
def this (ctx : Context) : Anchor Value :=
  match ctx.receiver with
  | some (id, c) => return .object id c
  | none => lift (Machine.crash .missingFrame)

/-- The nearest method at or above the superclass of the innermost method's class, bound to the
object that the innermost method is bound to. -/
def superMethod (ctx : Context) (name : Token) : Anchor Value :=
  match ctx.receiver, ctx.parent with
  | some (id, c), some parent =>
    match parent.nearest? name.lexeme with
    | some method => return .function (← bindMethod method id c)
    | none => lift (throw (.fault (.undefinedProperty name)))
  | _, _ => lift (Machine.crash .missingFrame)

def declareClass (name : Token) (superclass : Option Class)
    (methods : List (Routine (Stmt Distance))) (ctx : Context) : Anchor Unit := do
  open_ ⟨ctx, superclass⟩
  lift (Machine.declareClass name superclass methods)

def declareFunction (r : Routine (Stmt Distance)) (ctx : Context) : Anchor Unit := do
  open_ ⟨ctx, none⟩
  let here := (← get).machine.current
  let f ← lift (Machine.close r here false)
  lift (Machine.bindVariable here r.name.lexeme (.function f))

variable (host : Host)

mutual
def evaluate : Nat → Context → Expr Distance → Anchor Value
  | 0, _, _ => throw .exhausted
  | n + 1, ctx, e => sighted ctx e <|
    match e with
    | .literal v => return Value.ofLiteral v
    | .grouping e => evaluate n ctx e
    | .unary op e => do
      let v ← evaluate n ctx e
      lift (Machine.negate op v)
    | .binary l op r => do
      let left ← evaluate n ctx l
      let right ← evaluate n ctx r
      lift (Machine.combine op left right)
    | .logical l op r => do
      let left ← evaluate n ctx l
      if left.truthy == (op.kind == .or) then return left else evaluate n ctx r
    | .var ref => lift (Machine.lookUp ref.name ref.mark)
    | .assign ref e => do
      let v ← evaluate n ctx e
      lift (Machine.assign ref.name ref.mark v)
      return v
    | .call f paren args => do
      let callee ← evaluate n ctx f
      let values ← arguments n ctx args
      match Machine.arity? host callee with
      | none => lift (Machine.fault paren "Can only call functions and classes.")
      | some k =>
        if values.length = k then call n callee values
        else
          lift (Machine.fault paren ("Expected " ++ Text.ofNat k ++ " arguments but got " ++
            Text.ofNat values.length ++ "."))
    | .get o name => do
      match ← evaluate n ctx o with
      | .object id c => property id c name
      | _ => lift (Machine.fault name "Only instances have properties.")
    | .set o name e => do
      match ← evaluate n ctx o with
      | .object id _ =>
        let v ← evaluate n ctx e
        lift (modify fun m => { m with store := m.store.setField id name.lexeme v })
        return v
      | _ => lift (Machine.fault name "Only instances have fields.")
    | .this _ => this ctx
    | .super _ name => superMethod ctx name

def arguments : Nat → Context → List (Expr Distance) → Anchor (List Value)
  | 0, _, _ => throw .exhausted
  | _ + 1, _, [] => return []
  | n + 1, ctx, e :: es => do
    let v ← evaluate n ctx e
    return v :: (← arguments n ctx es)

/-- Calls a value, without counting its arguments. -/
def call : Nat → Value → List Value → Anchor Value
  | 0, _, _ => throw .exhausted
  | n + 1, callee, args =>
    match callee with
    | .function f => invoke n f args
    | .klass c => do
      let id ← lift Machine.newObject
      match c.nearest? "init" with
      | some init =>
        let bound ← bindMethod init id c
        let _ ← invoke n bound args
        return .object id c
      | none => return .object id c
    | .native i =>
      match host.natives[i]? with
      | some native =>
        (native.run host.now args).perform (fun q => lift (Machine.serve host q)) property
          fun v vs => call n v vs
      | none => lift (Machine.crash .missingNative)
    | _ => lift (Machine.crash .missingValue)

/-- Runs a function body in a frame of its own and in the context it was made in. An initializer
yields the object of that context. -/
def invoke : Nat → Closure → List Value → Anchor Value
  | 0, _, _ => throw .exhausted
  | n + 1, f, args => do
    let ctx := ((← get).origins f.serial).context
    let frame ← lift (Machine.newFrame f.frame)
    lift (Machine.bindParams frame f.routine.params args)
    let done ← within frame (run n ctx f.routine.body)
    if f.isInitializer then this ctx
    else match done with
      | .returned v => return v
      | .normal => return .nil

/-- Runs statements in order until one returns. -/
def run : Nat → Context → List (Stmt Distance) → Anchor Completion
  | 0, _, _ => throw .exhausted
  | _ + 1, _, [] => return .normal
  | n + 1, ctx, s :: ss => do
    match ← execute n ctx s with
    | .normal => run n ctx ss
    | .returned v => return .returned v

def execute : Nat → Context → Stmt Distance → Anchor Completion
  | 0, _, _ => throw .exhausted
  | n + 1, ctx, s =>
    match s with
    | .expression e => do
      let _ ← evaluate n ctx e
      return .normal
    | .print e => do
      let v ← evaluate n ctx e
      lift (Machine.print v)
      return .normal
    | .varDecl name init => do
      let v ← match init with
        | some e => evaluate n ctx e
        | none => pure .nil
      lift (Machine.bindVariable (← get).machine.current name.lexeme v)
      return .normal
    | .block body => do
      let frame ← lift (Machine.newFrame (← get).machine.current)
      within frame (run n ctx body)
    | .ifThen c s => do
      if (← evaluate n ctx c).truthy then execute n ctx s else return .normal
    | .ifElse c s t => do
      if (← evaluate n ctx c).truthy then execute n ctx s else execute n ctx t
    | .loop c s => loop n ctx c s
    | .funDecl r => do
      declareFunction r ctx
      return .normal
    | .ret _ value => do
      let v ← match value with
        | some e => evaluate n ctx e
        | none => pure .nil
      return .returned v
    | .classDecl name sup methods => do
      let superclass ← match sup with
        | some ref => do
          match ← evaluate n ctx (.var ref) with
          | .klass c => pure (some c)
          | _ => lift (Machine.fault ref.name "Superclass must be a class.")
        | none => pure none
      declareClass name superclass methods ctx
      return .normal

/-- Runs a loop, which looks for an interruption before each round. -/
def loop : Nat → Context → Expr Distance → Stmt Distance → Anchor Completion
  | 0, _, _, _ => throw .exhausted
  | n + 1, ctx, c, s => do
    lift (Machine.heed host)
    if (← evaluate n ctx c).truthy then
      match ← execute n ctx s with
      | .normal => loop n ctx c s
      | .returned v => return .returned v
    else return .normal
end

/-- Runs the statements of a program, looking for an interruption before each. -/
def statements (steps : Nat) : List (Stmt Distance) → Anchor Unit
  | [] => return ()
  | s :: ss => do
    lift (Machine.heed host)
    let _ ← execute host steps .outside s
    statements steps ss

end Anchored

end LoxLang
