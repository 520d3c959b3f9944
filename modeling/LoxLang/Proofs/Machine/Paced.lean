import LoxLang.Machine.Eval

namespace LoxLang

/-- A machine, and what it was when each statement of the program and each round of a loop began. -/
structure Paced where
  machine : Machine
  heads : List Machine

/-- A step of a machine that takes note of its heads. -/
abbrev Pace := EStateM Stop Paced

namespace Paced

def lift {α : Type} (step : Eval α) : Pace α := fun w =>
  match step w.machine with
  | .ok a m => .ok a { w with machine := m }
  | .error e m => .error e { w with machine := m }

/-- Notes that a statement of the program or a round of a loop begins, unless the run is told to
stop. -/
def begin (host : Host) : Pace Unit := do
  let m := (← get).machine
  lift (Machine.heed host)
  modify fun w => { w with heads := w.heads ++ [m] }

/-- Runs a step with another current frame and comes back, however the step ends. -/
def within {α : Type} (f : FrameId) (step : Pace α) : Pace α := fun w =>
  match step { w with machine := { w.machine with current := f } } with
  | .ok a w' => .ok a { w' with machine := { w'.machine with current := w.machine.current } }
  | .error e w' => .error e { w' with machine := { w'.machine with current := w.machine.current } }

variable (host : Host)

mutual
def evaluate : Nat → Expr Distance → Pace Value
  | 0, _ => throw .exhausted
  | n + 1, e =>
    match e with
    | .literal v => return Value.ofLiteral v
    | .grouping e => evaluate n e
    | .unary op e => do
      let v ← evaluate n e
      lift (Machine.negate op v)
    | .binary l op r => do
      let left ← evaluate n l
      let right ← evaluate n r
      lift (Machine.combine op left right)
    | .logical l op r => do
      let left ← evaluate n l
      if left.truthy == (op.kind == .or) then return left else evaluate n r
    | .var ref => lift (Machine.lookUp ref.name ref.mark)
    | .assign ref e => do
      let v ← evaluate n e
      lift (Machine.assign ref.name ref.mark v)
      return v
    | .call f paren args => do
      let callee ← evaluate n f
      let values ← arguments n args
      match Machine.arity? host callee with
      | none => lift (Machine.fault paren "Can only call functions and classes.")
      | some k =>
        if values.length = k then call n callee values
        else
          lift (Machine.fault paren ("Expected " ++ Text.ofNat k ++ " arguments but got " ++
            Text.ofNat values.length ++ "."))
    | .get o name => do
      match ← evaluate n o with
      | .object id c => lift (Machine.property id c name)
      | _ => lift (Machine.fault name "Only instances have properties.")
    | .set o name e => do
      match ← evaluate n o with
      | .object id _ =>
        let v ← evaluate n e
        lift (modify fun m => { m with store := m.store.setField id name.lexeme v })
        return v
      | _ => lift (Machine.fault name "Only instances have fields.")
    | .this ref => lift (Machine.lookUp ref.name ref.mark)
    | .super ref method => lift (Machine.superMethod ref.mark method)

def arguments : Nat → List (Expr Distance) → Pace (List Value)
  | 0, _ => throw .exhausted
  | _ + 1, [] => return []
  | n + 1, e :: es => do
    let v ← evaluate n e
    return v :: (← arguments n es)

/-- Calls a value, without counting its arguments. -/
def call : Nat → Value → List Value → Pace Value
  | 0, _, _ => throw .exhausted
  | n + 1, callee, args =>
    match callee with
    | .function f => invoke n f args
    | .klass c => do
      let id ← lift Machine.newObject
      match c.initializer? with
      | some init =>
        let bound ← lift (Machine.bindMethod init (.object id c))
        let _ ← invoke n bound args
        return .object id c
      | none => return .object id c
    | .native i =>
      match host.natives[i]? with
      | some native =>
        (native.run host.now args).perform (fun q => lift (Machine.serve host q))
          (fun id c name => lift (Machine.property id c name)) fun v vs => call n v vs
      | none => lift (Machine.crash .missingNative)
    | _ => lift (Machine.crash .missingValue)

/-- Runs a function body in a frame of its own. An initializer yields its receiver. -/
def invoke : Nat → Closure → List Value → Pace Value
  | 0, _, _ => throw .exhausted
  | n + 1, f, args => do
    let frame ← lift (Machine.newFrame f.frame)
    lift (Machine.bindParams frame f.routine.params args)
    let done ← within frame (run n f.routine.body)
    if f.isInitializer then
      match (← get).machine.store.getAt? f.frame 0 "this" with
      | some v => return v
      | none => lift (Machine.crash .missingFrame)
    else match done with
      | .returned v => return v
      | .normal => return .nil

/-- Runs statements in order until one returns. -/
def run : Nat → List (Stmt Distance) → Pace Completion
  | 0, _ => throw .exhausted
  | _ + 1, [] => return .normal
  | n + 1, s :: ss => do
    match ← execute n s with
    | .normal => run n ss
    | .returned v => return .returned v

def execute : Nat → Stmt Distance → Pace Completion
  | 0, _ => throw .exhausted
  | n + 1, s =>
    match s with
    | .expression e => do
      let _ ← evaluate n e
      return .normal
    | .print e => do
      let v ← evaluate n e
      lift (Machine.print v)
      return .normal
    | .varDecl name init => do
      let v ← match init with
        | some e => evaluate n e
        | none => pure .nil
      lift (Machine.bindVariable (← get).machine.current name.lexeme v)
      return .normal
    | .block body => do
      let frame ← lift (Machine.newFrame (← get).machine.current)
      within frame (run n body)
    | .ifThen c s => do
      if (← evaluate n c).truthy then execute n s else return .normal
    | .ifElse c s t => do
      if (← evaluate n c).truthy then execute n s else execute n t
    | .loop c s => loop n c s
    | .funDecl r => do
      let here := (← get).machine.current
      let f ← lift (Machine.close r here false)
      lift (Machine.bindVariable here r.name.lexeme (.function f))
      return .normal
    | .ret _ value => do
      let v ← match value with
        | some e => evaluate n e
        | none => pure .nil
      return .returned v
    | .classDecl name sup methods => do
      let superclass ← match sup with
        | some ref => do
          match ← evaluate n (.var ref) with
          | .klass c => pure (some c)
          | _ => lift (Machine.fault ref.name "Superclass must be a class.")
        | none => pure none
      lift (Machine.declareClass name superclass methods)
      return .normal

/-- Runs a loop, of which each round is noted. -/
def loop : Nat → Expr Distance → Stmt Distance → Pace Completion
  | 0, _, _ => throw .exhausted
  | n + 1, c, s => do
    begin host
    if (← evaluate n c).truthy then
      match ← execute n s with
      | .normal => loop n c s
      | .returned v => return .returned v
    else return .normal
end

/-- Runs the statements of a program, each of which is noted. -/
def statements (steps : Nat) : List (Stmt Distance) → Pace Unit
  | [] => return ()
  | s :: ss => do
    begin host
    let _ ← execute host steps s
    statements steps ss

end Paced

end LoxLang
