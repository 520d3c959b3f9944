import LoxLang.Machine.Eval

namespace LoxLang

/-- Something that is noted. A call goes by the number of things noted before it; outside of every
call there is no number. -/
inductive Event where
  | enters (call : Nat) (f : Closure)
  | begins (call : Option Nat) (s : Stmt Distance)
  | raises (call : Option Nat) (v : Value)
  | leaves (call : Nat) (done : Completion)
  /-- The body of a function stops before its end. -/
  | breaks (call : Nat)
  | ends (done : Completion)

def Event.call? : Event → Option Nat
  | enters k _ | leaves k _ | breaks k => some k
  | begins call _ | raises call _ => call
  | ends _ => none

def Event.over? : Event → Option Nat
  | leaves k _ | breaks k => some k
  | enters _ _ | begins _ _ | raises _ _ | ends _ => none

/-- A machine and its journal. -/
structure Journaled where
  machine : Machine
  events : List Event

abbrev Journal := EStateM Stop Journaled

namespace Journaled

def lift {α : Type} (step : Eval α) : Journal α := fun w =>
  match step w.machine with
  | .ok a m => .ok a { w with machine := m }
  | .error e m => .error e { w with machine := m }

def note (e : Event) : Journal Unit := modify fun w => { w with events := w.events ++ [e] }

/-- Runs a step with another current frame and comes back, however the step ends. -/
def within {α : Type} (f : FrameId) (step : Journal α) : Journal α := fun w =>
  match step { w with machine := { w.machine with current := f } } with
  | .ok a w' => .ok a { w' with machine := { w'.machine with current := w.machine.current } }
  | .error e w' => .error e { w' with machine := { w'.machine with current := w.machine.current } }

def calling (f : Closure) (body : Nat → Journal Completion) : Journal Completion := fun w =>
  let k := w.events.length
  match body k { w with events := w.events ++ [.enters k f] } with
  | .ok done w' => .ok done { w' with events := w'.events ++ [.leaves k done] }
  | .error e w' => .error e { w' with events := w'.events ++ [.breaks k] }

variable (host : Host)

mutual
/-- The value of an expression in this call. -/
def evaluate : Nat → Option Nat → Expr Distance → Journal Value
  | 0, _, _ => throw .exhausted
  | n + 1, here, e =>
    match e with
    | .literal v => return Value.ofLiteral v
    | .grouping e => evaluate n here e
    | .unary op e => do
      let v ← evaluate n here e
      lift (Machine.negate op v)
    | .binary l op r => do
      let left ← evaluate n here l
      let right ← evaluate n here r
      lift (Machine.combine op left right)
    | .logical l op r => do
      let left ← evaluate n here l
      if left.truthy == (op.kind == .or) then return left else evaluate n here r
    | .var ref => lift (Machine.lookUp ref.name ref.mark)
    | .assign ref e => do
      let v ← evaluate n here e
      lift (Machine.assign ref.name ref.mark v)
      return v
    | .call f paren args => do
      let callee ← evaluate n here f
      let values ← arguments n here args
      match Machine.arity? host callee with
      | none => lift (Machine.fault paren "Can only call functions and classes.")
      | some k =>
        if values.length = k then call n callee values
        else
          lift (Machine.fault paren ("Expected " ++ Text.ofNat k ++ " arguments but got " ++
            Text.ofNat values.length ++ "."))
    | .get o name => do
      match ← evaluate n here o with
      | .object id c => lift (Machine.property id c name)
      | _ => lift (Machine.fault name "Only instances have properties.")
    | .set o name e => do
      match ← evaluate n here o with
      | .object id _ =>
        let v ← evaluate n here e
        lift (modify fun m => { m with store := m.store.setField id name.lexeme v })
        return v
      | _ => lift (Machine.fault name "Only instances have fields.")
    | .this ref => lift (Machine.lookUp ref.name ref.mark)
    | .super ref method => lift (Machine.superMethod ref.mark method)

def arguments : Nat → Option Nat → List (Expr Distance) → Journal (List Value)
  | 0, _, _ => throw .exhausted
  | _ + 1, _, [] => return []
  | n + 1, here, e :: es => do
    let v ← evaluate n here e
    return v :: (← arguments n here es)

/-- Calls a value, without counting its arguments. -/
def call : Nat → Value → List Value → Journal Value
  | 0, _, _ => throw .exhausted
  | n + 1, callee, args =>
    match callee with
    | .function f => invoke n f args
    | .klass c => do
      let id ← lift Machine.newObject
      match c.initializer? with
      | some init =>
        let bound ← lift (Machine.bindMethod init (.object id c))
        let _ ← invoke n bound args
        return .object id c
      | none => return .object id c
    | .native i =>
      match host.natives[i]? with
      | some native =>
        (native.run host.now args).perform (fun q => lift (Machine.serve host q))
          (fun id c name => lift (Machine.property id c name)) fun v vs => call n v vs
      | none => lift (Machine.crash .missingNative)
    | _ => lift (Machine.crash .missingValue)

/-- Runs a function body in a frame of its own. An initializer yields its receiver. -/
def invoke : Nat → Closure → List Value → Journal Value
  | 0, _, _ => throw .exhausted
  | n + 1, f, args => do
    let frame ← lift (Machine.newFrame f.frame)
    lift (Machine.bindParams frame f.routine.params args)
    let done ← calling f fun k => within frame (run n (some k) f.routine.body)
    if f.isInitializer then
      match (← get).machine.store.getAt? f.frame 0 "this" with
      | some v => return v
      | none => lift (Machine.crash .missingFrame)
    else match done with
      | .returned v => return v
      | .normal => return .nil

/-- Runs statements in order until one returns. -/
def run : Nat → Option Nat → List (Stmt Distance) → Journal Completion
  | 0, _, _ => throw .exhausted
  | _ + 1, _, [] => return .normal
  | n + 1, here, s :: ss => do
    match ← execute n here s with
    | .normal => run n here ss
    | .returned v => return .returned v

def execute : Nat → Option Nat → Stmt Distance → Journal Completion
  | 0, _, _ => throw .exhausted
  | n + 1, here, s => do
    note (.begins here s)
    match s with
    | .expression e => do
      let _ ← evaluate n here e
      return .normal
    | .print e => do
      let v ← evaluate n here e
      lift (Machine.print v)
      return .normal
    | .varDecl name init => do
      let v ← match init with
        | some e => evaluate n here e
        | none => pure .nil
      lift (Machine.bindVariable (← get).machine.current name.lexeme v)
      return .normal
    | .block body => do
      let frame ← lift (Machine.newFrame (← get).machine.current)
      within frame (run n here body)
    | .ifThen c s => do
      if (← evaluate n here c).truthy then execute n here s else return .normal
    | .ifElse c s t => do
      if (← evaluate n here c).truthy then execute n here s else execute n here t
    | .loop c s => loop n here c s
    | .funDecl r => do
      let frame := (← get).machine.current
      let f ← lift (Machine.close r frame false)
      lift (Machine.bindVariable frame r.name.lexeme (.function f))
      return .normal
    | .ret _ value => do
      let v ← match value with
        | some e => evaluate n here e
        | none => pure .nil
      note (.raises here v)
      return .returned v
    | .classDecl name sup methods => do
      let superclass ← match sup with
        | some ref => do
          match ← evaluate n here (.var ref) with
          | .klass c => pure (some c)
          | _ => lift (Machine.fault ref.name "Superclass must be a class.")
        | none => pure none
      lift (Machine.declareClass name superclass methods)
      return .normal

/-- Runs a loop, which looks for an interruption before each round. -/
def loop : Nat → Option Nat → Expr Distance → Stmt Distance → Journal Completion
  | 0, _, _, _ => throw .exhausted
  | n + 1, here, c, s => do
    lift (Machine.heed host)
    if (← evaluate n here c).truthy then
      match ← execute n here s with
      | .normal => loop n here c s
      | .returned v => return .returned v
    else return .normal
end

/-- Runs the statements of a program, looking for an interruption before each. -/
def statements (steps : Nat) : List (Stmt Distance) → Journal Unit
  | [] => return ()
  | s :: ss => do
    lift (Machine.heed host)
    let done ← execute host steps none s
    note (.ends done)
    statements steps ss

/-- How a step ends, without the journal. -/
def outcome {α : Type} : EStateM.Result Stop Journaled α → EStateM.Result Stop Machine α
  | .ok a w => .ok a w.machine
  | .error e w => .error e w.machine

/-- What a step notes that starts with an empty journal, however it ends. -/
def journal {α : Type} (step : Journal α) (m : Machine) : List Event :=
  match step ⟨m, []⟩ with
  | .ok _ w => w.events
  | .error _ w => w.events

end Journaled

end LoxLang
