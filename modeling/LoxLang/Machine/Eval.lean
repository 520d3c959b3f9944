import LoxLang.Machine

namespace LoxLang

namespace Machine

def fault {α : Type} (token : Token) (message : Text) : Eval α := throw (.fault ⟨token, message⟩)

def crash {α : Type} (c : Crash) : Eval α := throw (.crash c)

def poll (host : Host) : Eval Bool := fun m =>
  .ok (host.signal m.polls m.output) { m with polls := m.polls + 1 }

def heed (host : Host) : Eval Unit := do if ← poll host then throw .canceled

theorem heed_apply (host : Host) (m : Machine) : heed host m =
    if host.signal m.polls m.output then .error .canceled { m with polls := m.polls + 1 }
    else .ok () { m with polls := m.polls + 1 } := by
  simp only [heed, poll, bind, EStateM.bind]
  cases host.signal m.polls m.output with
  | true => rfl
  | false => rfl

def newFrame (parent : FrameId) : Eval FrameId := do
  let m ← get
  let (f, store) := m.store.newFrame (some parent)
  set { m with store }
  return f

def bindVariable (f : FrameId) (name : Text) (v : Value) : Eval Unit :=
  modify fun m => { m with store := m.store.define f name v }

def newSerial : Eval Nat := do
  let m ← get
  let (n, store) := m.store.newSerial
  set { m with store }
  return n

def newObject : Eval Nat := do
  let m ← get
  let (id, store) := m.store.newObject
  set { m with store }
  return id

/-- Runs a step with another current frame and comes back, however the step ends. -/
def within {α : Type} (f : FrameId) (step : Eval α) : Eval α := fun m =>
  match step { m with current := f } with
  | .ok a m' => .ok a { m' with current := m.current }
  | .error e m' => .error e { m' with current := m.current }

def print (v : Value) : Eval Unit := do
  match v.text? with
  | some t => modify fun m => m.write (t ++ [Text.newline])
  | none => crash .missingValue

def lookUp (name : Token) (d : Distance) : Eval Value := do
  let m ← get
  match d with
  | some n =>
    match m.store.getAt? m.current n name.lexeme with
    | some v => return v
    | none => crash .missingFrame
  | none =>
    match m.store.get? globals name.lexeme with
    | some v => return v
    | none => throw (.fault (.undefinedVariable name))

def assign (name : Token) (d : Distance) (v : Value) : Eval Unit := do
  let m ← get
  match d with
  | some n =>
    match m.store.assignAt? m.current n name.lexeme v with
    | some store => set { m with store }
    | none => crash .missingFrame
  | none =>
    match m.store.assign? globals name.lexeme v with
    | some store => set { m with store }
    | none => throw (.fault (.undefinedVariable name))

def negate (operator : Token) (v : Value) : Eval Value :=
  match operator.kind with
  | .bang => return .bool !v.truthy
  | .minus =>
    match v with
    | .number x => return .number (-x)
    | _ => fault operator "Operand must be a number."
  | _ => crash (.strayOperator true)

def add (operator : Token) (left right : Value) : Eval Value :=
  match left, right with
  | .number x, .number y => return .number (x + y)
  | .string s, .string t => return .string (s ++ t)
  | _, _ => fault operator "Operands must be two numbers or two strings."

def arithmetic (operator : Token) (left right : Value) : Eval Value :=
  match left, right with
  | .number x, .number y =>
    match operator.kind with
    | .minus => return .number (x - y)
    | .star => return .number (x * y)
    | .slash => return .number (x / y)
    | .greater => return .bool (y < x)
    | .greaterEqual => return .bool (y ≤ x)
    | .less => return .bool (x < y)
    | .lessEqual => return .bool (x ≤ y)
    | _ => crash (.strayOperator false)
  | _, _ => fault operator "Operands must be numbers."

def combine (operator : Token) (left right : Value) : Eval Value :=
  match operator.kind with
  | .equalEqual => return .bool (left.same right)
  | .bangEqual => return .bool !(left.same right)
  | .plus => add operator left right
  | _ => arithmetic operator left right

def close (routine : Routine (Stmt Distance)) (frame : FrameId) (isInitializer : Bool) :
    Eval Closure := do
  return ⟨← newSerial, routine, frame, isInitializer⟩

/-- A copy of a method whose `this` is the given object. -/
def bindMethod (method : Closure) (receiver : Value) : Eval Closure := do
  let f ← newFrame method.frame
  bindVariable f "this" receiver
  close method.routine f method.isInitializer

/-- A field of an object, or else a method of its class bound to it. -/
def property (id : Nat) (c : Class) (name : Token) : Eval Value := do
  let m ← get
  match (m.store.fields id).get? name.lexeme with
  | some v => return v
  | none =>
    match c.findMethod name.lexeme with
    | some method => return .function (← bindMethod method (.object id c))
    | none => throw (.fault (.undefinedProperty name))

/-- A method of the superclass bound to the current receiver, whose frame lies just inside that of
the superclass. -/
def superMethod (d : Distance) (method : Token) : Eval Value := do
  let m ← get
  let n := d.getD 0
  match m.store.getAt? m.current n "super", m.store.getAt? m.current (n - 1) "this" with
  | some parent, some receiver =>
    let found := match parent with
      | .klass c => c.findMethod method.lexeme
      | _ => none
    match found with
    | none => throw (.fault (.undefinedProperty method))
    | some f =>
      match receiver with
      | .object _ _ => return .function (← bindMethod f receiver)
      | _ => crash .missingReceiver
  | _, _ => crash .missingFrame

/-- Binds parameters to arguments; arguments beyond the parameters are dropped. -/
def bindParams (f : FrameId) : List Token → List Value → Eval Unit
  | [], _ => return ()
  | _ :: _, [] => crash .missingArgument
  | p :: ps, v :: vs => do
    bindVariable f p.lexeme v
    bindParams f ps vs

/-- The number of arguments a value takes, if it can be called. -/
def arity? (host : Host) : Value → Option Nat
  | .function f => some f.arity
  | .klass c => some c.arity
  | .native i => some ((host.natives[i]?.map Native.arity).getD 0)
  | _ => none

/-- Methods of a class made in a frame; of two with one name the later counts. -/
def closeMethods (frame : FrameId) :
    List (Routine (Stmt Distance)) → Dict Closure → Eval (Dict Closure)
  | [], methods => return methods
  | r :: rs, methods => do
    let f ← close r frame (r.name.lexeme == ("init" : Text))
    closeMethods frame rs (methods.set r.name.lexeme f)

/-- Makes a class and binds its name, which is bound to `nil` before its methods are made. -/
def declareClass (name : Token) (superclass : Option Class)
    (methods : List (Routine (Stmt Distance))) : Eval Unit := do
  let here := (← get).current
  bindVariable here name.lexeme .nil
  let frame ← match superclass with
    | some c => do
      let f ← newFrame here
      bindVariable f "super" (.klass c)
      pure f
    | none => pure here
  let methods ← closeMethods frame methods []
  let c := Class.mk (← newSerial) name.lexeme superclass methods
  let m ← get
  match m.store.assign? here name.lexeme (.klass c) with
  | some store => set { m with store }
  | none => throw (.fault (.undefinedVariable name))

def serve (host : Host) : Native.Request → Eval (List Value)
  | .write t => do
    modify fun m => m.write t
    return []
  | .make c => return [.object (← newObject) c]
  | .field id x => return (((← get).store.fields id).get? x).toList
  | .setField id x v => do
    modify fun m => { m with store := m.store.setField id x v }
    return []
  | .global x => return ((← get).store.get? globals x).toList
  | .define x v => do
    bindVariable globals x v
    return []
  | .canceled => return [.bool (← poll host)]

variable (host : Host)

mutual
def evaluate : Nat → Expr Distance → Eval Value
  | 0, _ => throw .exhausted
  | n + 1, e =>
    match e with
    | .literal v => return Value.ofLiteral v
    | .grouping e => evaluate n e
    | .unary op e => do
      let v ← evaluate n e
      negate op v
    | .binary l op r => do
      let left ← evaluate n l
      let right ← evaluate n r
      combine op left right
    | .logical l op r => do
      let left ← evaluate n l
      if left.truthy == (op.kind == .or) then return left else evaluate n r
    | .var ref => lookUp ref.name ref.mark
    | .assign ref e => do
      let v ← evaluate n e
      assign ref.name ref.mark v
      return v
    | .call f paren args => do
      let callee ← evaluate n f
      let values ← arguments n args
      match arity? host callee with
      | none => fault paren "Can only call functions and classes."
      | some k =>
        if values.length = k then call n callee values
        else
          fault paren ("Expected " ++ Text.ofNat k ++ " arguments but got " ++
            Text.ofNat values.length ++ ".")
    | .get o name => do
      match ← evaluate n o with
      | .object id c => property id c name
      | _ => fault name "Only instances have properties."
    | .set o name e => do
      match ← evaluate n o with
      | .object id _ =>
        let v ← evaluate n e
        modify fun m => { m with store := m.store.setField id name.lexeme v }
        return v
      | _ => fault name "Only instances have fields."
    | .this ref => lookUp ref.name ref.mark
    | .super ref method => superMethod ref.mark method

def arguments : Nat → List (Expr Distance) → Eval (List Value)
  | 0, _ => throw .exhausted
  | _ + 1, [] => return []
  | n + 1, e :: es => do
    let v ← evaluate n e
    return v :: (← arguments n es)

def call : Nat → Value → List Value → Eval Value
  | 0, _, _ => throw .exhausted
  | n + 1, callee, args =>
    match callee with
    | .function f => invoke n f args
    | .klass c => do
      let id ← newObject
      match c.initializer? with
      | some init =>
        let bound ← bindMethod init (.object id c)
        let _ ← invoke n bound args
        return .object id c
      | none => return .object id c
    | .native i =>
      match host.natives[i]? with
      | some native =>
        (native.run host.now args).perform (serve host) property fun v vs => call n v vs
      | none => crash .missingNative
    | _ => crash .missingValue

/-- Runs a function body in a frame of its own. An initializer yields its receiver. -/
def invoke : Nat → Closure → List Value → Eval Value
  | 0, _, _ => throw .exhausted
  | n + 1, f, args => do
    let frame ← newFrame f.frame
    bindParams frame f.routine.params args
    let done ← within frame (run n f.routine.body)
    if f.isInitializer then
      match (← get).store.getAt? f.frame 0 "this" with
      | some v => return v
      | none => crash .missingFrame
    else match done with
      | .returned v => return v
      | .normal => return .nil

def run : Nat → List (Stmt Distance) → Eval Completion
  | 0, _ => throw .exhausted
  | _ + 1, [] => return .normal
  | n + 1, s :: ss => do
    match ← execute n s with
    | .normal => run n ss
    | .returned v => return .returned v

def execute : Nat → Stmt Distance → Eval Completion
  | 0, _ => throw .exhausted
  | n + 1, s =>
    match s with
    | .expression e => do
      let _ ← evaluate n e
      return .normal
    | .print e => do
      let v ← evaluate n e
      print v
      return .normal
    | .varDecl name init => do
      let v ← match init with
        | some e => evaluate n e
        | none => pure .nil
      bindVariable (← get).current name.lexeme v
      return .normal
    | .block body => do
      let frame ← newFrame (← get).current
      within frame (run n body)
    | .ifThen c s => do
      if (← evaluate n c).truthy then execute n s else return .normal
    | .ifElse c s t => do
      if (← evaluate n c).truthy then execute n s else execute n t
    | .loop c s => loop n c s
    | .funDecl r => do
      let here := (← get).current
      let f ← close r here false
      bindVariable here r.name.lexeme (.function f)
      return .normal
    | .ret _ value => do
      let v ← match value with
        | some e => evaluate n e
        | none => pure .nil
      return .returned v
    | .classDecl name sup methods => do
      let superclass ← match sup with
        | some ref => do
          match ← evaluate n (.var ref) with
          | .klass c => pure (some c)
          | _ => fault ref.name "Superclass must be a class."
        | none => pure none
      declareClass name superclass methods
      return .normal

/-- Runs a loop, which looks for an interruption before each round. -/
def loop : Nat → Expr Distance → Stmt Distance → Eval Completion
  | 0, _, _ => throw .exhausted
  | n + 1, c, s => do
    heed host
    if (← evaluate n c).truthy then
      match ← execute n s with
      | .normal => loop n c s
      | .returned v => return .returned v
    else return .normal
end

/-- Runs the statements of a program, looking for an interruption before each. -/
def statements (steps : Nat) : List (Stmt Distance) → Eval Unit
  | [] => return ()
  | s :: ss => do
    heed host
    let _ ← execute host steps s
    statements steps ss

/-- A number of steps that no run in practice exceeds. -/
def ample : Nat := Nat.pow 10 18

/-- Performs a step and leaves the machine in its global frame if the step fails. -/
def attempt {α : Type} (step : Eval α) (m : Machine) : Except Stop α × Machine :=
  match step m with
  | .ok a m' => (.ok a, m')
  | .error e m' => (.error e, { m' with current := globals })

def interpret (steps : Nat) (program : List (Stmt Distance)) (m : Machine) :
    Except Stop Unit × Machine :=
  attempt (statements host steps program) m

def value (steps : Nat) (e : Expr Distance) (m : Machine) : Except Stop Value × Machine :=
  attempt (evaluate host steps e) m

end Machine

end LoxLang
