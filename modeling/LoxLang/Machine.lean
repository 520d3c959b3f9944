import LoxLang.Store

namespace LoxLang

/-- A fault of a running program, at a token. -/
structure RuntimeError where
  token : Token
  message : Text
  deriving DecidableEq

namespace RuntimeError

def diagnostic (e : RuntimeError) : Diagnostic := .atToken .running e.token e.message

def text (e : RuntimeError) : Text := e.diagnostic.text

def undefinedVariable (name : Token) : RuntimeError :=
  ⟨name, "Undefined variable '" ++ name.lexeme ++ "'."⟩

def undefinedProperty (name : Token) : RuntimeError :=
  ⟨name, "Undefined property '" ++ name.lexeme ++ "'."⟩

end RuntimeError

/-- A broken assumption of the machine. No program that was checked first leads to one. -/
inductive Crash where
  | missingFrame
  | missingArgument
  | missingValue
  | missingNative
  | missingReceiver
  | strayOperator (unary : Bool)
  deriving DecidableEq, Repr

def Crash.message? : Crash → Option String
  | strayOperator true => some "runtime: unhandled unary operator"
  | strayOperator false => some "runtime: unhandled binary operator"
  | _ => none

/-- Why a run ends before the program does. -/
inductive Stop where
  | fault (e : RuntimeError)
  /-- A native function failed on its own account. -/
  | foreign (message : Text)
  | canceled
  | crash (c : Crash)
  | exhausted

def Stop.isFatal : Stop → Bool
  | .crash _ | .exhausted => true
  | _ => false

namespace Native

/-- What a function of the host may ask a machine for, other than to call something. -/
inductive Request where
  | write (t : Text)
  /-- A new object, without running an initializer. -/
  | make (c : Class)
  | field (id : Nat) (x : Text)
  | setField (id : Nat) (x : Text) (v : Value)
  | global (x : Text)
  | define (x : Text) (v : Value)
  | canceled

/-- What a function of the host does. It may go on after a call that failed. -/
inductive Act where
  | done (v : Value)
  | fail (e : Stop)
  | ask (q : Request) (rest : List Value → Act)
  | property (id : Nat) (c : Class) (name : Token) (rest : Except Stop Value → Act)
  | call (f : Value) (args : List Value) (rest : Except Stop Value → Act)

end Native

/-- A function of the host: what it does at a time, given arguments. -/
structure Native where
  name : Text
  arity : Nat
  run : Int → List Value → Native.Act

namespace Native

def seconds (nanoseconds : Int) : Float := Double.ofInt nanoseconds / 1000000000

def clock : Native := ⟨"clock", 0, fun now _ => .done (.number (seconds now))⟩

/-- The functions that every machine has unless its host says otherwise. -/
def standard : List Native := [clock]

/-- Performs a step of a native function, which learns of a failure unless that is fatal. -/
def attempt {σ α : Type} (step : EStateM Stop σ α) : EStateM Stop σ (Except Stop α) := fun s =>
  match step s with
  | .ok a s' => .ok (.ok a) s'
  | .error e s' => if e.isFatal then .error e s' else .ok (.error e) s'

variable {σ : Type} (serve : Request → EStateM Stop σ (List Value))
  (property : Nat → Class → Token → EStateM Stop σ Value)
  (call : Value → List Value → EStateM Stop σ Value)

/-- Does what a native function does, given how requests are served and values are called. -/
def Act.perform : Act → EStateM Stop σ Value
  | .done v => return v
  | .fail e => throw e
  | .ask q rest => do perform (rest (← serve q))
  | .property id c name rest => do perform (rest (← attempt (property id c name)))
  | .call f args rest => do perform (rest (← attempt (call f args)))

end Native

/-- What tells a run to stop, given how often it was asked before and what is written. -/
abbrev Signal := Nat → Array Text → Bool

namespace Signal

def never : Signal := fun _ _ => false

/-- A run is told to stop once this many pieces are written. -/
def afterWrites (n : Nat) : Signal := fun _ output => n ≤ output.size

end Signal

structure Host where
  natives : List Native
  /-- The time in nanoseconds since the epoch. -/
  now : Int
  signal : Signal

structure Machine where
  store : Store
  current : FrameId
  /-- Everything written so far, one entry a write. -/
  output : Array Text
  /-- How often a signal to stop was looked for. -/
  polls : Nat

namespace Machine

def globals : FrameId := 0

def new (natives : List Native) : Machine :=
  let store := (Store.empty.newFrame none).2
  let define (s : Store) (entry : Native × Nat) : Store :=
    s.define globals entry.1.name (.native entry.2)
  ⟨natives.zipIdx.foldl define store, globals, #[], 0⟩

def global (m : Machine) (name : Text) : Value := ((m.store.vars globals).get? name).getD .nil

def globalNames (m : Machine) : List Text := (m.store.vars globals).names

def define (m : Machine) (name : Text) (v : Value) : Machine :=
  { m with store := m.store.define globals name v }

def write (m : Machine) (t : Text) : Machine := { m with output := m.output.push t }

end Machine

abbrev Eval := EStateM Stop Machine

inductive Completion where
  | normal
  | returned (v : Value)

end LoxLang
