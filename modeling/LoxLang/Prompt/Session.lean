import LoxLang.Prompt.Word
import LoxLang.Source.Run
import LoxLang.Text.Quoted

namespace LoxLang

structure Session where
  machine : Machine

namespace Session

/-- What a line wrote and which errors it led to. -/
structure Outcome where
  output : Text
  errors : List Text
  deriving DecidableEq, Repr

def new : Session := ⟨.new Native.standard⟩

/-- The host of a line. The line may be told to stop at any moment. -/
def host (now : Int) (signal : Signal) : Host := ⟨Native.standard, now, signal⟩

def drain (r : Report) : Outcome × Session :=
  (⟨r.machine.output.toList.flatten, r.diagnostics.map Diagnostic.text⟩,
    ⟨{ r.machine with output := #[] }⟩)

def run (now : Int) (signal : Signal) (echo : Bool) (t : Text) (s : Session) : Report :=
  Source.run ⟨host now signal, echo, [], fun _ => [], Machine.ample⟩ t s.machine

/-- What is shown of a failure when the run reported nothing itself. -/
def remarks (errors : List Text) : Option Failure → List Text
  | none => []
  | some e =>
    if e.is (.foreign .canceled none) then ["Interrupted."]
    else if errors.isEmpty then [e.text]
    else []

/-- Runs a line, and shows its value if it is an expression. -/
def eval (now : Int) (signal : Signal) (line : Text) (s : Session) : Outcome × Session :=
  let r := s.run now signal true (Prompt.terminated line)
  let (o, s) := drain r
  ({ o with errors := o.errors ++ remarks o.errors r.ending.error? }, s)

def load (now : Int) (signal : Signal) (program : Text) (s : Session) :
    Outcome × Option Failure × Session :=
  let r := s.run now signal false program
  let (o, s) := drain r
  (o, r.ending.error?, s)

/-- Defines global variables in the order of their names until one fails. -/
def define (environment : Text → Text) (defines : Dict Text) (s : Session) :
    Option Failure × Session :=
  let (e, m) := s.machine.defineAll environment defines.sorted
  (e, ⟨m⟩)

def globals (s : Session) : List Text := s.machine.globalNames

def lookup? (s : Session) (name : Text) : Option Value :=
  (s.machine.store.vars Machine.globals).get? name

def native? (n : Nat) : Option Native := Native.standard[n]?

def preview : Option Value → Text
  | none => "<undefined>"
  | some (.function f) => "fun(" ++ Text.join ", " f.params ++ ")"
  | some (.native n) => "native fun/" ++ Text.ofNat (((native? n).map Native.arity).getD 0)
  | some (.klass c) =>
    match c.superclass with
    | some d => "class < " ++ d.name
    | none => "class"
  | some (.string t) => Quoted.encode t
  | some v => v.text?.getD []

def signature? (s : Session) (name : Text) : Option (List Text) :=
  match s.lookup? name with
  | some (.function f) => some f.params
  | some (.klass c) => some ((c.initializer?.map Closure.params).getD [])
  | some (.native n) =>
    some ((List.range (((native? n).map Native.arity).getD 0)).map fun i => "arg" ++ Text.ofNat i)
  | _ => none

def isCallable (s : Session) (name : Text) : Bool := (s.signature? name).isSome

/-- The properties of the object or class under a name: its fields, then the methods that no field
hides. -/
def members (s : Session) (name : Text) : List Text :=
  match s.lookup? name with
  | some (.object id c) =>
    let fields := (s.machine.store.fields id).names
    fields ++ c.methodNames.filter (!fields.contains ·)
  | some (.klass c) => c.methodNames
  | _ => []

end Session

end LoxLang
