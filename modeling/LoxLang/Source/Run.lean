import LoxLang.Source
import LoxLang.Formula.Eval
import LoxLang.Machine.Eval

namespace LoxLang

structure Options where
  host : Host
  /-- Whether a program that is a single expression writes its value. -/
  echo : Bool
  defines : Dict Text
  /-- Variables of the environment, empty if unset. -/
  environment : Text → Text
  steps : Nat

def Options.machine (o : Options) : Machine := Machine.new o.host.natives

inductive Ending where
  | done
  | failed (e : Failure)
  | crashed (c : Crash)
  | exhausted

namespace Ending

def error? : Ending → Option Failure
  | failed e => some e
  | _ => none

/-- The ending of a run that the machine stopped. A fault of the program is wrapped with its
line. -/
def ofStop : Stop → Ending
  | .fault e =>
    failed (((Failure.of .runtime).wrap (some (.foreign (.fault e) none))).attach
      [Log.int "line" e.token.line])
  | .foreign t => failed (.foreign (.native t) none)
  | .canceled => failed (.foreign .canceled none)
  | .crash c => crashed c
  | .exhausted => exhausted

end Ending

structure Report where
  machine : Machine
  ending : Ending
  diagnostics : List Diagnostic
  log : List Log.Record

def Formula.result (q : Quantity) : Except Failure Value :=
  match q.toValue with
  | .ok v => .ok v
  | .error type => .error ((Failure.of .invalidResult).attach [Log.text "type" type])

def Formula.eval (environment : Text → Text) (source : Text) : Except Failure Value :=
  match Formula.run? environment source with
  | none =>
    .error (.own (.other 0) [] [Log.text "source" source] (some (.foreign (.plain 0 []) none)))
  | some q => Formula.result q

namespace Machine

def defineFormula (environment : Text → Text) (name source : Text) (m : Machine) :
    Except Failure Machine :=
  if isIdentifier name then
    match Formula.eval environment source with
    | .ok v => .ok (m.define name v)
    | .error e => .error (((Failure.of .define).wrap (some e)).attach [Log.text "name" name])
  else .error ((Failure.of .invalidName).attach [Log.text "name" name])

/-- Makes definitions in turn until one fails. -/
def defineAll (environment : Text → Text) : Dict Text → Machine → Option Failure × Machine
  | [], m => (none, m)
  | (name, source) :: rest, m =>
    match m.defineFormula environment name source with
    | .ok m => defineAll environment rest m
    | .error e => (some e, m)

def stopReport : Stop → List Diagnostic × List Log.Record
  | .fault e => ([e.diagnostic], [e.logRecord])
  | _ => ([], [])

end Machine

namespace Source

def soleExpression? : List (Stmt Distance) → Option (Expr Distance)
  | [.expression e] => some e
  | _ => none

def stopped (m : Machine) (log : List Log.Record) (stop : Stop) : Report :=
  let (diagnostics, records) := Machine.stopReport stop
  ⟨m, .ofStop stop, diagnostics, log ++ records⟩

/-- Runs a resolved program, or evaluates it and writes its value. -/
def perform (o : Options) (program : List (Stmt Distance)) (log : List Log.Record)
    (m : Machine) : Report :=
  match if o.echo then soleExpression? program else none with
  | some e =>
    match Machine.value o.host o.steps e m with
    | (.ok v, m) =>
      match v.text? with
      | some t => ⟨m.write (t ++ [Text.newline]), .done, [], log⟩
      | none => ⟨m, .crashed .missingValue, [], log⟩
    | (.error stop, m) => stopped m log stop
  | none =>
    match Machine.interpret o.host o.steps program m with
    | (.ok _, m) => ⟨m, .done, [], log⟩
    | (.error stop, m) => stopped m log stop

def execute (o : Options) (s : Source) (m : Machine) : Report :=
  match s.error? with
  | some e => ⟨m, .failed e, [], []⟩
  | none =>
    match m.defineAll o.environment o.defines.sorted with
    | (some e, m) => ⟨m, .failed e, [], []⟩
    | (none, m) =>
      let resolved := Resolved.ofProgram s.program
      let ds := resolved.diagnostics
      let log := ds.map Diagnostic.logRecord ++
        [⟨.trace, "resolve",
          [Log.nat "statements" s.program.length, Log.nat "diagnostics" ds.length]⟩]
      match compileError? ds with
      | some e => ⟨m, .failed e, ds, log⟩
      | none => perform o resolved.tree log m

def run (o : Options) (text : Text) (m : Machine) : Report :=
  let s := ofText text
  match s.error? with
  | some e => ⟨m, .failed e, s.diagnostics, s.log⟩
  | none =>
    let r := s.execute o m
    { r with log := s.log ++ r.log }

end Source

end LoxLang
