import LoxLang.Command.Request
import LoxLang.Diagnostic.Collector
import LoxLang.Json.Write
import LoxLang.Product
import LoxLang.Prompt.Session
import LoxLang.Screen
import LoxLang.Tree.Dump
import LoxLang.Tree.Print
import LoxLang.Yaml.Write

namespace LoxLang

structure Workspace (ι : Type) where
  disk : Disk ι
  /-- The file that standard input is read from, if it is one. -/
  stdin? : Option ι
  input : Text
  yaml? : Option Text
  json? : Option Text
  environment : Text → Text
  now : Int

/-- What keeps a command from being carried out. -/
inductive Trouble where
  | usage
  | badConfig
  | failed (e : Failure)

namespace Trouble

def statusOf (e : Failure) : Nat :=
  if e.has .compile then 65
  else if e.has .runtime then 70
  else if e.has .openSource || e.has .noSource then 66
  else 1

def status : Trouble → Nat
  | usage => 64
  | badConfig => 1
  | failed e => statusOf e

def isReported : Trouble → Bool
  | failed e => e.has .compile || e.has .runtime
  | _ => false

end Trouble

structure Outcome where
  trouble? : Option Trouble := none
  stdout : Text := []
  stderr : Text := []
  config? : Option Text := none
  isNotice : Bool := false

namespace Outcome

def status (o : Outcome) : Nat := (o.trouble?.map Trouble.status).getD 0

def isReported (o : Outcome) : Bool := (o.trouble?.map Trouble.isReported).getD false

def fail (e : Failure) : Outcome := { trouble? := some (.failed e) }

end Outcome

def shownDiagnostics (ds : List Diagnostic) : Text := ds.flatMap (Collector.echoed false)

def ioFailure (t : Text) : Option Failure := some (.foreign (.plain 0 t) none)

namespace Workspace

variable {ι : Type}

def closed (path why : Text) : Failure :=
  ((Failure.of .openSource).attach [Log.text "path" path]).wrap
    (ioFailure ("open " ++ path ++ ": " ++ why))

def unreadable (source path : Text) : Failure :=
  ((Failure.of .readInput).attach [Log.text "source" source]).wrap
    (ioFailure ("read " ++ path ++ ": is a directory"))

/-- The text of a script; `source` is what its reader is called. -/
def script (w : Workspace ι) (source path : Text) : Except Failure Text :=
  if path.isEmpty || path == stdinPath then .ok w.input
  else
    match w.disk.reach path with
    | .error why => .error (closed path why)
    | .ok id =>
      match w.disk.contents id with
      | .text t => .ok t
      | .folder _ => .error (unreadable source path)
      | .sealed => .error (closed path "permission denied")

def withScript (w : Workspace ι) (source path : Text) (act : Text → Outcome) : Outcome :=
  match w.script source path with
  | .ok t => act t
  | .error e => .fail e

def run (w : Workspace ι) (defines : Dict Text) (t : Text) : Outcome :=
  let host : Host := ⟨Native.standard, w.now, .never⟩
  let r := Source.run ⟨host, false, defines, w.environment, Machine.ample⟩ t
    (.new Native.standard)
  { trouble? := r.ending.error?.map .failed
    stdout := r.machine.output.toList.flatten
    stderr := shownDiagnostics r.diagnostics }

/-- Lists the tokens of a script, those after a fault too. -/
def tokens (t : Text) : Outcome :=
  let s := Scan.ofText t
  let n := s.diagnostics.length
  { trouble? :=
      if n = 0 then none
      else some (.failed ((Failure.of .compile).attach [Log.nat "diagnostics" n]))
    stdout := s.tokens.flatMap fun t => t.text ++ [Text.newline]
    stderr := shownDiagnostics s.diagnostics }

def unwritable (x : Float) : Failure :=
  ((Failure.of .marshal).attach [Log.text "format" "json"]).wrap
    (ioFailure ("json: unsupported value: " ++ Layout.literal.write x))

def tree (form : Text) (indent : Int) (t : Text) : Outcome :=
  let s := Source.ofText t
  match s.error? with
  | some e => { trouble? := some (.failed e), stderr := shownDiagnostics s.diagnostics }
  | none =>
    if form == ("json" : Text) then
      match Json.document indent.toNat (Stmt.programDump s.program) with
      | .ok t => { stdout := t ++ [Text.newline] }
      | .error x => .fail (unwritable x)
    else if form == ("yaml" : Text) then
      { stdout := Yaml.document indent.toNat (Stmt.programDump s.program) }
    else { stdout := Stmt.programText s.program }

/-- What a setting looks like in a configuration file, unless it is empty. -/
def saved? : Setting → Option Datum
  | .text t => if t.isEmpty then none else some (.text t)
  | .switch on => some (.bool on)
  | .integer n => some (.text (Text.ofInt n))
  | .list ts => if ts.isEmpty then none else some (.list (ts.map .text))
  | .table d => if d.isEmpty then none else some (.record (d.map fun (name, t) => (name, .text t)))

def savedFlags : List Flag :=
  [.logLevel, .logFormat, .logTimeLayout, .logCaller, .logPretty, .define, .source]

def savedConfig (r : Request) : Text :=
  Yaml.settings 2 (savedFlags.filterMap fun f =>
    (saved? (r.setting f)).map fun d => (Config.underscored f.name, d))

/-- Writes a configuration file, unless there is one. -/
def save (w : Workspace ι) (r : Request) : Outcome :=
  if w.yaml?.isSome && !(r.setting .force).isOn then
    .fail ((Failure.of .writeConfig).wrap (some (.of .fileExists)))
  else { config? := some (savedConfig r) }

def shownLoad (o : Session.Outcome) : Text :=
  o.output ++ o.errors.flatMap fun e => Screen.block e ++ [Text.newline]

def session [DecidableEq ι] (w : Workspace ι) (defines : Dict Text) (paths : List Text) :
    Outcome × Session :=
  match Session.new.define w.environment defines with
  | (some e, s) => (.fail e, s)
  | (none, s) =>
    match Sources.ofPaths w.disk w.stdin? paths with
    | none => ({}, s)
    | some sources =>
      match sources.read w.disk w.input with
      | (_, some path) => (.fail (unreadable "reader" path), s)
      | (t, none) =>
        let (o, e?, s) := s.load w.now .never t
        ({ trouble? := e?.map .failed, stdout := shownLoad o }, s)

def perform [DecidableEq ι] (w : Workspace ι) (r : Request) : Outcome :=
  match r.command with
  | .run => w.withScript "reader" r.script (w.run (r.setting .define).asTable)
  | .tokens => w.withScript r.script r.script tokens
  | .ast =>
    w.withScript "reader" r.script (tree (r.setting .form).asText (r.setting .indent).asInt)
  | .init => w.save r
  | .repl => (w.session (r.setting .define).asTable (r.setting .source).asList).1

/-- The configuration that is found, unless it cannot be read. -/
def config? (w : Workspace ι) : Option Config := do
  let json ← w.json?.elim (some []) Config.ofJson?
  return ⟨(w.yaml?.map Config.ofYaml).getD [], json⟩

def usageLine (c : Command) : String :=
  "  " ++ c.name ++ (if c.takesScript then " [<source>]\n" else "\n")

def usage : String :=
  "Usage: " ++ Product.name ++ " <command> [flags]\n\n" ++ Product.description ++
    ".\n\nCommands:\n" ++ String.join (Command.all.map usageLine)

def notice : Flag → String
  | .version => Product.name ++ " " ++ Product.version ++ "\n"
  | _ => usage

def request (w : Workspace ι) (args : List Text) : Except Outcome Request :=
  match w.config? with
  | none => .error { trouble? := some .badConfig }
  | some config =>
    match Arguments.read? args with
    | none => .error { trouble? := some .usage }
    | some a =>
      match a.notice? with
      | some f => .error { stdout := notice f, isNotice := true }
      | none =>
        match Request.ofArguments? config a with
        | none => .error { trouble? := some .usage }
        | some r => .ok r

def answer [DecidableEq ι] (w : Workspace ι) (args : List Text) : Outcome :=
  match w.request args with
  | .error o => o
  | .ok r => w.perform r

end Workspace

end LoxLang
