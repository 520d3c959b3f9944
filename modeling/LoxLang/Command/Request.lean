import LoxLang.Command.Arguments
import LoxLang.Files
import LoxLang.Json.Read
import LoxLang.Yaml.Read

namespace LoxLang

structure Config where
  yaml : Dict Datum
  json : Dict Datum

namespace Config

/-- The settings of a document; one that cannot be read has none. -/
def ofYaml (t : Text) : Dict Datum := ((Yaml.read? t).bind (·.setting.fields?)).getD []

/-- The settings of a document, unless it cannot be read. -/
def ofJson? (t : Text) : Option (Dict Datum) :=
  match Json.read? t with
  | some .null => some []
  | some d => d.fields?
  | none => none

def underscored (name : Text) : Text := name.map fun b => if b == byte '-' then byte '_' else b

def joined (name : Text) : Text :=
  match name.splitOn (byte '-') with
  | [] => []
  | word :: words => word ++ words.flatMap fun w => (w.take 1).map Text.upperByte ++ w.drop 1

def lookup? (d : Dict Datum) (names : List Text) : Option Datum := names.findSome? d.get?

/-- The setting of a flag of a name in a document that has both spellings. -/
def yaml? (d : Dict Datum) (name : Text) : Option Datum := lookup? d [name, underscored name]

def json? (d : Dict Datum) (name : Text) : Option Datum :=
  lookup? d [underscored name, joined name]

def datum? (c : Config) (f : Flag) : Option Datum :=
  (yaml? c.yaml f.name).filter (!·.isNull) <|> (json? c.json f.name).filter (!·.isNull)

def itemText? : Datum → Option Text
  | .text t => some (Text.repaired t)
  | .null => some []
  | _ => none

/-- What a flag holds by a datum, unless the two do not fit. -/
def decode (f : Flag) (d : Datum) : Option Setting :=
  match f.shape, d with
  | .text, .text t => some (.text (Text.repaired t))
  | .switch, .bool b => some (.switch b)
  | .switch, .text t => (Setting.truth? t).map .switch
  | .integer, .text t => (Setting.integer? t).map .integer
  | .integer, .number x => (Setting.rounded? x).map .integer
  | .list, .text t => some (.list (Setting.items t))
  | .list, .list ds => (ds.mapM itemText?).map .list
  | .table, .text t => (Setting.pair? t).map fun p => .table [p]
  | .table, .record fs =>
    (fs.mapM fun (name, d) => (itemText? d).map (Text.repaired name, ·)).map .table
  | .notice, _ => some f.initial
  | _, _ => none

end Config

structure Request where
  command : Command
  script : Text
  settings : List (Flag × Setting)

namespace Request

def setting (r : Request) (f : Flag) : Setting := (r.settings.lookup f).getD f.initial

def isAllowed (r : Request) (f : Flag) : Bool :=
  match f.choices? with
  | none => true
  | some words => words.any fun w => (w : Text) == (r.setting f).asText

/-- Adds what the files say of a flag on which the arguments are silent. -/
def fill (c : Config) (settings : List (Flag × Setting)) (f : Flag) :
    Option (List (Flag × Setting)) :=
  if (settings.lookup f).isSome then some settings
  else
    match c.datum? f with
    | none => some settings
    | some d => (Config.decode f d).map fun s => (f, s) :: settings

/-- The request of arguments and files, unless something does not fit. -/
def ofArguments? (c : Config) (a : Arguments) : Option Request := do
  let command := a.command?.getD .run
  let settings ← (Flag.shared ++ Flag.ofCommand command).foldlM (fill c) a.settings
  let r : Request := ⟨command, a.script?.getD stdinPath, settings⟩
  if (Flag.shared ++ Flag.ofCommand command).all r.isAllowed then some r else none

end Request

end LoxLang
