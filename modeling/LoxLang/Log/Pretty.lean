import LoxLang.Log.Line

namespace LoxLang.Log

/-- Terminal colours, each with the codes that turn it on and off. -/
inductive Color where
  | red | green | yellow | blue | magenta | cyan | gray | boldRed
  deriving DecidableEq, Repr

namespace Color

def code : Color → String
  | red => "31"
  | green => "32"
  | yellow => "33"
  | blue => "34"
  | magenta => "35"
  | cyan => "36"
  | gray => "90"
  | boldRed => "31;1"

def off : Color → String
  | boldRed => "0;22"
  | _ => "0"

def paint (enabled : Bool) (c : Color) (t : Text) : Text :=
  if enabled then "\x1b[" ++ c.code ++ "m" ++ t ++ "\x1b[" ++ c.off ++ "m" else t

def ofLevel (l : Level) : Color :=
  if Level.error ≤ l then boldRed
  else if Level.warn ≤ l then yellow
  else if Level.info ≤ l then green
  else if Level.debug ≤ l then blue
  else gray

end Color

namespace Pretty

mutual
def leaves (path key : Text) : Value → List Attr
  | .group fields | .deferred _ fields =>
    flatten (if key.isEmpty then path else path ++ key ++ ".") fields
  | v => if isBlank (key, v) then [] else [(path ++ key, v)]

def flatten (path : Text) : List Attr → List Attr
  | [] => []
  | (k, v) :: rest => leaves path k v ++ flatten path rest
end

structure Writer where
  settings : Settings
  fields : List Attr
  /-- The open groups, each followed by a dot. -/
  path : Text

def Writer.new (settings : Settings) : Writer := ⟨settings, [], []⟩

def Writer.withAttrs (w : Writer) (as : List Attr) : Writer :=
  { w with fields := w.fields ++ flatten w.path as }

def Writer.withGroup (w : Writer) (name : Text) : Writer :=
  if name.isEmpty then w else { w with path := w.path ++ name ++ "." }

def Writer.scope (w : Writer) : Line.Scope → Writer
  | .group name => w.withGroup name
  | .attrs as => w.withAttrs as

def Writer.fieldsOf (w : Writer) (time : Option Moment) (r : Record) : List Attr :=
  let stamp := match time.filter (· != .unset), w.settings.stamp with
    | some m, some layout => [Log.text "time" (Stamp.write layout m)]
    | _, _ => []
  stamp ++ [Log.text "level" (Text.upper r.level.text), Log.text "msg" r.message] ++ w.fields ++
    flatten w.path (pruneFields r.attrs)

def Writer.value (w : Writer) (level : Level) (a : Attr) : Text :=
  let json : Bool := w.settings.format = .json
  let quote (t : Text) : Text := if json then Quoted.encode t else t
  let paint := Color.paint w.settings.color
  let (k, v) := a
  if k = ("level" : Text) then paint (Color.ofLevel level) (quote v.text)
  else match v with
    | .int _ | .uint _ | .float _ => paint .yellow v.text
    | .bool b => paint (if b then .green else .red) v.text
    | .duration _ => paint .magenta (quote v.text)
    | .time _ => paint .blue (quote v.text)
    | .null => if json then paint .gray "null" else paint .cyan (quote v.text)
    | _ => paint .cyan (quote v.text)

def Writer.line (w : Writer) (time : Option Moment) (r : Record) : Text :=
  let paint := Color.paint w.settings.color .gray
  let fields := w.fieldsOf time r
  if w.settings.format = .json then
    let shown := fields.map fun a =>
      "  " ++ paint (Quoted.encode a.1) ++ ": " ++ w.value r.level a
    "\x7b\n" ++ Text.join ",\n" shown ++ "\n\x7d\n"
  else
    let shown := fields.map fun a => paint a.1 ++ "=" ++ w.value r.level a
    Text.join " " shown ++ "\n"

end Pretty

end LoxLang.Log
