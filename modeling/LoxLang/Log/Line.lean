import LoxLang.Log.Value
import LoxLang.Log.Level
import LoxLang.Text.Json

namespace LoxLang.Log

structure Settings where
  minimum : Level
  format : Format
  stamp : Option Text
  pretty : Bool
  color : Bool

namespace Line

/-- Something a writer is scoped to: a group, or attributes for every record. -/
inductive Scope where
  | group (name : Text)
  | attrs (as : List Attr)

structure State where
  json : Bool
  stamp : Option Text
  buffer : Text
  /-- What goes before the next key. -/
  sep : Text
  /-- The groups around the next key, as its beginning in pairs. -/
  path : Text
  groups : List Text

def needsQuotes (t : Text) : Bool :=
  t.isEmpty || (Utf8.symbols t).any fun r =>
    match r.char? with
    | none => true
    | some c =>
      let n := c.toNat
      if n < 0x80 then n ≤ 0x20 || c == '"' || c == '='
      else n == 0xFFFD || !isPrintable c

def State.put (s : State) (t : Text) : State := { s with buffer := s.buffer ++ t }

def State.between (s : State) : Text := if s.json then "," else " "

def State.string (s : State) (t : Text) : State :=
  s.put (if s.json then Json.string .log t else if needsQuotes t then Quoted.encode t else t)

def State.key (s : State) (name : Text) : State :=
  let s := s.put s.sep
  let s :=
    if s.path.isEmpty then s.string name
    else if s.json then s.put (Json.string .log (s.path ++ name))
    else if needsQuotes s.path || needsQuotes name then s.put (Quoted.encode (s.path ++ name))
    else s.put (s.path ++ name)
  let s := s.put (if s.json then ":" else "=")
  { s with sep := s.between }

def State.openGroup (s : State) (name : Text) : State :=
  let s := { s with groups := s.groups ++ [name] }
  if s.json then { (s.key name).put "\x7b" with sep := [] }
  else { s with path := s.path ++ name ++ "." }

def State.closeGroup (s : State) (name : Text) : State :=
  let s := { s with sep := s.between, groups := s.groups.dropLast }
  if s.json then s.put "\x7d"
  else { s with path := s.path.take (s.path.length - name.length - 1) }

/-- A moment in pairs: to the millisecond. It is written with a fourth digit that is never zero,
and that digit is then taken out where it stands for years of four digits. -/
def millis (m : Moment) : Text :=
  let rounded := m.nanoseconds / 1000000 * 1000000 + 100000
  let t := Stamp.write "2006-01-02T15:04:05.0000Z07:00" ⟨m.seconds, rounded⟩
  t.take 23 ++ t.drop 24

/-- A moment of an interchange format, which has only years of four digits, or why there is none. -/
def jsonMoment (m : Moment) : Text :=
  let year := (Calendar.ofMoment m).year
  if year < 0 ∨ 9999 < year then "!ERROR:time.Time year outside of range [0,9999]"
  else Stamp.write "2006-01-02T15:04:05.999999999Z07:00" m

/-- A number of an interchange format, or why there is none. -/
def jsonFloat (x : Float) : Text :=
  match Double.magnitude x with
  | .finite _ _ => Layout.interchange.write x
  | _ => Json.string .log ("!ERROR:json: unsupported value: " ++ Layout.literal.write x)

def State.value (s : State) (v : Value) : State :=
  match v with
  | .string t | .error t => s.string t
  | .time m =>
    if s.json then s.put (Json.string .log (jsonMoment m)) else s.put (millis m)
  | .null => if s.json then s.put "null" else s.string "<nil>"
  | .float x => if s.json then s.put (jsonFloat x) else s.put v.text
  | .duration n => if s.json then s.put (Text.ofInt n) else s.put v.text
  | _ => s.put v.text

/-- A timestamp outside every group is written in the layout of the log, or left out. -/
def State.replace (s : State) (a : Attr) : Option Attr :=
  match a with
  | (k, .time m) =>
    if s.groups.isEmpty && k == ("time" : Text) then
      s.stamp.map fun layout => (k, .string (Stamp.write layout m))
    else some a
  | _ => some a

mutual
/-- Writes an attribute and tells whether it was worth writing. -/
def attr (key : Text) : Value → State → Bool × State
  | .group [], s => (true, s)
  | .group fields, s => group key fields s
  | .deferred _ [], s => (true, s)
  | .deferred _ fields, s => group key fields s
  | v, s =>
    match s.replace (key, v) with
    | none => (false, s)
    | some a => if isBlank a then (false, s) else (true, (s.key a.1).value a.2)

/-- Writes a group, without a key of its own if its name is empty. A group in which nothing was
worth writing is taken back, but the writer does not leave it. -/
def group (key : Text) (fields : List Attr) (s : State) : Bool × State :=
  let opened := if key.isEmpty then s else s.openGroup key
  match attrs fields opened with
  | (true, s) => (true, if key.isEmpty then s else s.closeGroup key)
  | (false, t) => (false, { t with buffer := s.buffer })

/-- Writes attributes and tells whether any was worth writing. -/
def attrs : List Attr → State → Bool × State
  | [], s => (false, s)
  | (k, v) :: rest, s =>
    let (shown, s) := attr k v s
    let (more, s) := attrs rest s
    (shown || more, s)
end

structure Writer where
  settings : Settings
  groups : List Text
  /-- How many of the groups the attributes written so far have opened. -/
  opened : Nat
  written : Text
  path : Text

def Writer.new (settings : Settings) : Writer := ⟨settings, [], 0, [], []⟩

def Writer.isJson (w : Writer) : Bool := w.settings.format = .json

def Writer.start (w : Writer) (buffer sep : Text) : State :=
  ⟨w.isJson, w.settings.stamp, buffer, sep, [], w.groups.take w.opened⟩

/-- The separator after what was written before: none after an opening brace. -/
def Writer.sepAfter (w : Writer) : Text :=
  if w.isJson then
    if w.written.getLast? = some (byte '{') then [] else ","
  else " "

def openGroups (names : List Text) (s : State) : State := names.foldl State.openGroup s

def Writer.withAttrs (w : Writer) (as : List Attr) : Writer :=
  if as.all fun (k, v) => isEmptyGroup (k, v.prune) then w
  else
    let sep := if w.written.isEmpty then [] else w.sepAfter
    let s := { w.start w.written sep with path := w.path }
    let s := openGroups (w.groups.drop w.opened) s
    match attrs (as.map fun (k, v) => (k, v.prune)) s with
    | (true, s) => { w with written := s.buffer, path := s.path, opened := w.groups.length }
    | (false, _) => w

def Writer.withGroup (w : Writer) (name : Text) : Writer := { w with groups := w.groups ++ [name] }

def Writer.scope (w : Writer) : Scope → Writer
  | .group name => w.withGroup name
  | .attrs as => w.withAttrs as

def Writer.line (w : Writer) (time : Option Moment) (r : Record) : Text :=
  let s := { w.start (if w.isJson then "\x7b" else []) [] with groups := [] }
  let s := match time.filter (· != .unset) with
    | some m => (attr "time" (.time m) s).2
    | none => s
  let s := (attr "level" (.string (Text.upper r.level.text)) s).2
  let s := (attr "msg" (.string r.message) s).2
  let s := { s with groups := w.groups.take w.opened }
  let s :=
    if w.written.isEmpty then s
    else { (s.put s.sep).put w.written with sep := w.sepAfter }
  let recorded := pruneFields r.attrs
  let (s, opened) :=
    if recorded.isEmpty then (s, w.opened)
    else
      let inner := openGroups (w.groups.drop w.opened) { s with path := w.path }
      match attrs recorded inner with
      | (true, t) => (t, w.groups.length)
      | (false, _) => (s, w.opened)
  let s := if w.isJson then s.put (List.replicate (opened + 1) (byte '}')) else s
  s.buffer ++ [Text.newline]

end Line

end LoxLang.Log
