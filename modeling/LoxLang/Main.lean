import LoxLang.Command
import LoxLang.Files.Folder
import Std.Time.DateTime.Timestamp

namespace LoxLang.Main

def textOf (bytes : ByteArray) : Text := bytes.toList

def bytesOf (t : Text) : ByteArray := ⟨t.toArray⟩

def put (stream : IO.FS.Stream) (t : Text) : IO Unit := do
  stream.write (bytesOf t)
  stream.flush

def now : IO Int := return (← Std.Time.Timestamp.now).toNanosecondsSinceUnixEpoch.val

def fileText? (path : String) : IO (Option Text) := do
  try return some (textOf (← IO.FS.readBinFile path))
  catch _ => return none

/-- A path that was looked up: the file it leads to, or why it leads to none. -/
structure Found where
  path : Text
  place : Except Text Text
  contents : Contents

def placeOf? (path : String) : IO (Option Text) := do
  try return some (Text.ofString (← IO.FS.realPath path).toString)
  catch _ => return none

def contentsOf (path : Text) : IO (Option Contents) := do
  try return some (.text (textOf (← IO.FS.readBinFile path.lossy)))
  catch e =>
    match e with
    | .noFileOrDirectory .. => return none
    | .permissionDenied .. => return some .sealed
    | _ => return some (.folder path)

def lookUp (path : Text) : IO Found := do
  match ← placeOf? path.lossy, ← contentsOf path with
  | some place, some contents => return ⟨path, .ok place, contents⟩
  | _, _ => return ⟨path, .error Folder.missing, .sealed⟩

partial def readAll (stream : IO.FS.Stream) (before : ByteArray) : IO ByteArray := do
  let bytes ← stream.read 65536
  if bytes.isEmpty then return before else readAll stream (before ++ bytes)

def diskOf (found : List Found) : Disk Text where
  reach path := ((found.find? (·.path == path)).map Found.place).getD (.error Folder.missing)
  find? path := (found.find? (·.path == path)).bind (·.place.toOption)
  contents place :=
    ((found.find? (·.place.toOption == some place)).map Found.contents).getD .sealed

def configFolder : IO String := do
  match ← IO.getEnv "XDG_CONFIG_HOME", ← IO.getEnv "HOME" with
  | some folder, _ => return folder ++ "/" ++ Product.name
  | none, some home => return home ++ "/.config/" ++ Product.name
  | none, none => return Product.name

def wordsOf (t : Text) : List Text := (t.splitBy fun a b => Text.isWord a && Text.isWord b)

def lookUpNames (defines : Dict Text) : IO (Dict Text) :=
  (defines.flatMap fun d => wordsOf d.2).filterMapM fun name => do
    return (← IO.getEnv name.lossy).map fun v => (name, Text.ofString v)

def paths (r : Request) : List Text :=
  if r.command.takesScript then [r.script]
  else if r.command = .repl then (r.setting .source).asList
  else []

/-- Reads lines and shows what comes of them until the input ends. -/
partial def prompt (s : Session) : IO Unit := do
  let out ← IO.getStdout
  put out "> "
  let line ← (← IO.getStdin).getLine
  if line.isEmpty then put out "\n"
  else
    let (o, s) := s.eval (← now) .never line
    put out (Workspace.shownLoad o)
    prompt s

def settle (folder : String) (o : Outcome) : IO UInt32 := do
  put (← IO.getStdout) o.stdout
  put (← IO.getStderr) o.stderr
  if let some t := o.config? then
    IO.FS.createDirAll folder
    IO.FS.writeBinFile (folder ++ "/config.yaml") (bytesOf t)
  match o.trouble? with
  | some (.failed e) => if !o.isReported then put (← IO.getStderr) (e.text ++ [Text.newline])
  | some .usage => put (← IO.getStderr) Workspace.usage
  | some .badConfig => put (← IO.getStderr) "config.json: not a record of settings\n"
  | none => pure ()
  return o.status.toUInt32

end LoxLang.Main

open LoxLang LoxLang.Main in
def main (args : List String) : IO UInt32 := do
  let folder ← configFolder
  let bare : Workspace Text :=
    { disk := diskOf []
      stdin? := none
      input := []
      yaml? := ← fileText? (folder ++ "/config.yaml")
      json? := ← fileText? (folder ++ "/config.json")
      environment := fun _ => []
      now := ← now }
  match bare.request (args.map Text.ofString) with
  | .error o => settle folder o
  | .ok r =>
    let defines := (r.setting .define).asTable
    let input ←
      if (paths r).any fun p => p.isEmpty || p == stdinPath then
        textOf <$> readAll (← IO.getStdin) .empty
      else pure []
    let set ← lookUpNames defines
    let w : Workspace Text :=
      { bare with
        disk := diskOf (← (paths r).mapM lookUp)
        stdin? := ← placeOf? "/dev/stdin"
        input
        environment := fun name => (set.get? name).getD [] }
    if r.command = .repl then
      let (o, s) := w.session defines (r.setting .source).asList
      let status ← settle folder o
      if o.trouble?.isNone then prompt s
      return status
    else settle folder (w.perform r)
