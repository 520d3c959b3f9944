import LoxLang.Text

namespace LoxLang

/-- What a file gives: it cannot be opened, it can be opened but not read, or it holds a text. -/
inductive Contents where
  | sealed
  | folder (path : Text)
  | text (t : Text)

/-- Files, told apart by `ι`, as paths find them. -/
structure Disk (ι : Type) where
  /-- The file that a path leads to, or why it leads to none. -/
  reach : Text → Except Text ι
  /-- The file that a path leads to once its steps back are taken. -/
  find? : Text → Option ι
  contents : ι → Contents

def stdinPath : Text := "-"

/-- Files to be read one after another, and whether standard input follows them. -/
structure Sources (ι : Type) where
  files : List ι
  stdin : Bool
  deriving DecidableEq

namespace Sources

variable {ι : Type}

def size (s : Sources ι) : Nat := s.files.length + if s.stdin then 1 else 0

/-- The files met so far, and the sources among them. -/
structure Search (ι : Type) where
  seen : List ι
  found : Sources ι

def isOpen (disk : Disk ι) (id : ι) : Bool :=
  match disk.contents id with
  | .sealed => false
  | _ => true

section

variable [DecidableEq ι]

def visit (disk : Disk ι) (stdin : Option ι) (s : Search ι) (path : Text) : Search ι :=
  if path = stdinPath then { s with found.stdin := true }
  else
    match disk.find? path with
    | none => s
    | some id =>
      if id ∈ s.seen then s
      else
        let seen := id :: s.seen
        if !isOpen disk id then { s with seen }
        else if stdin = some id then ⟨seen, { s.found with stdin := true }⟩
        else ⟨seen, { s.found with files := s.found.files ++ [id] }⟩

/-- The sources that paths lead to, unless there are none. Standard input may be a file itself. -/
def ofPaths (disk : Disk ι) (stdin : Option ι) (paths : List Text) : Option (Sources ι) :=
  let s := (paths.foldl (visit disk stdin) ⟨[], ⟨[], false⟩⟩).found
  if s.size = 0 then none else some s

end

def filesText (disk : Disk ι) : List ι → Text × Option Text
  | [] => ([], none)
  | id :: rest =>
    match disk.contents id with
    | .text t =>
      let (more, stop) := filesText disk rest
      (t ++ Text.newline :: more, stop)
    | .folder path => ([], some path)
    | .sealed => ([], none)

def read (disk : Disk ι) (input : Text) (s : Sources ι) : Text × Option Text :=
  match filesText disk s.files with
  | (t, none) => (if s.stdin then t ++ input else t, none)
  | stopped => stopped

end Sources

end LoxLang
