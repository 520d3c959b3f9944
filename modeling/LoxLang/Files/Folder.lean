import LoxLang.Files

namespace LoxLang

abbrev Steps := List Text

/-- What stands at a place of a tree that is no folder. -/
inductive Entry where
  | file (t : Text)
  | link (target : Text)

/-- A tree of files, and the folder in it where paths start. -/
structure Folder where
  entries : List (Steps × Entry)
  home : Steps

namespace Folder

def slash : UInt8 := byte '/'

def stepsOf (path : Text) : Steps := path.splitOn slash

def isHere (step : Text) : Bool := step.isEmpty || step == [byte '.']

def isBack (step : Text) : Bool := step == ("..": Text)

def isFolder (f : Folder) (place : Steps) : Bool :=
  f.entries.any fun e => place.isPrefixOf e.1 && place.length < e.1.length

def missing : Text := "no such file or directory"

def walk (f : Folder) (links : Nat) (place : Steps) : Steps → Except Text Steps
  | [] => .ok place
  | step :: rest =>
    if isHere step then walk f links place rest
    else if isBack step then walk f links place.dropLast rest
    else
      let next := place ++ [step]
      match f.entries.lookup next with
      | some (.file _) => if rest.isEmpty then .ok next else .error "not a directory"
      | some (.link target) =>
        match links with
        | 0 => .error "too many levels of symbolic links"
        | links + 1 =>
          if target.head? == some slash then .error missing
          else walk f links place (stepsOf target ++ rest)
      | none => if f.isFolder next then walk f links next rest else .error missing
termination_by steps => (links, steps.length)

/-- A place after steps of which those back are taken first. -/
def tidied (place : Steps) (steps : Steps) : Steps :=
  steps.foldl (fun place step =>
    if isHere step then place else if isBack step then place.dropLast else place ++ [step]) place

def maxLinks : Nat := 255

/-- The tree as a disk. Nothing is known of places outside the tree. -/
def disk (f : Folder) : Disk Steps where
  reach path :=
    if path.head? == some slash then .error missing
    else f.walk maxLinks f.home (stepsOf path)
  find? path :=
    if path.head? == some slash then none
    else (f.walk maxLinks [] (tidied f.home (stepsOf path))).toOption
  contents place :=
    match f.entries.lookup place with
    | some (.file t) => .text t
    | _ => .folder (slash :: Text.join [slash] place)

end Folder

end LoxLang
