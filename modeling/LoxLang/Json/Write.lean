import LoxLang.Datum
import LoxLang.Number.Layout
import LoxLang.Text.Json

namespace LoxLang.Json

/-- The line break before an item at some depth, or nothing in a compact document. -/
def margin (indent depth : Nat) : Text :=
  if indent = 0 then [] else Text.newline :: List.replicate (indent * depth) (byte ' ')

def enclosed (opening closing : Char) (indent depth : Nat) (items : List Text) : Text :=
  if items.isEmpty then [byte opening, byte closing]
  else
    byte opening :: Text.join [byte ','] (items.map (margin indent (depth + 1) ++ ·)) ++
      margin indent depth ++ [byte closing]

def member (indent : Nat) (field : Text × Text) : Text :=
  string .document field.1 ++ (if indent = 0 then ":" else ": ") ++ field.2

mutual
def write (indent depth : Nat) : Datum → Text
  | .null => "null"
  | .bool b => if b then "true" else "false"
  | .number x => Layout.interchange.write x
  | .text t => string .document t
  | .list items => enclosed '[' ']' indent depth (writeItems indent (depth + 1) items)
  | .record fields =>
    enclosed '\x7b' '\x7d' indent depth
      ((Dict.sorted (writeFields indent (depth + 1) fields)).map (member indent))

def writeItems (indent depth : Nat) : List Datum → List Text
  | [] => []
  | d :: ds => write indent depth d :: writeItems indent depth ds

def writeFields (indent depth : Nat) : List (Text × Datum) → List (Text × Text)
  | [] => []
  | (name, d) :: fields => (name, write indent depth d) :: writeFields indent depth fields
end

mutual
/-- The first number that has no digits, and so cannot be written. -/
def unwritable? : Datum → Option Float
  | .number x =>
    match Double.magnitude x with
    | .finite _ _ => none
    | _ => some x
  | .list items => unwritableItem? items
  | .record fields => unwritableField? fields
  | .null => none
  | .bool _ => none
  | .text _ => none

def unwritableItem? : List Datum → Option Float
  | [] => none
  | d :: ds => (unwritable? d).or (unwritableItem? ds)

def unwritableField? : List (Text × Datum) → Option Float
  | [] => none
  | (_, d) :: fields => (unwritable? d).or (unwritableField? fields)
end

/-- A document, unless it holds a number that cannot be written. -/
def document (indent : Nat) (d : Datum) : Except Float Text :=
  match unwritable? d with
  | some x => .error x
  | none => .ok (write indent 0 d)

end LoxLang.Json
