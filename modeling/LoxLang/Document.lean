import LoxLang.Datum
import LoxLang.Number.Layout

namespace LoxLang

inductive Document where
  | null
  | bool (b : Bool)
  | integer (n : Int)
  | number (x : Float)
  | text (t : Text)
  | list (items : List Document)
  | table (entries : List (Document × Document))

namespace Document

def keyText : Document → Text
  | null => "<nil>"
  | bool b => if b then "true" else "false"
  | integer n => Text.ofInt n
  | number x => Layout.general.write x
  | text t => t
  | list _ => "[]"
  | table _ => "map[]"

mutual
/-- The setting that a document stands for: numbers become text, in lists and tables too. -/
def setting : Document → Datum
  | null => .null
  | bool b => .bool b
  | integer n => .text (Text.ofInt n)
  | number x => .text (Layout.literal.write x)
  | text t => .text t
  | list items => .list (settings items)
  | table entries => .record (tableSettings entries)

def settings : List Document → List Datum
  | [] => []
  | d :: ds => d.setting :: settings ds

def tableSettings : List (Document × Document) → List (Text × Datum)
  | [] => []
  | (key, d) :: entries => (key.keyText, d.setting) :: tableSettings entries
end

end Document

end LoxLang
