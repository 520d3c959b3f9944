import LoxLang.Dict

namespace LoxLang

inductive Datum where
  | null
  | bool (b : Bool)
  | number (x : Float)
  | text (t : Text)
  | list (items : List Datum)
  | record (fields : List (Text × Datum))

namespace Datum

def str (s : String) : Datum := .text s

def text? : Datum → Option Text
  | text t => some t
  | _ => none

def fields? : Datum → Option (List (Text × Datum))
  | record fs => some fs
  | _ => none

def isNull : Datum → Bool
  | null => true
  | _ => false

end Datum

end LoxLang
