import LoxLang.Value

namespace LoxLang

/-- What a formula denotes. Whole numbers are kept apart from fractions. -/
inductive Quantity where
  | nil
  | bool (b : Bool)
  | integer (n : Int)
  | float (x : Float)
  | text (t : Text)
  | list (items : List Quantity)
  | record (fields : List (Text × Quantity))
  /-- The function that reads a variable of the environment. -/
  | reader

namespace Quantity

def toValue : Quantity → Except String Value
  | nil => .ok .nil
  | bool b => .ok (.bool b)
  | integer n => .ok (.number (Double.ofInt n))
  | float x => .ok (.number x)
  | text t => .ok (.string t)
  | list _ => .error "[]interface \x7b\x7d"
  | record _ => .error "map[string]interface \x7b\x7d"
  | reader => .error "func(string) string"

end Quantity

namespace Formula

/-- Operators that evaluate their operands once. -/
inductive Operator where
  | or | and | equal | differ | add | sub | mul | div | rem
  deriving DecidableEq, Repr

inductive Comparison where
  | less | atMost | greater | atLeast
  deriving DecidableEq, Repr

def Operator.strength : Operator → Nat
  | or => 10
  | and => 15
  | equal | differ => 20
  | add | sub => 30
  | mul | div | rem => 60

def Comparison.strength : Nat := 20

end Formula

inductive Formula where
  | constant (q : Quantity)
  | not (e : Formula)
  | minus (e : Formula)
  | plus (e : Formula)
  | binary (op : Formula.Operator) (left right : Formula)
  /-- Comparisons in a row, each with the operand before it; all have to hold. -/
  | chain (first : Formula) (links : List (Formula.Comparison × Formula))
  | choose (condition yes no : Formula)
  /-- A choice whose condition is also what it yields where it holds. -/
  | either (condition no : Formula)
  /-- The function that reads a variable of the environment. -/
  | reader
  | env (name : Formula)
  | list (items : List Formula)
  | record (fields : List (Formula × Formula))

namespace Formula

mutual
/-- How many nodes a formula has. A call and its function, a field and its key are nodes too, and
between two comparisons in a row there is one that joins them. -/
def size : Formula → Nat
  | constant _ | reader => 1
  | not e | minus e | plus e => e.size + 1
  | binary _ l r => l.size + r.size + 1
  | chain e links => e.size + linksSize links + (2 * links.length - 1)
  | choose c y n => c.size + y.size + n.size + 1
  | either c n => c.size + n.size + 1
  | env e => e.size + 2
  | list items => itemsSize items + 1
  | record fields => fieldsSize fields + 1

def linksSize : List (Comparison × Formula) → Nat
  | [] => 0
  | (_, e) :: links => e.size + linksSize links

def itemsSize : List Formula → Nat
  | [] => 0
  | e :: es => e.size + itemsSize es

def fieldsSize : List (Formula × Formula) → Nat
  | [] => 0
  | (k, e) :: fs => k.size + e.size + 1 + fieldsSize fs
end

def sizeLimit : Nat := 10000

end Formula

end LoxLang
