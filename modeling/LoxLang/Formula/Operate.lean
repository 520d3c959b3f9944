import LoxLang.Formula

namespace LoxLang.Formula

/-- Whole numbers wrap around at 64 bits. -/
def wrap (n : Int) : Int := Int.bmod n (Nat.pow 2 64)

def toFloat? : Quantity → Option Float
  | .integer n => some (Double.ofInt n)
  | .float x => some x
  | _ => none

mutual
def identical : Quantity → Quantity → Bool
  | .nil, .nil => true
  | .bool a, .bool b => a == b
  | .integer a, .integer b => a == b
  | .float a, .float b => a == b
  | .text a, .text b => a == b
  | .list a, .list b => identicalItems a b
  | .record a, .record b => a.length == b.length && covers a b
  | _, _ => false

def identicalItems : List Quantity → List Quantity → Bool
  | [], [] => true
  | a :: as, b :: bs => identical a b && identicalItems as bs
  | _, _ => false

def covers : List (Text × Quantity) → List (Text × Quantity) → Bool
  | [], _ => true
  | (k, a) :: rest, fields =>
    (match fields.lookup k with
      | some b => identical a b
      | none => false) && covers rest fields
end

mutual
/-- Equality of quantities. Numbers compare by value, in lists too; the fields of records have to
be identical. -/
def equal : Quantity → Quantity → Bool
  | .integer a, .float b => Double.ofInt a == b
  | .float a, .integer b => a == Double.ofInt b
  | .list a, .list b => equalItems a b
  | a, b => identical a b

def equalItems : List Quantity → List Quantity → Bool
  | [], [] => true
  | a :: as, b :: bs => equal a b && equalItems as bs
  | _, _ => false
end

def Comparison.decideBy (less atMost : α → α → Bool) : Comparison → α → α → Bool
  | .less, a, b => less a b
  | .atMost, a, b => atMost a b
  | .greater, a, b => less b a
  | .atLeast, a, b => atMost b a

/-- Compares two numbers or two texts; whole numbers compare exactly with each other. -/
def compare? (c : Comparison) : Quantity → Quantity → Option Bool
  | .text a, .text b => some (c.decideBy (fun s t => s != t && Text.before s t) Text.before a b)
  | .integer a, .integer b => some (c.decideBy (fun x y => decide (x < y)) (fun x y => x ≤ y) a b)
  | a, b => do
    let x ← toFloat? a
    let y ← toFloat? b
    return c.decideBy (fun x y => decide (x < y)) (fun x y => decide (x ≤ y)) x y

/-- An operation on two whole numbers or on two numbers of which one is a fraction. -/
def arithmetic? (integers : Int → Int → Int) (floats : Float → Float → Float) :
    Quantity → Quantity → Option Quantity
  | .integer a, .integer b => some (.integer (wrap (integers a b)))
  | a, b => do
    let x ← toFloat? a
    let y ← toFloat? b
    return .float (floats x y)

def operate? (op : Operator) (a b : Quantity) : Option Quantity :=
  match op with
  | .or | .and => none
  | .equal => some (.bool (equal a b))
  | .differ => some (.bool !(equal a b))
  | .add =>
    match a, b with
    | .text s, .text t => some (.text (s ++ t))
    | _, _ => arithmetic? (· + ·) (· + ·) a b
  | .sub => arithmetic? (· - ·) (· - ·) a b
  | .mul => arithmetic? (· * ·) (· * ·) a b
  | .div => do
    let x ← toFloat? a
    let y ← toFloat? b
    return .float (x / y)
  | .rem =>
    match a, b with
    | .integer x, .integer y => if y = 0 then none else some (.integer (wrap (Int.tmod x y)))
    | _, _ => none

def not? : Quantity → Option Quantity
  | .bool b => some (.bool !b)
  | _ => none

def minus? : Quantity → Option Quantity
  | .integer n => some (.integer (wrap (-n)))
  | .float x => some (.float (-x))
  | _ => none

def plus? : Quantity → Option Quantity
  | .integer n => some (.integer n)
  | .float x => some (.float x)
  | _ => none

/-- The fields without those whose name has already occurred. -/
def firstFields : List (Text × Quantity) → List (Text × Quantity)
  | [] => []
  | (k, v) :: fields => (k, v) :: (firstFields fields).filter (·.1 != k)

end LoxLang.Formula
