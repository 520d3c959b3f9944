import LoxLang.Formula

namespace LoxLang.Formula

/-- The types of formulas; `any` is that of a choice between two others. -/
inductive Kind where
  | nil | bool | integer | float | text | list | record | reader | any
  deriving DecidableEq, Repr

namespace Kind

def isNumber : Kind → Bool
  | integer | float => true
  | _ => false

/-- Whether two types both satisfy a test, where `any` is taken for whatever fits. -/
def both (p : Kind → Bool) (a b : Kind) : Bool := (p a || a = any) && (p b || b = any)

def ofQuantity : Quantity → Kind
  | .nil => nil
  | .bool _ => bool
  | .integer _ => integer
  | .float _ => float
  | .text _ => text
  | .list _ => list
  | .record _ => record
  | .reader => reader

def arithmetic (a b : Kind) : Kind :=
  if a = any ∨ b = any then any else if a = float ∨ b = float then float else integer

def isBool (k : Kind) : Bool := k = bool
def isText (k : Kind) : Bool := k = text
def isInteger (k : Kind) : Bool := k = integer

/-- Whether values of two types may be tested for equality. -/
def comparable (a b : Kind) : Bool :=
  a = any || b = any || a = nil || b = nil || a = b || (a.isNumber && b.isNumber)

/-- Whether values of two types may be told smaller and larger. -/
def ordered (a b : Kind) : Bool := both isNumber a b || both isText a b

/-- The type of an operation, if the operands fit it. -/
def binary? (op : Operator) (a b : Kind) : Option Kind :=
  match op with
  | .or | .and => if both isBool a b then some bool else none
  | .equal | .differ => if comparable a b then some bool else none
  | .add =>
    if both isNumber a b then some (arithmetic a b)
    else if both isText a b then some (if a = any ∨ b = any then any else text)
    else none
  | .sub | .mul => if both isNumber a b then some (arithmetic a b) else none
  | .div => if both isNumber a b then some float else none
  | .rem => if both isInteger a b then some integer else none

/-- The type of a choice. Where one side is nil, the other decides. -/
def choose (a b : Kind) : Kind :=
  if a = nil then b else if b = nil then a else if a = b then a else any

end Kind

mutual
/-- The type of a formula, if its parts fit together. -/
def kind? : Formula → Option Kind
  | constant q => some (.ofQuantity q)
  | reader => some .reader
  | not e => do
    let k ← e.kind?
    if k = .bool ∨ k = .any then some .bool else none
  | minus e | plus e => do
    let k ← e.kind?
    if k.isNumber ∨ k = .any then some k else none
  | binary op l r => do
    let a ← l.kind?
    let b ← r.kind?
    Kind.binary? op a b
  | chain e links => do
    let k ← e.kind?
    linkKinds? k links
    return .bool
  | choose c a b => do
    let k ← c.kind?
    let x ← a.kind?
    let y ← b.kind?
    if k = .bool ∨ k = .any then some (Kind.choose x y) else none
  | either c b => do
    let k ← c.kind?
    let y ← b.kind?
    if k = .bool ∨ k = .any then some (Kind.choose k y) else none
  | env e => do
    let k ← e.kind?
    if k = .text ∨ k = .any then some .text else none
  | list items => do
    kinds? items
    return .list
  | record fields => do
    fieldKinds? fields
    return .record

/-- Whether the operands of comparisons in a row fit, after one of a given type. -/
def linkKinds? (before : Kind) : List (Comparison × Formula) → Option Unit
  | [] => some ()
  | (_, e) :: links => do
    let k ← e.kind?
    if Kind.ordered before k then linkKinds? k links else none

def kinds? : List Formula → Option Unit
  | [] => some ()
  | e :: es => do
    let _ ← e.kind?
    kinds? es

def fieldKinds? : List (Formula × Formula) → Option Unit
  | [] => some ()
  | (k, e) :: fs => do
    let _ ← k.kind?
    let _ ← e.kind?
    fieldKinds? fs
end

end LoxLang.Formula
