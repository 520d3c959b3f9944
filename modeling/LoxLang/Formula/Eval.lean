import LoxLang.Formula.Fold
import LoxLang.Formula.Kind
import LoxLang.Formula.Read

namespace LoxLang.Formula

/-- What a formula is evaluated in. Equal constants are kept once, so every zero that is a fraction
has the sign of the first of them. -/
structure Context where
  environment : Text → Text
  zero : Float

namespace Context

def shared (s : Context) : Quantity → Quantity
  | .float x => if x == 0 then .float s.zero else .float x
  | q => q

end Context

/-- Whether an equality takes its operands for whole numbers or for texts on the word of their
types alone. -/
def isStrict (l r : Formula) : Bool :=
  match l.kind?, r.kind? with
  | some .integer, some .integer | some .text, some .text => true
  | _, _ => false

/-- Whether two quantities are both whole numbers or both texts. -/
def isAlike : Quantity → Quantity → Bool
  | .integer _, .integer _ | .text _, .text _ => true
  | _, _ => false

mutual
/-- The quantity of a formula. The second operand of `and` and `or` is what they yield where the
first does not decide. -/
def value? (s : Context) : Formula → Option Quantity
  | constant q => some (s.shared q)
  | reader => some .reader
  | not e => do
    let q ← e.value? s
    not? q
  | minus e => do
    let q ← e.value? s
    minus? q
  | plus e => do
    let q ← e.value? s
    plus? q
  | binary op l r => do
    let a ← l.value? s
    match op, a with
    | .or, .bool b => if b then some (.bool true) else r.value? s
    | .and, .bool b => if b then r.value? s else some (.bool false)
    | _, _ => do
      let b ← r.value? s
      if (op = .equal ∨ op = .differ) ∧ isStrict l r ∧ !isAlike a b then none
      else operate? op a b
  | chain e links => do
    let q ← e.value? s
    linkValues? s q links
  | choose c a b => do
    match ← c.value? s with
    | .bool true => a.value? s
    | .bool false => b.value? s
    | _ => none
  | either c b => do
    match ← c.value? s with
    | .bool true => some (.bool true)
    | .bool false => b.value? s
    | _ => none
  | env e => do
    match ← e.value? s with
    | .text name => some (.text (s.environment name))
    | _ => none
  | list items => do
    let vs ← values? s items
    return .list vs
  | record fields => do
    let vs ← fieldValues? s fields
    return .record (firstFields vs)

/-- Whether all comparisons in a row hold, up to the first that does not. -/
def linkValues? (s : Context) (before : Quantity) :
    List (Comparison × Formula) → Option Quantity
  | [] => some (.bool true)
  | (c, e) :: links => do
    let q ← e.value? s
    if ← compare? c before q then linkValues? s q links else some (.bool false)

def values? (s : Context) : List Formula → Option (List Quantity)
  | [] => some []
  | e :: es => do
    let v ← e.value? s
    let vs ← values? s es
    return v :: vs

def fieldValues? (s : Context) : List (Formula × Formula) → Option (List (Text × Quantity))
  | [] => some []
  | (k, e) :: fs => do
    match ← k.value? s with
    | .text name =>
      let v ← e.value? s
      let vs ← fieldValues? s fs
      return (name, v) :: vs
    | _ => none
end

/-- Reads, checks, folds and evaluates a formula. -/
def run? (environment : Text → Text) (source : Text) : Option Quantity := do
  let e ← read? source
  let _ ← e.kind?
  let e ← e.fold?
  e.value? ⟨environment, e.zero?.getD 0⟩

end LoxLang.Formula
