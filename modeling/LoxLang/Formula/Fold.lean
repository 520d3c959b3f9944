import LoxLang.Formula.Operate

namespace LoxLang.Formula

def plainConstant? : Formula → Option Quantity
  | constant q =>
    match q with
    | .bool _ | .integer _ | .float _ | .text _ => some q
    | _ => none
  | _ => none

/-- A sign or a negation in front of a folded operand. -/
def foldUnary (operate? : Quantity → Option Quantity) (wrapped e : Formula) : Formula :=
  match plainConstant? e with
  | some q => ((operate? q).map constant).getD wrapped
  | none => wrapped

def foldsEqual : Quantity → Quantity → Bool
  | .integer _, .integer _ | .text _, .text _ | .bool _, .bool _ => true
  | _, _ => false

/-- An operator between folded operands, unless it divides by zero. -/
def foldBinary? (op : Operator) (l r : Formula) : Option Formula :=
  match op, plainConstant? l, plainConstant? r with
  | .and, some (.bool true), _ => some r
  | .and, _, some (.bool true) => some l
  | .and, some (.bool false), _ | .and, _, some (.bool false) => some (constant (.bool false))
  | .or, some (.bool false), _ => some r
  | .or, _, some (.bool false) => some l
  | .or, some (.bool true), _ | .or, _, some (.bool true) => some (constant (.bool true))
  | .rem, some (.integer a), some (.integer b) =>
    (operate? .rem (.integer a) (.integer b)).map constant
  | .equal, some a, some b =>
    if foldsEqual a b then (operate? .equal a b).map constant else some (binary op l r)
  | .add, some a, some b | .sub, some a, some b | .mul, some a, some b | .div, some a, some b =>
    some (((operate? op a b).map constant).getD (binary op l r))
  | _, _, _ => some (binary op l r)

def foldList (items : List Formula) : Formula :=
  match items.mapM plainConstant? with
  | some (q :: qs) => constant (.list (q :: qs))
  | _ => list items

mutual
/-- A formula with its constant parts folded, unless one of them divides by zero. -/
def fold? : Formula → Option Formula
  | constant q => some (constant q)
  | reader => some reader
  | not e => do
    let e ← e.fold?
    return foldUnary not? (not e) e
  | minus e => do
    let e ← e.fold?
    return foldUnary minus? (minus e) e
  | plus e => do
    let e ← e.fold?
    return foldUnary plus? (plus e) e
  | binary op l r => do
    let l ← l.fold?
    let r ← r.fold?
    foldBinary? op l r
  | chain e links => do
    let e ← e.fold?
    let links ← foldLinks? links
    return chain e links
  | choose c a b => do
    let c ← c.fold?
    let a ← a.fold?
    let b ← b.fold?
    return choose c a b
  | either c b => do
    let c ← c.fold?
    let b ← b.fold?
    return either c b
  | env e => do
    let e ← e.fold?
    return env e
  | list items => do
    let items ← foldItems? items
    return foldList items
  | record fields => do
    let fields ← foldFields? fields
    return record fields

def foldLinks? : List (Comparison × Formula) → Option (List (Comparison × Formula))
  | [] => some []
  | (c, e) :: links => do
    let e ← e.fold?
    let links ← foldLinks? links
    return (c, e) :: links

def foldItems? : List Formula → Option (List Formula)
  | [] => some []
  | e :: es => do
    let e ← e.fold?
    let es ← foldItems? es
    return e :: es

def foldFields? : List (Formula × Formula) → Option (List (Formula × Formula))
  | [] => some []
  | (k, e) :: fs => do
    let k ← k.fold?
    let e ← e.fold?
    let fs ← foldFields? fs
    return (k, e) :: fs
end

mutual
/-- The first constant that is zero and a fraction, with its sign. -/
def zero? : Formula → Option Float
  | constant (.float x) => if x == 0 then some x else none
  | constant _ | reader => none
  | not e | minus e | plus e | env e => e.zero?
  | binary _ l r => l.zero? <|> r.zero?
  | chain e links => e.zero? <|> linkZero? links
  | choose c a b => c.zero? <|> a.zero? <|> b.zero?
  | either c b => c.zero? <|> b.zero?
  | list items => itemZero? items
  | record fields => fieldZero? fields

def linkZero? : List (Comparison × Formula) → Option Float
  | [] => none
  | (_, e) :: links => e.zero? <|> linkZero? links

def itemZero? : List Formula → Option Float
  | [] => none
  | e :: es => e.zero? <|> itemZero? es

def fieldZero? : List (Formula × Formula) → Option Float
  | [] => none
  | (k, e) :: fs => k.zero? <|> e.zero? <|> fieldZero? fs
end

end LoxLang.Formula
