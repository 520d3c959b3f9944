import LoxLang.Number.Double

namespace LoxLang

/-- The number `digits · 10 ^ exponent`. -/
structure Decimal where
  digits : Nat
  exponent : Int
  deriving DecidableEq, Repr

namespace Decimal

/-- The positive rational numbers that read back as one double, over a common denominator:
the double itself is `mid / den`, and the halfway points are `low / den` and `high / den`. -/
structure Interval where
  low : Nat
  mid : Nat
  high : Nat
  den : Nat
  closed : Bool
  deriving DecidableEq, Repr

/-- The decimals that read back as `m · 2 ^ q`. The neighbour below is only half as far away when
`m` is the least significand of its exponent. -/
def Interval.ofScaled (m : Nat) (q : Int) : Interval :=
  let below := if m = Nat.pow 2 52 ∧ -1074 < q then 1 else 2
  let up := Nat.pow 2 (q - 2).toNat
  { low := (4 * m - below) * up
    mid := 4 * m * up
    high := (4 * m + 2) * up
    den := Nat.pow 2 (2 - q).toNat
    closed := m % 2 = 0 }

def Interval.contains (i : Interval) (d : Decimal) : Bool :=
  let x := d.digits * Nat.pow 10 d.exponent.toNat * i.den
  let scale := Nat.pow 10 (-d.exponent).toNat
  if i.closed then i.low * scale ≤ x && x ≤ i.high * scale
  else i.low * scale < x && x < i.high * scale

def Interval.floor (i : Interval) (exponent : Int) : Decimal :=
  ⟨i.mid * Nat.pow 10 (-exponent).toNat / (i.den * Nat.pow 10 exponent.toNat), exponent⟩

/-- Twice the distance from the decimal's floor to the middle, against one step of the grid. -/
def Interval.closerBelow (i : Interval) (d : Decimal) : Ordering :=
  let unit := i.den * Nat.pow 10 d.exponent.toNat
  compare (2 * (i.mid * Nat.pow 10 (-d.exponent).toNat - d.digits * unit)) unit

/-- The point of the grid with this exponent that reads back, the nearer one if there are two. -/
def Interval.hit? (i : Interval) (exponent : Int) : Option Decimal :=
  let down := i.floor exponent
  let up := { down with digits := down.digits + 1 }
  match i.contains down, i.contains up with
  | true, true =>
    match i.closerBelow down with
    | .lt => some down
    | .gt => some up
    | .eq => some (if down.digits % 2 = 0 then down else up)
  | true, false => some down
  | false, true => some up
  | false, false => none

/-- The power of ten of the first digit of `num / den`. The binary logarithm is at most one off,
which leaves three candidates. -/
def magnitude (num den : Nat) : Int :=
  let guess : Int := (Nat.log2 num : Int) - Nat.log2 den
  let start := guess * 30103 / 100000 - 1
  let reaches (e : Int) : Bool := den * Nat.pow 10 e.toNat ≤ num * Nat.pow 10 (-e).toNat
  if reaches (start + 2) then start + 2 else if reaches (start + 1) then start + 1 else start

/-- The first grid, from coarse to fine, that holds a decimal which reads back. -/
def Interval.search (i : Interval) (top : Int) : Nat → Nat → Decimal
  | 0, n => i.floor (top - n)
  | left + 1, n =>
    match i.hit? (top - n) with
    | some d => d
    | none => i.search top left (n + 1)

def trim (d : Decimal) : Nat → Decimal
  | 0 => d
  | left + 1 =>
    if d.digits ≠ 0 ∧ d.digits % 10 = 0 then trim ⟨d.digits / 10, d.exponent + 1⟩ left else d

/-- The shortest decimal that reads back as `m · 2 ^ q`. -/
def shortest (m : Nat) (q : Int) : Decimal :=
  if m = 0 then ⟨0, 0⟩
  else
    let i := Interval.ofScaled m q
    (i.search (magnitude i.mid i.den) 17 0).trim 20

end Decimal

end LoxLang
