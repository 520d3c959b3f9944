import LoxLang.Number.Double

namespace LoxLang.Double

/-- The quotient rounded to the nearest whole number, a half going to the even one. -/
def roundDiv (num den : Nat) : Nat :=
  let quotient := num / den
  match compare (2 * (num % den)) den with
  | .lt => quotient
  | .gt => quotient + 1
  | .eq => if quotient % 2 = 0 then quotient else quotient + 1

/-- The exponent at which `num / den` has a significand of 53 bits, or the least one there is. -/
def scale (num den : Nat) : Int :=
  let guess : Int := (Nat.log2 num : Int) - Nat.log2 den - 53
  let full : Int :=
    if den * Nat.pow 2 (53 + guess).toNat ≤ num * Nat.pow 2 (-(53 + guess)).toNat then guess + 1
    else guess
  max full (-1074)

def ofRatio (num den : Nat) : Float :=
  if num = 0 ∨ den = 0 then 0
  else
    let q := scale num den
    let m := roundDiv (num * Nat.pow 2 (-q).toNat) (den * Nat.pow 2 q.toNat)
    let bits := (q + 1074).toNat * Nat.pow 2 52 + m
    if 2047 * Nat.pow 2 52 ≤ bits then infinity else Float.ofBits bits.toUInt64

/-- The double nearest to `digits · 10 ^ exponent`. A number of more than 400 places is infinite
and one below `10 ^ -400` is zero, so that no power has to be written out. -/
def ofDecimal (digits : Nat) (exponent : Int) : Float :=
  let places : Int := (Nat.log2 digits : Int) * 30103 / 100000 + exponent
  if digits = 0 then 0
  else if 400 < places then infinity
  else if places < -400 then 0
  else ofRatio (digits * Nat.pow 10 exponent.toNat) (Nat.pow 10 (-exponent).toNat)

def ofInt (n : Int) : Float :=
  let x := ofRatio n.natAbs 1
  if n < 0 then -x else x

end LoxLang.Double
