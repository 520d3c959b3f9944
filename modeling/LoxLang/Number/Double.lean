namespace LoxLang

/-- A double's size: `m · 2 ^ q` if it is finite. -/
inductive Magnitude where
  | finite (m : Nat) (q : Int)
  | infinite
  | nan
  deriving DecidableEq, Repr

namespace Double

def magnitude (x : Float) : Magnitude :=
  let bits : Nat := x.toBits.toNat % Nat.pow 2 63
  let exponent : Nat := bits / Nat.pow 2 52
  let fraction : Nat := bits % Nat.pow 2 52
  if exponent = 2047 then if fraction = 0 then .infinite else .nan
  else if exponent = 0 then .finite fraction (-1074)
  else .finite (Nat.pow 2 52 + fraction) ((exponent : Int) - 1075)

def isNegative (x : Float) : Bool := Nat.pow 2 63 ≤ x.toBits.toNat

def infinity : Float := Float.ofBits 0x7FF0000000000000

def nan : Float := Float.ofBits 0x7FF8000000000000

end Double

end LoxLang
