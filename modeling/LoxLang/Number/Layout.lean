import LoxLang.Text
import LoxLang.Number.Shortest
import LoxLang.Number.Nearest

namespace LoxLang

namespace Decimal

def digitText (d : Decimal) : Text := Text.ofNat d.digits

def leading (d : Decimal) : Int := d.digitText.length - 1 + d.exponent

def positional (d : Decimal) : Text :=
  let digits := d.digitText
  if 0 ≤ d.exponent then
    if d.digits = 0 then digits else digits ++ List.replicate d.exponent.toNat (byte '0')
  else
    let places := (-d.exponent).toNat
    if places < digits.length then
      digits.take (digits.length - places) ++ byte '.' :: digits.drop (digits.length - places)
    else
      byte '0' :: byte '.' :: (List.replicate (places - digits.length) (byte '0') ++ digits)

/-- One digit before the point and a signed exponent of at least `width` digits. -/
def scientific (width : Nat) (d : Decimal) : Text :=
  let digits := d.digitText
  let fraction := digits.drop 1
  let power := d.leading
  let places := Text.ofNat power.natAbs
  digits.take 1 ++ (if fraction.isEmpty then [] else byte '.' :: fraction) ++
    [byte 'e', if power < 0 then byte '-' else byte '+'] ++
    List.replicate (width - places.length) (byte '0') ++ places

end Decimal

/-- When a layout writes an exponent, how wide, and how it spells what has no digits. -/
structure Layout where
  /-- Whether a number whose first digit stands at this power of ten gets an exponent. -/
  exponential : Int → Bool
  exponentWidth : Nat
  positiveInfinity : String
  negativeInfinity : String
  nan : String

namespace Layout

/-- Never an exponent; the words of the language for what is not finite. -/
def plain : Layout := ⟨fun _ => false, 2, "Infinity", "-Infinity", "NaN"⟩

/-- Never an exponent; signed words for what is not finite. -/
def literal : Layout := ⟨fun _ => false, 2, "+Inf", "-Inf", "NaN"⟩

/-- An exponent below `1e-04` and from `1e+06`. -/
def general : Layout := ⟨fun p => p < -4 || 6 ≤ p, 2, "+Inf", "-Inf", "NaN"⟩

/-- The layout of interchange formats: an exponent below `1e-6` and from `1e21`, of any width. -/
def interchange : Layout := ⟨fun p => p < -6 || 21 ≤ p, 1, "+Inf", "-Inf", "NaN"⟩

def write (l : Layout) (x : Float) : Text :=
  let negative := Double.isNegative x
  match Double.magnitude x with
  | .nan => l.nan
  | .infinite => if negative then l.negativeInfinity else l.positiveInfinity
  | .finite m q =>
    let d := Decimal.shortest m q
    let digits :=
      if m ≠ 0 && l.exponential d.leading then d.scientific l.exponentWidth else d.positional
    if negative then byte '-' :: digits else digits

end Layout

namespace Double

def ofPositional (t : Text) : Float :=
  let whole := t.takeWhile Text.isDigit
  let fraction := (t.drop (whole.length + 1)).takeWhile Text.isDigit
  ofDecimal (Text.digitsValue (whole ++ fraction)) (-fraction.length)

/-- Reads an optional sign, digits, an optional fraction and an optional exponent, and nothing
else. -/
def ofText? (t : Text) : Option Float :=
  let (negative, t) :=
    match t with
    | b :: r =>
      if b == byte '-' then (true, r) else if b == byte '+' then (false, r) else (false, t)
    | [] => (false, t)
  let whole := t.takeWhile Text.isDigit
  let t := t.drop whole.length
  let (fraction, t) :=
    match t with
    | b :: r =>
      if b == byte '.' then (r.takeWhile Text.isDigit, r.dropWhile Text.isDigit) else ([], t)
    | [] => ([], t)
  let exponent? : Option Int :=
    match t with
    | [] => some 0
    | b :: r =>
      if b == byte 'e' || b == byte 'E' then
        let (down, r) :=
          match r with
          | s :: r' =>
            if s == byte '-' then (true, r') else if s == byte '+' then (false, r') else (false, r)
          | [] => (false, r)
        if r.isEmpty || !r.all Text.isDigit then none
        else
          let n : Int := Text.digitsValue r
          some (if down then -n else n)
      else none
  match exponent? with
  | none => none
  | some exponent =>
    if whole.isEmpty && fraction.isEmpty then none
    else
      let x := ofDecimal (Text.digitsValue (whole ++ fraction)) (exponent - fraction.length)
      some (if negative then -x else x)

end Double

end LoxLang
