import LoxLang.Text

namespace LoxLang

def isSpace (c : Char) : Bool :=
  let n := c.toNat
  (9 ≤ n && n ≤ 13) || n == 0x20 || n == 0x85 || n == 0xA0 || n == 0x1680 ||
    (0x2000 ≤ n && n ≤ 0x200A) || n == 0x2028 || n == 0x2029 || n == 0x202F || n == 0x205F ||
    n == 0x3000

namespace Text

def isSpaceSymbol (r : Utf8.Symbol) : Bool :=
  match r.char? with
  | some c => isSpace c
  | none => false

/-- Drops white space at both ends. -/
def trim (t : Text) : Text :=
  let dropFront (rs : List Utf8.Symbol) := rs.dropWhile isSpaceSymbol
  ((dropFront (dropFront (Utf8.symbols t)).reverse).reverse).flatMap Utf8.Symbol.bytes

def lowerByte (b : UInt8) : UInt8 := if byte 'A' ≤ b && b ≤ byte 'Z' then b + 32 else b

def upperByte (b : UInt8) : UInt8 := if byte 'a' ≤ b && b ≤ byte 'z' then b - 32 else b

def lower (t : Text) : Text := t.map lowerByte

def upper (t : Text) : Text := t.map upperByte

/-- The ASCII letter that a character's capital is, or the character itself. -/
def capital (c : Char) : Char :=
  if c.toNat = 0x131 then 'I' else if c.toNat = 0x17F then 'S' else c.toUpper

/-- The ASCII letter that a character is a case of, in lower case, or the character itself. -/
def fold (c : Char) : Char :=
  if c.toNat = 0x17F then 's' else if c.toNat = 0x212A then 'k' else c.toLower

def sameFold (s t : Text) : Bool := s.chars.map fold == t.chars.map fold

/-- A whole number of at most 64 bits with an optional sign. -/
def toInt64? (t : Text) : Option Int64 :=
  let (negative, digits) :=
    match t with
    | b :: r =>
      if b == byte '-' then (true, r) else if b == byte '+' then (false, r) else (false, t)
    | [] => (false, t)
  if digits.isEmpty || !digits.all isDigit then none
  else
    let size : Int := digitsValue digits
    let n := if negative then -size else size
    if -(Nat.pow 2 63 : Int) ≤ n ∧ n < (Nat.pow 2 63 : Int) then some (Int64.ofInt n) else none

end Text

end LoxLang
