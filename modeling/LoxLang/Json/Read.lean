import LoxLang.Datum
import LoxLang.Number.Layout
import LoxLang.Text.Digits

namespace LoxLang.Json

def isBlank (b : UInt8) : Bool := b == 32 || b == 9 || b == 10 || b == 13

def skip (t : Text) : Text := t.dropWhile isBlank

/-- A part of a string: a byte, or a 16-bit unit that was written by its number. -/
inductive Piece where
  | plain (b : UInt8)
  | unit (n : Nat)

def letter? (b : UInt8) : Option UInt8 :=
  if b == byte '"' || b == byte '\\' || b == byte '/' then some b
  else if b == byte 'b' then some 8
  else if b == byte 'f' then some 12
  else if b == byte 'n' then some 10
  else if b == byte 'r' then some 13
  else if b == byte 't' then some 9
  else none

def escape? : Text → Option (Piece × Text)
  | [] => none
  | b :: rest =>
    if b == byte 'u' then
      if rest.length < 4 then none
      else (Text.natural? 16 (rest.take 4)).map fun n => (.unit n, rest.drop 4)
    else (letter? b).map fun c => (.plain c, rest)

/-- The parts of a string up to its closing quote, and what follows it. -/
def pieces : Nat → Text → Option (List Piece × Text)
  | 0, _ => none
  | _ + 1, [] => none
  | fuel + 1, b :: rest =>
    if b == byte '"' then some ([], rest)
    else if b < 0x20 then none
    else do
      let (p, rest) ← if b == byte '\\' then escape? rest else some (.plain b, rest)
      let (ps, rest) ← pieces fuel rest
      return (p :: ps, rest)

def isHigh (n : Nat) : Bool := 0xD800 ≤ n && n < 0xDC00

def isLow (n : Nat) : Bool := 0xDC00 ≤ n && n < 0xE000

/-- The bytes of parts, after the first half of a pair that waits for the second. -/
def assemble : Option Nat → List Piece → Text
  | none, [] => []
  | some _, [] => Utf8.encode Utf8.replacement
  | none, .plain b :: rest => b :: assemble none rest
  | some _, .plain b :: rest => Utf8.encode Utf8.replacement ++ b :: assemble none rest
  | none, .unit n :: rest =>
    if isHigh n then assemble (some n) rest
    else Utf8.encode (if isLow n then Utf8.replacement else Char.ofNat n) ++ assemble none rest
  | some high, .unit n :: rest =>
    if isLow n then
      Utf8.encode (Char.ofNat (0x10000 + (high - 0xD800) * 0x400 + (n - 0xDC00))) ++
        assemble none rest
    else if isHigh n then Utf8.encode Utf8.replacement ++ assemble (some n) rest
    else
      Utf8.encode Utf8.replacement ++ Utf8.encode (Char.ofNat n) ++ assemble none rest

def string? (t : Text) : Option (Text × Text) :=
  (pieces t.length t).map fun (ps, rest) => (Text.repaired (assemble none ps), rest)

/-- The digits of a whole number without needless zeros, and what follows them. -/
def whole? (t : Text) : Option (Text × Text) :=
  let digits := t.takeWhile Text.isDigit
  if digits.isEmpty then none
  else if digits.head? == some (byte '0') then some (digits.take 1, t.drop 1)
  else some (digits, t.drop digits.length)

def fraction? (t : Text) : Option (Text × Text) :=
  match t with
  | b :: rest =>
    if b == byte '.' then
      let digits := rest.takeWhile Text.isDigit
      if digits.isEmpty then none else some (b :: digits, rest.drop digits.length)
    else some ([], t)
  | [] => some ([], [])

def exponent? (t : Text) : Option (Text × Text) :=
  match t with
  | b :: rest =>
    if b == byte 'e' || b == byte 'E' then
      let sign := rest.take 1 |>.filter fun s => s == byte '+' || s == byte '-'
      let rest := rest.drop sign.length
      let digits := rest.takeWhile Text.isDigit
      if digits.isEmpty then none else some (b :: sign ++ digits, rest.drop digits.length)
    else some ([], t)
  | [] => some ([], [])

/-- A number, if it is not too large for a double, and what follows it. -/
def number? (t : Text) : Option (Float × Text) := do
  let sign := t.take 1 |>.filter (· == byte '-')
  let (whole, rest) ← whole? (t.drop sign.length)
  let (fraction, rest) ← fraction? rest
  let (exponent, rest) ← exponent? rest
  let x ← Double.ofText? (sign ++ whole ++ fraction ++ exponent)
  match Double.magnitude x with
  | .finite _ _ => some (x, rest)
  | _ => none

def after? (word t : Text) : Option Text :=
  if word.isPrefixOf t then some (t.drop word.length) else none

mutual
def value? : Nat → Text → Option (Datum × Text)
  | 0, _ => none
  | fuel + 1, t =>
    match skip t with
    | [] => none
    | b :: rest =>
      if b == byte '"' then (string? rest).map fun (s, rest) => (.text s, rest)
      else if b == byte '[' then
        match skip rest with
        | [] => none
        | c :: rest' =>
          if c == byte ']' then some (.list [], rest')
          else (items? fuel rest).map fun (ds, rest) => (.list ds, rest)
      else if b == byte '\x7b' then
        match skip rest with
        | [] => none
        | c :: rest' =>
          if c == byte '\x7d' then some (.record [], rest')
          else (members? fuel rest).map fun (fs, rest) => (.record (Dict.ofList fs), rest)
      else
        ((after? "null" (b :: rest)).map fun rest => (Datum.null, rest)) <|>
        ((after? "true" (b :: rest)).map fun rest => (Datum.bool true, rest)) <|>
        ((after? "false" (b :: rest)).map fun rest => (Datum.bool false, rest)) <|>
        ((number? (b :: rest)).map fun (x, rest) => (Datum.number x, rest))

def items? : Nat → Text → Option (List Datum × Text)
  | 0, _ => none
  | fuel + 1, t => do
    let (d, rest) ← value? fuel t
    match skip rest with
    | [] => none
    | b :: rest =>
      if b == byte ']' then some ([d], rest)
      else if b == byte ',' then
        let (ds, rest) ← items? fuel rest
        return (d :: ds, rest)
      else none

/-- Named values with commas between them up to a closing brace. -/
def members? : Nat → Text → Option (List (Text × Datum) × Text)
  | 0, _ => none
  | fuel + 1, t => do
    let rest ← after? "\"" (skip t)
    let (name, rest) ← string? rest
    let rest ← after? ":" (skip rest)
    let (d, rest) ← value? fuel rest
    match skip rest with
    | [] => none
    | b :: rest =>
      if b == byte '\x7d' then some ([(name, d)], rest)
      else if b == byte ',' then
        let (fs, rest) ← members? fuel rest
        return ((name, d) :: fs, rest)
      else none
end

/-- The first value of a text; what follows it does not count. -/
def read? (t : Text) : Option Datum := (value? (2 * t.length + 2) t).map Prod.fst

end LoxLang.Json
