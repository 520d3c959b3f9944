import LoxLang.Formula
import LoxLang.Formula.Lexeme

namespace LoxLang.Formula

/-- The number a token denotes: whole unless it has a fraction or an exponent. -/
def number? (t : Text) : Option Formula :=
  let t := t.filter (· ≠ byte '_')
  let whole (base : Nat) (digits : Text) : Option Formula := do
    let n ← if digits.isEmpty then none else Text.natural? base digits
    if n < Nat.pow 2 63 then some (.constant (.integer n)) else none
  let mark := Text.lower (t.take 2)
  let isFraction := t.any fun b => b == byte '.' || b == byte 'e' || b == byte 'E'
  if mark = ("0x" : Text) then whole 16 (t.drop 2)
  else if mark = ("0b" : Text) && !isFraction then whole 2 (t.drop 2)
  else if mark = ("0o" : Text) && !isFraction then whole 8 (t.drop 2)
  else if !isFraction then whole 10 t
  else
    match Double.ofText? t with
    | some x => if Double.magnitude x = .infinite then none else some (.constant (.float x))
    | none => none

def operator? : Lexeme → Option Operator
  | .symbol s =>
    match s with
    | "||" | "or" => some .or
    | "&&" | "and" => some .and
    | "==" => some .equal
    | "!=" => some .differ
    | "+" => some .add
    | "-" => some .sub
    | "*" => some .mul
    | "/" => some .div
    | "%" => some .rem
    | _ => none
  | _ => none

def comparison? : Lexeme → Option Comparison
  | .symbol s =>
    match s with
    | "<" => some .less
    | "<=" => some .atMost
    | ">" => some .greater
    | ">=" => some .atLeast
    | _ => none
  | _ => none

def notStrength : Nat := 50

def signStrength : Nat := 90

mutual
/-- An operand and the operators after it that bind at least as tightly as `least`. -/
def expression? : Nat → Nat → List Lexeme → Option (Formula × List Lexeme)
  | 0, _, _ => none
  | n + 1, least, ts => do
    let (left, ts) ← operand? n ts
    let (e, ts) ← operators? n least left ts
    if least = 0 then conditional? n e ts else return (e, ts)

def operators? : Nat → Nat → Formula → List Lexeme → Option (Formula × List Lexeme)
  | 0, _, _, _ => none
  | _ + 1, _, left, [] => some (left, [])
  | n + 1, least, left, t :: ts =>
    match operator? t, comparison? t with
    | some op, _ =>
      if op.strength < least then some (left, t :: ts)
      else do
        let (right, rest) ← expression? n (op.strength + 1) ts
        operators? n least (.binary op left right) rest
    | none, some _ =>
      if Comparison.strength < least then some (left, t :: ts)
      else do
        let (links, rest) ← links? n (t :: ts)
        operators? n least (.chain left links) rest
    | none, none => some (left, t :: ts)

def links? : Nat → List Lexeme → Option (List (Comparison × Formula) × List Lexeme)
  | 0, _ => none
  | _ + 1, [] => some ([], [])
  | n + 1, t :: ts =>
    match comparison? t with
    | some c => do
      let (e, rest) ← expression? n (Comparison.strength + 1) ts
      let (links, rest) ← links? n rest
      return ((c, e) :: links, rest)
    | none => some ([], t :: ts)

/-- A choice between two formulas, if a question mark follows. -/
def conditional? : Nat → Formula → List Lexeme → Option (Formula × List Lexeme)
  | 0, _, _ => none
  | n + 1, c, .symbol "?" :: .symbol ":" :: ts => do
    let (no, ts) ← expression? n 0 ts
    conditional? n (.either c no) ts
  | n + 1, c, .symbol "?" :: ts => do
    let (yes, ts) ← expression? n 0 ts
    match ts with
    | .symbol ":" :: ts =>
      let (no, ts) ← expression? n 0 ts
      conditional? n (.choose c yes no) ts
    | _ => none
  | _ + 1, c, ts => some (c, ts)

def operand? : Nat → List Lexeme → Option (Formula × List Lexeme)
  | 0, _ => none
  | _ + 1, [] => none
  | n + 1, t :: ts =>
    match t with
    | .number d => (number? d).map (·, ts)
    | .string s => some (.constant (.text s), ts)
    | .word w =>
      if w = ("true" : Text) then some (.constant (.bool true), ts)
      else if w = ("false" : Text) then some (.constant (.bool false), ts)
      else if w = ("nil" : Text) then some (.constant .nil, ts)
      else if w = ("env" : Text) then
        match ts with
        | .symbol "(" :: ts => argument? n ts
        | _ => some (.reader, ts)
      else none
    | .symbol s =>
      match s with
      | "not" | "!" => do
        let (e, ts) ← expression? n notStrength ts
        return (.not e, ts)
      | "-" => do
        let (e, ts) ← expression? n signStrength ts
        return (.minus e, ts)
      | "+" => do
        let (e, ts) ← expression? n signStrength ts
        return (.plus e, ts)
      | "(" => do
        let (e, ts) ← expression? n 0 ts
        match ts with
        | .symbol ")" :: ts => return (e, ts)
        | _ => none
      | "[" => do
        let (items, ts) ← items? n ts
        return (.list items, ts)
      | "\x7b" => do
        let (fields, ts) ← fields? n ts
        return (.record fields, ts)
      | _ => none

/-- The argument of a call through the closing parenthesis; a comma may stand after it. -/
def argument? : Nat → List Lexeme → Option (Formula × List Lexeme)
  | 0, _ => none
  | n + 1, ts => do
    let (e, ts) ← expression? n 0 ts
    match ts with
    | .symbol ")" :: ts | .symbol "," :: .symbol ")" :: ts => return (.env e, ts)
    | _ => none

/-- The items of a list, through the closing bracket; a comma may end them. -/
def items? : Nat → List Lexeme → Option (List Formula × List Lexeme)
  | 0, _ => none
  | _ + 1, .symbol "]" :: ts => some ([], ts)
  | n + 1, ts => do
    let (e, ts) ← expression? n 0 ts
    match ts with
    | .symbol "]" :: ts => return ([e], ts)
    | .symbol "," :: ts =>
      let (es, ts) ← items? n ts
      return (e :: es, ts)
    | _ => none

/-- The fields of a record, through the closing brace; a comma may end them. A key is a word, a
number or a string, or a formula that starts with a parenthesis. -/
def fields? : Nat → List Lexeme → Option (List (Formula × Formula) × List Lexeme)
  | 0, _ => none
  | _ + 1, .symbol "\x7d" :: ts => some ([], ts)
  | n + 1, t :: ts => do
    let (key, ts) ← match t with
      | .number d => some (Formula.constant (.text d), ts)
      | .string s => some (.constant (.text s), ts)
      | .word w => some (.constant (.text w), ts)
      | .symbol "(" => expression? n 0 (t :: ts)
      | _ => none
    match ts with
    | .symbol ":" :: ts =>
      let (e, ts) ← expression? n 0 ts
      match ts with
      | .symbol "\x7d" :: ts => return ([(key, e)], ts)
      | .symbol "," :: ts =>
        let (fields, ts) ← fields? n ts
        return ((key, e) :: fields, ts)
      | _ => none
    | _ => none
  | _ + 1, [] => none
end

/-- Reads a formula, unless it is too large. -/
def read? (source : Text) : Option Formula := do
  let chars := source.chars
  let tokens ← Lexeme.scan? (chars.length + 1) chars
  let (e, rest) ← expression? (8 * (tokens.length + 1)) 0 tokens
  if rest.isEmpty && e.size ≤ sizeLimit then some e else none

end LoxLang.Formula
