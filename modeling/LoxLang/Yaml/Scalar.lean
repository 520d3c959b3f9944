import LoxLang.Document
import LoxLang.Text.Digits

namespace LoxLang.Yaml

def without (b : UInt8) (t : Text) : Text := if t.head? == some b then t.drop 1 else t

/-- The base and the digits of a whole number without its sign. -/
def based (t : Text) : Nat × Text :=
  if ("0x" : Text).isPrefixOf t then (16, t.drop 2)
  else if ("0o" : Text).isPrefixOf t then (8, t.drop 2)
  else if ("0b" : Text).isPrefixOf t then (2, t.drop 2)
  else if t.head? == some (byte '0') && 1 < t.length then (8, t)
  else (10, t)

/-- A whole number of 64 bits, with or without a sign. -/
def integer? (negative : Bool) (t : Text) : Option Document := do
  let (base, digits) := based t
  let n ← if digits.isEmpty then none else Text.natural? base digits
  if negative then if n ≤ Nat.pow 2 63 then some (.integer (-n)) else none
  else if n < Nat.pow 2 64 then some (.integer n)
  else none

def fractional? (t : Text) : Option Document := do
  let x ← Double.ofText? t
  match Double.magnitude x with
  | .finite _ _ => some (.number x)
  | _ => none

/-- The number that a text denotes. Underscores between its digits do not count; with a point it is
a double, else a whole number, which is octal after a needless zero. -/
def number? (t : Text) : Option Document :=
  let points := t.count (byte '.')
  if t.isEmpty || t.head? == some (byte '_') || 1 < points then none
  else
    let negative := t.head? == some (byte '-')
    let digits := (without (byte '-') (without (byte '+') t)).filter (· != byte '_')
    let marked := ["0x", "0o", "0b"].any fun s => (s : Text).isPrefixOf digits
    if points = 1 && !marked then
      fractional? (if negative then byte '-' :: digits else digits)
    else integer? negative digits

def nullWords : List String := ["null", "Null", "NULL", "~"]

def trueWords : List String := ["true", "True", "TRUE"]

def falseWords : List String := ["false", "False", "FALSE"]

def truthWords : List String :=
  ["y", "Y", "yes", "Yes", "YES", "n", "N", "no", "No", "NO", "on", "On", "ON", "off", "Off", "OFF"]

def isOneOf (words : List String) (t : Text) : Bool := words.any fun w => (w : Text) == t

def plain (t : Text) : Document :=
  if t.isEmpty || isOneOf nullWords t then .null
  else if isOneOf trueWords t then .bool true
  else if isOneOf falseWords t then .bool false
  else if isOneOf [".inf", ".Inf", ".INF"] t then .number Double.infinity
  else if isOneOf ["-.inf", "-.Inf", "-.INF"] t then .number (-Double.infinity)
  else if isOneOf [".nan", ".NaN", ".NAN"] t then .number (0.0 / 0.0)
  else (number? t).getD (.text t)

def isReserved (t : Text) : Bool :=
  isOneOf (nullWords ++ trueWords ++ falseWords ++ truthWords) t

/-- Bytes that mean something at the front of a value. -/
def indicators : Text := "*&[\x7b\x7d],!|>%'\"@ \x60"

def isClock (t : Text) : Bool :=
  t.head? != some (byte '0') && t.all fun b => Text.isDigit b || b == byte ':'

/-- Whether a colon or a dash stands before a blank, or a byte that ends a value occurs. -/
def hasMark : Text → Bool
  | [] => false
  | b :: rest =>
    b == byte '#' || b == byte '\\' ||
      ((b == byte ':' || b == byte '-') && rest.head? == some (byte ' ')) || hasMark rest

def needsQuotes (t : Text) : Bool :=
  match t.head?, t.getLast? with
  | some first, some last =>
    isReserved t || t == [byte '-'] || (number? t).isSome || indicators.contains first ||
      last == byte ':' || last == byte ' ' || isClock t || hasMark t
  | _, _ => true

def hasColon : Text → Bool
  | [] => false
  | b :: rest => (b == byte ':' && rest.head? != some (byte '/')) || hasColon rest

def needsQuotesInFlow (t : Text) : Bool :=
  t.any (fun b => ("]\x7d,'\"" : Text).contains b) || hasColon t || needsQuotes t

end LoxLang.Yaml
