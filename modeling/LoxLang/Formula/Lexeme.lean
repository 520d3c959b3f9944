import LoxLang.Text.Case
import LoxLang.Text.Digits
import LoxLang.Text.Letter

namespace LoxLang.Formula

inductive Lexeme where
  | number (t : Text)
  | string (t : Text)
  | word (t : Text)
  | symbol (s : String)
  deriving DecidableEq

namespace Lexeme

/-- The symbols of the language, a longer one before its beginnings. Some of them only keep others
from being read where they stand. -/
def symbols : List String :=
  ["==", "!=", "<=", ">=", "&&", "||", "?.", "??", "::", "**", "<", ">", "!", "+", "-", "*", "/",
    "%", "?", ":", ",", "(", ")", "[", "]", "\x7b", "\x7d"]

def wordSymbols : List String :=
  ["not", "and", "or", "in", "matches", "contains", "startsWith", "endsWith", "let", "if", "else"]

def letters : List (Char × Nat) :=
  [('a', 7), ('b', 8), ('f', 12), ('n', 10), ('r', 13), ('t', 9), ('v', 11), ('\\', 92)]

/-- The character of a number; half of a pair stands for nothing that can be shown. -/
def character? (n : Nat) : Option Text :=
  if n.isValidChar then some (Utf8.encode (Char.ofNat n))
  else if n < 0x110000 then some (Utf8.encode (Char.ofNat 0xFFFD))
  else none

/-- The character whose number has so many digits, and what follows them. -/
def numbered? (base width : Nat) (cs : List Char) : Option (Text × List Char) := do
  let digits := cs.take width
  if digits.length < width then none
  else
    let t ← character? (← Text.natural? base (Text.ofChars digits))
    return (t, cs.drop width)

/-- The character whose number stands before a brace, with one to six digits. -/
def braced? (cs : List Char) : Option (Text × List Char) := do
  let digits := cs.takeWhile (· != '\x7d')
  if digits.isEmpty || 6 < digits.length || digits.length = cs.length then none
  else
    let t ← character? (← Text.natural? 16 (Text.ofChars digits))
    return (t, cs.drop (digits.length + 1))

/-- The text that an escape after a backslash stands for, and what follows it. Of the two quotes
only the one around the string can be escaped. -/
def escape? (quote : Char) : List Char → Option (Text × List Char)
  | [] => none
  | c :: rest =>
    match letters.lookup c with
    | some n => some ([n.toUInt8], rest)
    | none =>
      if c = quote then some ([byte quote], rest)
      else if '0' ≤ c && c ≤ '3' then numbered? 8 3 (c :: rest)
      else if c = 'x' then numbered? 16 2 rest
      else if c = 'u' then
        if rest.head? = some '\x7b' then braced? (rest.drop 1) else numbered? 16 4 rest
      else if c = 'U' then numbered? 16 8 rest
      else none

/-- The body of a string up to its closing quote. It stands on one line; a carriage return in it
stands for a line break. -/
def string? (quote : Char) : Nat → List Char → Option (Text × List Char)
  | 0, _ => none
  | _ + 1, [] => none
  | n + 1, c :: rest =>
    if c = quote then some ([], rest)
    else if c = '\n' then none
    else do
      let (t, rest) ←
        if c = '\\' then escape? quote rest
        else some (if c = '\r' then [Text.newline] else Utf8.encode c, rest)
      let (u, rest) ← string? quote n rest
      return (t ++ u, rest)

/-- The body of a string without escapes up to its closing quote; two quotes stand for one. -/
def raw? (quote : Char) : List Char → Option (List Char × List Char)
  | [] => none
  | [c] => if c = quote then some ([], []) else none
  | c :: d :: rest =>
    if c = quote then
      if d = quote then (raw? quote rest).map fun (t, rest) => (quote :: t, rest)
      else some ([], d :: rest)
    else (raw? quote (d :: rest)).map fun (t, rest) => (c :: t, rest)

def isWordPart (c : Char) : Bool := isLetter c || isDecimal c || c = '_' || c = '$'

/-- The mark of a base after a zero, and what digits of that base look like. -/
def bases : List (Char × String) :=
  [('x', "0123456789abcdefABCDEF"), ('o', "01234567"), ('b', "01")]

/-- The mark of a base at the front of a number, and the digits that may follow. -/
def splitBase : List Char → List Char × String × List Char
  | '0' :: c :: rest =>
    match bases.find? (·.1 == c.toLower) with
    | some (_, digits) => (['0', c], digits, rest)
    | none => ([], "0123456789", '0' :: c :: rest)
  | cs => ([], "0123456789", cs)

def splitNumber (cs : List Char) : List Char × List Char :=
  let (mark, digits, cs) := splitBase cs
  let digit (c : Char) : Bool := digits.toList.contains c || c = '_'
  let whole := mark ++ cs.takeWhile digit
  let rest := cs.dropWhile digit
  let (fraction, rest) :=
    match rest with
    | '.' :: r => ('.' :: r.takeWhile digit, r.dropWhile digit)
    | _ => ([], rest)
  match rest with
  | e :: r =>
    if e = 'e' ∨ e = 'E' then
      let (sign, r) :=
        match r with
        | s :: r' => if s = '+' ∨ s = '-' then ([s], r') else ([], r)
        | [] => ([], r)
      (whole ++ fraction ++ e :: sign ++ r.takeWhile digit, r.dropWhile digit)
    else (whole ++ fraction, rest)
  | [] => (whole ++ fraction, rest)

/-- What follows a comment of several lines, if it ends. -/
def afterComment? : List Char → Option (List Char)
  | '*' :: '/' :: rest => some rest
  | _ :: rest => afterComment? rest
  | [] => none

def startsNumber : List Char → Bool
  | '.' :: d :: _ => d.isDigit
  | c :: _ => c.isDigit
  | [] => false

def symbol? (cs : List Char) : Option String :=
  symbols.find? fun s => s.toList.isPrefixOf cs

def ofWord (cs : List Char) : Lexeme :=
  let s := String.ofList cs
  if wordSymbols.contains s then .symbol s else .word (Text.ofChars cs)

/-- The tokens of a formula, if it has only tokens. -/
def scan? : Nat → List Char → Option (List Lexeme)
  | 0, _ => none
  | _ + 1, [] => some []
  | n + 1, c :: rest =>
    if isSpace c then scan? n rest
    else if c = '"' ∨ c = '\'' then do
      let (t, rest) ← string? c (rest.length + 1) rest
      return .string t :: (← scan? n rest)
    else if c = '\x60' then do
      let (t, rest) ← raw? c rest
      return .string (Text.ofChars t) :: (← scan? n rest)
    else if c = '/' ∧ rest.head? = some '/' then scan? n (rest.dropWhile (· != '\n'))
    else if c = '/' ∧ rest.head? = some '*' then (afterComment? (rest.drop 1)).bind (scan? n)
    else if startsNumber (c :: rest) then
      let (digits, rest) := splitNumber (c :: rest)
      match rest with
      | d :: _ =>
        if isWordPart d then none else (.number (Text.ofChars digits) :: ·) <$> scan? n rest
      | [] => some [.number (Text.ofChars digits)]
    else if isWordPart c then
      let word := c :: rest.takeWhile isWordPart
      (ofWord word :: ·) <$> scan? n (rest.dropWhile isWordPart)
    else
      match symbol? (c :: rest) with
      | some s => (.symbol s :: ·) <$> scan? n ((c :: rest).drop s.length)
      | none => none

end Lexeme

end LoxLang.Formula
