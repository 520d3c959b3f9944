import LoxLang.Yaml.Scalar

namespace LoxLang.Yaml

inductive Mark where
  /-- A scalar without quotes, which may denote a number or a word. -/
  | plain
  | text
  | merge
  | anchor | alias | tag
  | dash | question | colon | comma
  | listStart | listEnd | tableStart | tableEnd
  /-- Three dashes, which start a document. -/
  | header
  | finish
  | directive
  deriving DecidableEq, Repr

structure Token where
  mark : Mark
  text : Text
  line : Nat
  column : Nat
  /-- Whether a scalar goes over several lines. -/
  broken : Bool := false

namespace Token

def scalarTags : List String :=
  ["!!int", "!!float", "!!str", "!!binary", "!!timestamp", "!!bool", "!!null"]

def knownTags : List String :=
  scalarTags ++ ["!!seq", "!!map", "!!omap", "!!set", "!!merge"]

def isKnownTag (t : Text) : Bool := isOneOf knownTags t

def isScalarTag (t : Text) : Bool := isOneOf scalarTags t

end Token

def isBreak (c : Char) : Bool := c = '\n' || c = '\r'

def isBlank (c : Char) : Bool := c = ' ' || c = '\t'

/-- Whether a line starts with the mark of a document, and nothing else stands on it. -/
def startsMarker (cs : List Char) : Bool :=
  let front := (cs.take 4).reverse.dropWhile (fun c => isBlank c || isBreak c)
  front == ['-', '-', '-'] || front == ['.', '.', '.']

/-- A text in quotes as far as it has been read. -/
structure Quote where
  /-- What it holds so far, the last character first. -/
  held : List Char := []
  /-- Whether nothing but blanks has been read of a line that is not the first. -/
  fresh : Bool := false
  line : Nat
  column : Nat

namespace Quote

def push (q : Quote) (columns : Nat) (c : Char) : Quote :=
  { q with held := c :: q.held, fresh := false, column := q.column + columns }

def skip (q : Quote) : Quote := { q with column := q.column + 1 }

/-- A line ends: the blanks before it are dropped, and it counts as a blank, unless the line was
empty. -/
def endLine (q : Quote) : Quote :=
  let held := q.held.dropWhile (· = ' ')
  let mark := if q.fresh then '\n' else ' '
  { held := mark :: held, fresh := true, line := q.line + 1, column := 1 }

def join (q : Quote) : Quote := { q with fresh := true, line := q.line + 1, column := 1 }

def text (q : Quote) : Text := Text.ofChars q.held.reverse

end Quote

/-- What is left after a line break of one or two characters in a quoted text. -/
def afterBreak? (q : Quote) (rest : List Char) : Option Quote :=
  if startsMarker rest then none else some q.endLine

/-- A text in single quotes after the first of them. Two quotes stand for one. -/
def single? (q : Quote) : List Char → Option (Quote × List Char)
  | [] => none
  | '\'' :: '\'' :: rest => single? (q.push 2 '\'') rest
  | c :: rest =>
    if c = '\'' then some (q.skip, rest)
    else if isBreak c then (afterBreak? q rest).bind (single? · rest)
    else if q.fresh && isBlank c then single? q.skip rest
    else single? (q.push 1 c) rest

def letters : List (Char × Nat) :=
  [('0', 0), ('a', 7), ('b', 8), ('t', 9), ('n', 10), ('v', 11), ('f', 12), ('r', 13), ('e', 27),
    (' ', 32), ('"', 34), ('/', 47), ('\\', 92), ('N', 0x85), ('_', 0xA0), ('L', 0x2028),
    ('P', 0x2029), ('\t', 9)]

/-- The value of a hexadecimal digit; what is none counts from the digit zero on. -/
def hexDigit (c : Char) : Int :=
  if 'A' ≤ c && c ≤ 'F' then c.toNat - 55
  else if 'a' ≤ c && c ≤ 'f' then c.toNat - 87
  else (c.toNat : Int) - 48

def hexNumber (cs : List Char) : Int := cs.foldl (fun n c => n * 16 + hexDigit c) 0

/-- The character of a number, with U+FFFD for what is none. -/
def character (n : Int) : Char :=
  if 0 ≤ n && n.toNat.isValidChar then Char.ofNat n.toNat else Utf8.replacement

/-- A character written with four digits, or two halves of one with four each, and how many
characters that takes after the backslash. -/
def unit? (cs : List Char) : Option (Char × Nat) :=
  let high := hexNumber (cs.take 4)
  if cs.length < 5 then none
  else if 0xD800 ≤ high ∧ high ≤ 0xDBFF then
    let low := hexNumber ((cs.drop 6).take 4)
    if 10 < cs.length ∧ (cs.drop 4).take 2 = ['\\', 'u'] ∧ 0xDC00 ≤ low ∧ low ≤ 0xDFFF then
      some (character ((high - 0xD800) * 0x400 + (low - 0xDC00) + 0x10000), 11)
    else none
  else some (character high, 5)

/-- The character that an escape stands for, and how many characters it takes after the
backslash. -/
def escape? : List Char → Option (Char × Nat)
  | [] => none
  | c :: rest =>
    match letters.lookup c with
    | some n => some (Char.ofNat n, 1)
    | none =>
      if c = 'x' then
        if rest.length < 2 then none else some (character (hexNumber (rest.take 2)), 3)
      else if c = 'u' then unit? rest
      else if c = 'U' then
        if rest.length < 8 then none else some (character (hexNumber (rest.take 8)), 9)
      else none

/-- A text in double quotes after the first of them. A line break after a backslash stands for
nothing. -/
def double? : Nat → Quote → List Char → Option (Quote × List Char)
  | 0, _, _ => none
  | _ + 1, _, [] => none
  | n + 1, q, c :: rest =>
    if c = '"' then some (q.skip, rest)
    else if isBreak c then (afterBreak? q rest).bind (double? n · rest)
    else if q.fresh && isBlank c then double? n q.skip rest
    else if c = '\\' then
      match rest with
      | '\r' :: '\n' :: rest | '\n' :: rest | '\r' :: rest => double? n q.join rest
      | _ => do
        let (e, size) ← escape? rest
        double? n (q.push (size + 1) e) (rest.drop size)
    else double? n (q.push 1 c) rest

def quoted? (mark : Char) (line column : Nat) (cs : List Char) : Option (Quote × List Char) :=
  let q : Quote := { line, column := column + 1 }
  if mark = '\'' then single? q cs else double? (cs.length + 1) q cs

end LoxLang.Yaml
