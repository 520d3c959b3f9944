import LoxLang.Yaml.Token

namespace LoxLang.Yaml

/-- Characters gathered for a scalar, the last one first, and how many of them there are up to the
last that is no blank. -/
structure Buffer where
  chars : List Char := []
  kept : Nat := 0

namespace Buffer

/-- Adds a character; blanks at the front are dropped. -/
def add (b : Buffer) (c : Char) : Buffer :=
  if b.chars.isEmpty && isBlank c then b
  else
    let chars := c :: b.chars
    ⟨chars, if isBlank c then b.kept else chars.length⟩

/-- Adds a character; only blanks that are no tabs are dropped at the front. -/
def addTab (b : Buffer) (c : Char) : Buffer :=
  if b.chars.isEmpty && c = ' ' then b
  else
    let chars := c :: b.chars
    ⟨chars, if c = ' ' then b.kept else chars.length⟩

def addBlank (b : Buffer) : Buffer := ⟨' ' :: b.chars, b.chars.length + 1⟩

/-- What has been gathered, without blanks at the end, the last character first. -/
def trimmed (b : Buffer) : List Char := b.chars.drop (b.chars.length - b.kept)

end Buffer

/-- A text of several lines that is being read. -/
structure Passage where
  literal : Bool
  /-- Whether it goes on from a scalar without quotes. -/
  raw : Bool := false
  strip : Bool := false
  keep : Bool := false
  indent : Nat := 0
  /-- The column at which it starts, once that is known. -/
  first : Nat := 0
  /-- The columns of the content of the line before and of this line; without content they are 0. -/
  previous : Nat := 0
  current : Nat := 0
  /-- The column of the last line that had content. -/
  last : Nat := 0
  /-- How far the lines without content before the first are indented. -/
  idle : Nat := 0
  /-- Whether the line break before may become a blank. -/
  folds : Bool := false
  line : Nat := 0
  column : Nat := 0

namespace Passage

/-- How the last line breaks are kept and how far the text is indented, as a header says after its
mark. -/
def options? (cs : List Char) : Option (Bool × Bool × Nat) :=
  let signs := cs.filter fun c => c = '-' || c = '+'
  let digits := cs.filter fun c => !(c = '-' || c = '+')
  let strip := cs.head? = some '-' || cs.getLast? = some '-'
  let keep := cs.head? = some '+' || cs.getLast? = some '+'
  match digits with
  | [] => if signs.length ≤ 2 then some (strip, keep, 0) else none
  | [d] =>
    if '1' ≤ d && d ≤ '9' && signs.length ≤ 2 then some (strip, keep, d.toNat - 48) else none
  | _ => none

def header? (cs : List Char) : Option (Bool × Bool × Nat) :=
  let rec uncommented : List Char → List Char
    | [] => []
    | c :: rest => if isBlank c && rest.head? = some '#' then [] else c :: uncommented rest
  options? ((uncommented cs).reverse.dropWhile isBlank).reverse

def note (p : Passage) (column : Nat) : Passage :=
  { p with
    first := if p.first = 0 then column else p.first
    current := if p.current = 0 then column else p.current }

def fits (p : Passage) : Bool := p.indent = 0 || p.first ≤ p.current

def followsIdle (p : Passage) (column : Nat) : Bool := p.first ≠ 0 || p.idle ≤ column

def endLine (p : Passage) (column : Nat) : Passage :=
  { p with
    idle := if p.first ≠ 0 then p.idle else column - 1
    previous := p.current
    last := if p.current ≠ 0 then p.current else p.last
    folds := true
    current := 0 }

def isBefore (p : Passage) (column : Nat) : Bool :=
  if p.first = 0 then column = 1 else column < p.first

def addIndent (p : Passage) (b : Buffer) (column : Nat) : Passage × Buffer :=
  if p.first = 0 || column < p.first then (p, b)
  else ({ p with folds := p.literal && p.folds }, b.addBlank)

/-- The first character of a line with content decides on the line breaks before it. -/
def fold (p : Passage) (b : Buffer) (column : Nat) : Passage × Buffer :=
  if p.literal || !p.folds then (p, b)
  else
    let b : Buffer :=
      match b.chars with
      | '\n' :: rest =>
        if p.current = p.previous then ⟨' ' :: rest, b.kept⟩
        else if p.previous = 0 && p.last = column && rest.head? = some '\n' then
          ⟨rest, rest.length⟩
        else b
      | _ => b
    ({ p with folds := false }, b)

/-- What has been read, with as many line breaks at its end as the header says. -/
def text (p : Passage) (b : Buffer) : Text :=
  let held := b.trimmed
  let breaks := (held.takeWhile (· = '\n')).length
  let held :=
    if p.strip || p.raw then (held.drop breaks).dropWhile (· = ' ')
    else if p.keep then held
    else held.drop (breaks - 1)
  let held := if held = ['\n'] then [] else held
  Text.ofChars (if p.keep && !p.strip && held.isEmpty then ['\n'] else held.reverse)

end Passage

end LoxLang.Yaml
