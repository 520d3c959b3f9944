import LoxLang.Yaml.Passage

namespace LoxLang.Yaml

/-- The tokens so far and what is known of the line that is being read. -/
structure Scanner where
  line : Nat := 1
  column : Nat := 1
  indent : Nat := 0
  /-- Whether nothing but blanks has been read of the line. -/
  isFirst : Bool := true
  before : Char := '\n'
  /-- The scalar without quotes that is being read. -/
  buffer : Buffer := {}
  start : Nat × Nat := (1, 1)
  broken : Bool := false
  /-- The column of the last key or dash, or 0. -/
  delimiter : Nat := 0
  /-- How many brackets and how many braces are open. -/
  lists : Nat := 0
  tables : Nat := 0
  passage : Option Passage := none
  /-- The last token comes first. -/
  tokens : List Token := []

namespace Scanner

def isBusy (s : Scanner) : Bool := 0 < s.buffer.kept

def inFlow (s : Scanner) : Bool := 0 < s.lists || 0 < s.tables

def lastMark? (s : Scanner) : Option Mark := s.tokens.head?.map Token.mark

/-- Whether the last token is a tag that nobody knows, after which any scalar is a text. -/
def isTagged (s : Scanner) : Bool :=
  match s.tokens with
  | t :: _ => t.mark = .tag && !Token.isKnownTag t.text
  | [] => false

def clear (s : Scanner) : Scanner := { s with buffer := {}, broken := false }

/-- The scalar without quotes becomes a token. -/
def flush (s : Scanner) : Scanner :=
  if s.isBusy then
    let t : Token :=
      { mark := if s.isTagged then .text else .plain
        text := Text.ofChars s.buffer.trimmed.reverse
        line := s.start.1, column := s.start.2, broken := s.broken }
    { s.clear with tokens := t :: s.tokens }
  else s.clear

/-- The text of several lines becomes a token. -/
def flushPassage (p : Passage) (s : Scanner) : Scanner :=
  let t : Token :=
    { mark := .text, text := p.text s.buffer, line := p.line, column := p.column }
  { s.clear with tokens := t :: s.tokens, passage := none }

def pushText (s : Scanner) (mark : Mark) (columns : Nat) (text : Text) : Scanner :=
  { s.clear with
    tokens := { mark, text, line := s.line, column := s.column } :: s.tokens
    column := s.column + columns }

def push (s : Scanner) (mark : Mark) (columns : Nat) : Scanner := s.pushText mark columns []

def nextLine (s : Scanner) : Scanner :=
  { s with line := s.line + 1, column := 1, indent := 0, isFirst := true }

def add (s : Scanner) (c : Char) : Scanner :=
  { s with
    start := if s.buffer.chars.isEmpty then (s.line, s.column) else s.start
    buffer := s.buffer.add c
    column := s.column + 1 }

/-- A line ends within or after a scalar without quotes. Blanks before the break are dropped; the
break counts as a blank, and after an empty line as a line break. -/
def endLine (s : Scanner) : Scanner :=
  let b : Buffer :=
    if isBlank s.before then ⟨s.buffer.trimmed, s.buffer.kept⟩ else s.buffer
  let b : Buffer :=
    if 0 < b.kept && s.isFirst then
      match b.chars with
      | ' ' :: rest => ⟨'\n' :: rest, b.kept⟩
      | chars => ⟨'\n' :: chars, b.kept⟩
    else b.add ' '
  { s with buffer := b, broken := s.broken || 0 < b.kept }.nextLine

/-- One more character of a text of several lines. -/
def passage? (p : Passage) (s : Scanner) (c : Char) (rest : List Char) :
    Option (Scanner × List Char) :=
  let put (p : Passage) (b : Buffer) : Scanner :=
    { s with passage := some p, buffer := b, column := s.column + 1 }
  let c := if isBreak c then '\n' else c
  if rest.isEmpty then
    let (p, b) :=
      if s.isFirst && c = ' ' then p.addIndent s.buffer s.column else (p, s.buffer.add c)
    let p := p.note s.column
    if p.fits then some ({ s with buffer := b }.flushPassage p, []) else none
  else if c = '\n' then
    let p := p.endLine s.column
    let s := { s with passage := some p, buffer := s.buffer.add c }.nextLine
    some (if startsMarker rest then s.flushPassage p else s, rest)
  else if s.isFirst && c = ' ' then
    let (p, b) := p.addIndent s.buffer s.column
    some (put p b, rest)
  else if c = '\t' && (!s.isFirst || !p.isBefore s.column) then
    some (put p (s.buffer.addTab c), rest)
  else if c = '\t' || !p.followsIdle s.column then none
  else
    let p := p.note s.column
    if p.fits then
      let (p, b) := p.fold s.buffer s.column
      some ({ put p (b.addTab c) with delimiter := p.first - 1 }, rest)
    else none

def header? (s : Scanner) (c : Char) (rest : List Char) : Option (Scanner × List Char) := do
  let words := rest.takeWhile (!isBreak ·)
  let (strip, keep, indent) ← Passage.header? words
  let delimiter := if s.column = 1 then 1 else s.delimiter
  let p : Passage :=
    { literal := c = '|', strip, keep, indent
      first := if indent = 0 then 0 else delimiter + indent
      line := s.line, column := s.column }
  let rest := match rest.drop words.length with
    | '\r' :: '\n' :: rest => rest
    | rest => rest.drop 1
  return ({ s.clear with delimiter, passage := some p }.nextLine, rest)

/-- A tag, up to a blank, the end of the line, or a comma where one divides. -/
def tag? (s : Scanner) (rest : List Char) : Option (Scanner × List Char) :=
  let word := rest.takeWhile fun c => !(c = ' ' || isBreak c || (c = ',' && s.inFlow))
  if word.any fun c => c = '\x7b' || c = '\x7d' then none
  else if word.length = rest.length then some (s.clear, [])
  else some (s.pushText .tag (word.length + 1) (Text.ofChars ('!' :: word)), rest.drop word.length)

def name? (s : Scanner) (mark : Mark) (rest : List Char) : Option (Scanner × List Char) :=
  let ends (c : Char) : Bool :=
    isBlank c || isBreak c || (s.inFlow && ",[]\x7b\x7d".toList.contains c)
  let word := rest.takeWhile (!ends ·)
  let word := if mark = .alias && word.getLast? = some ':' then word.dropLast else word
  if word.isEmpty then none
  else some (s.pushText mark (word.length + 1) (Text.ofChars word), rest.drop word.length)

/-- Whether a colon divides a key from its value. Between braces any colon does, unless it stands
before a slash or in a value. -/
def divides (s : Scanner) (rest : List Char) : Bool :=
  if 0 < s.tables then rest.head? != some '/' && s.lastMark? != some .colon
  else (rest.head?.map fun c => isBlank c || isBreak c).getD true

/-- A colon that divides; the key decides which lines belong to the value. -/
def colon (s : Scanner) : Scanner :=
  let isKey := s.isBusy || s.lastMark? = some .text
  let s := s.flush
  let column := if isKey then (s.tokens.head?.map Token.column).getD 0 else s.delimiter
  { s.push .colon 1 with delimiter := column }

/-- Whether two angles start here that are the key of a merge. -/
def isMerge (rest : List Char) : Bool :=
  match rest with
  | '<' :: rest =>
    match rest.dropWhile (· = ' ') with
    | ':' :: c :: _ => c = ' ' || isBreak c
    | _ => false
  | _ => false

/-- Whether a line starts here with exactly three of a sign. -/
def isTriple (s : Scanner) (c : Char) (rest : List Char) : Bool :=
  s.indent = 0 && s.column = 1 && rest.take 2 == [c, c] && (rest.drop 2).head? != some c

/-- A sign or a character where no text of several lines is under way. -/
def ordinary? (isUp : Bool) (s : Scanner) (c : Char) (rest : List Char) :
    Option (Scanner × List Char) :=
  let plain : Option (Scanner × List Char) := some (s.add c, rest)
  let sign (mark : Mark) : Scanner := s.flush.push mark 1
  match c with
  | '\x7b' =>
    if s.isBusy && !s.inFlow then plain
    else some ({ sign .tableStart with tables := s.tables + 1 }, rest)
  | '\x7d' =>
    if 0 < s.tables then some ({ sign .tableEnd with tables := s.tables - 1 }, rest)
    else if s.isBusy then plain
    else none
  | '[' =>
    if s.isBusy && !s.inFlow then plain
    else some ({ sign .listStart with lists := s.lists + 1 }, rest)
  | ']' =>
    if 0 < s.lists then some ({ sign .listEnd with lists := s.lists - 1 }, rest)
    else if s.isBusy then plain
    else none
  | ',' => if s.inFlow then some (sign .comma, rest) else plain
  | '.' =>
    if s.isTriple c rest then some (s.flush.push .finish 3, rest.drop 2) else plain
  | '<' =>
    if isMerge rest && !s.isBusy then
      some ({ s.pushText .merge 2 "<<" with delimiter := s.column }, rest.drop 1)
    else plain
  | '-' =>
    if s.isTriple c rest then
      some ({ s.flush.push .header 3 with delimiter := 0 }, rest.drop 2)
    else if s.isBusy then
      if isUp then
        let p : Passage :=
          { literal := false, raw := true, first := s.column, current := s.column
            line := s.start.1, column := s.start.2 }
        some ({ s.add c with passage := some p }, rest)
      else plain
    else if (rest.head?.map fun c => isBlank c || isBreak c).getD true then
      some ({ s.push .dash 1 with delimiter := s.column }, rest)
    else plain
  | ':' => if s.divides rest then some (s.colon, rest) else plain
  | '|' | '>' => if s.isBusy then plain else s.header? c rest
  | '!' => if s.isBusy then plain else s.tag? rest
  | '%' =>
    if s.isBusy || s.indent ≠ 0 then plain
    else if s.column = 1 then
      let words := rest.takeWhile (!isBreak ·)
      some (s.pushText .directive (words.length + 1) (Text.ofChars words), rest.drop words.length)
    else none
  | '?' =>
    if !s.isBusy && (rest.head?.map isBlank).getD false then
      some ({ s.push .question 1 with delimiter := s.column }, rest)
    else plain
  | '&' => if s.isBusy then plain else s.name? .anchor rest
  | '*' => if s.isBusy then plain else s.name? .alias rest
  | '#' =>
    if s.isBusy && !(isBlank s.before || isBreak s.before) then plain
    else some (s.flush, rest.dropWhile (!isBreak ·))
  | '\'' | '"' =>
    if s.isBusy then plain
    else do
      let (q, rest) ← quoted? c s.line s.column rest
      let t : Token :=
        { mark := .text, text := q.text, line := s.line, column := s.column
          broken := s.line < q.line }
      let s := { s.clear with tokens := t :: s.tokens, isFirst := s.line < q.line }
      return ({ s with line := q.line, column := q.column }, rest)
  | '@' | '\x60' => if s.isBusy then plain else none
  | '\t' =>
    if s.isFirst && !s.inFlow then if s.isBusy then some (s, rest) else none
    else plain
  | ' ' => if s.isFirst then some ({ s with column := s.column + 1 }, rest) else plain
  | '\n' => some (if rest.isEmpty then s.flush.nextLine else s.endLine, rest)
  | _ => plain

def step? (s : Scanner) (c : Char) (rest : List Char) : Option (Scanner × List Char) :=
  let isContent := s.isFirst && !isBlank c && !isBreak c
  let isDown := isContent && s.delimiter ≠ 0 && s.column ≤ s.delimiter
  let isUp := isContent && s.delimiter ≠ 0 && s.delimiter < s.column
  let s := { s with
    isFirst := s.isFirst && !isContent
    indent := if s.isFirst && c = ' ' then s.indent + 1 else s.indent }
  match s.passage with
  | some p =>
    if isDown then ordinary? isUp (s.flushPassage p) c rest else s.passage? p c rest
  | none => ordinary? isUp (if isDown then s.flush else s) c rest

/-- Reads all characters. Two that break a line count as one. -/
def run? : Nat → Scanner → List Char → Option Scanner
  | 0, _, _ => none
  | _ + 1, s, [] =>
    match s.passage with
    | some p => some (s.flushPassage p)
    | none => some s.flush
  | n + 1, s, c :: rest => do
    let (c, rest) := match c, rest with
      | '\r', '\n' :: rest => ('\n', rest)
      | '\r', rest => ('\n', rest)
      | _, _ => (c, rest)
    let (t, left) ← s.step? c rest
    run? n { t with before := c } left

end Scanner

def Token.scan? (t : Text) : Option (List Token) :=
  let chars := t.chars
  (Scanner.run? (chars.length + 1) {} chars).map (·.tokens.reverse)

end LoxLang.Yaml
