import LoxLang.Text.Quoted
import LoxLang.Yaml.Scalar

namespace LoxLang.Yaml

def spaces (n : Nat) : Text := List.replicate n (byte ' ')

def shifted (n : Nat) (line : Text) : Text := if line.isEmpty then [] else spaces n ++ line

/-- The mark of a text of several lines: how its last line breaks are kept. -/
def literalMark (t : Text) : Text :=
  if [Text.newline, Text.newline].isSuffixOf t then "|+"
  else if [Text.newline].isSuffixOf t then "|"
  else "|-"

/-- The lines of a text of several lines, without the empty one after a last line break. -/
def literalLines (t : Text) : List Text :=
  if [Text.newline].isSuffixOf t then t.lines.dropLast else t.lines

/-- Lines moved to the right, of which only the last stays empty. -/
def literalBlock (n : Nat) (lines : List Text) : List Text :=
  lines.dropLast.map (spaces n ++ ·) ++ (lines.drop (lines.length - 1)).map (shifted n)

/-- A double; one that is a whole number keeps a decimal place. -/
def double (x : Float) : Text :=
  match Double.magnitude x with
  | .nan => ".nan"
  | .infinite => if Double.isNegative x then "-.inf" else ".inf"
  | .finite _ _ =>
    let t := Layout.general.write x
    if t.any fun b => b == byte '.' || b == byte 'e' then t else t ++ ".0"

def word (t : Text) : Text := if needsQuotes t then Quoted.encode t else t

/-- The parts of a value in block style: what can follow a field's name on its line, the lines of a
text after its mark, or the lines of a list or a record. -/
inductive Block where
  | inline (t : Text)
  | literal (mark : Text) (lines : List Text)
  | list (lines : List Text)
  | record (lines : List Text)

namespace Block

def ofText (t : Text) : Block :=
  if needsQuotes t then inline (Quoted.encode t)
  else if t.contains Text.newline then literal (literalMark t) (literalLines t)
  else inline t

def field (indent : Nat) (name : Text) : Block → List Text
  | inline t => [word name ++ ": " ++ t]
  | literal mark lines => (word name ++ ": " ++ mark) :: literalBlock indent lines
  | list lines => (word name ++ ":") :: lines
  | record lines => (word name ++ ":") :: lines.map (shifted indent)

def dashed : List Text → List Text
  | [] => ["-"]
  | line :: lines => ("- " ++ line) :: lines.map (shifted 2)

def item (indent : Nat) : Block → List Text
  | inline t => ["- " ++ t]
  | literal mark lines => ("- " ++ mark) :: lines.map (shifted indent)
  | list lines => dashed lines
  | record lines => dashed lines

def document (indent : Nat) : Block → List Text
  | inline t => [t]
  | literal mark lines => mark :: literalBlock indent lines
  | list lines => lines
  | record lines => lines

end Block

mutual
def block (indent : Nat) : Datum → Block
  | .null => .inline "null"
  | .bool b => .inline (if b then "true" else "false")
  | .number x => .inline (double x)
  | .text t => .ofText t
  | .list items =>
    if items.isEmpty then .inline "[]" else .list (blockItems indent items)
  | .record fields =>
    if fields.isEmpty then .inline "\x7b\x7d"
    else .record ((Dict.sorted (blockFields indent fields)).flatMap Prod.snd)

def blockItems (indent : Nat) : List Datum → List Text
  | [] => []
  | d :: ds => (block indent d).item indent ++ blockItems indent ds

def blockFields (indent : Nat) : List (Text × Datum) → List (Text × List Text)
  | [] => []
  | (name, d) :: fields =>
    (name, (block indent d).field indent name) :: blockFields indent fields
end

/-- A text between brackets, inside the given number of records. -/
def flowText (depth : Nat) (t : Text) : Text :=
  if needsQuotesInFlow t then Quoted.encode t
  else if t.contains Text.newline then
    Text.join [Text.newline] (literalMark t :: literalBlock (2 * depth) (literalLines t))
  else t

mutual
/-- A datum in flow style, inside the given number of records. -/
def flow (depth : Nat) : Datum → Text
  | .null => "null"
  | .bool b => if b then "true" else "false"
  | .number x => double x
  | .text t => flowText depth t
  | .list items => [byte '['] ++ Text.join ", " (flowItems depth items) ++ [byte ']']
  | .record fields =>
    [byte '\x7b'] ++
      Text.join ", " ((Dict.sorted (flowFields (depth + 1) fields)).map fun (name, t) =>
        flowText (depth + 1) name ++ ": " ++ t) ++
      [byte '\x7d']

def flowItems (depth : Nat) : List Datum → List Text
  | [] => []
  | d :: ds => flow depth d :: flowItems depth ds

def flowFields (depth : Nat) : List (Text × Datum) → List (Text × Text)
  | [] => []
  | (name, d) :: fields => (name, flow depth d) :: flowFields depth fields
end

def ended (lines : List Text) : Text := lines.flatMap (· ++ [Text.newline])

def document (indent : Nat) (d : Datum) : Text :=
  ended (if indent = 0 then [flow 0 d] else (block indent d).document indent)

/-- A record whose fields stay in their order. -/
def settings (indent : Nat) (fields : List (Text × Datum)) : Text :=
  ended ((blockFields indent fields).flatMap Prod.snd)

end LoxLang.Yaml
