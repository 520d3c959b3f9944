import LoxLang.Screen
import LoxLang.Text.Case

namespace LoxLang.Prompt

def clamp (t : Text) (cursor : Int) : Nat := min cursor.toNat t.length

def isWordSymbol (r : Utf8.Symbol) : Bool :=
  match r.char? with
  | some c => c.toNat < 0x80 && Text.isWord (byte c)
  | none => false

def lastWordStart (t : Text) : Nat :=
  match t with
  | [] => 0
  | b :: rest =>
    match Utf8.last? (b :: rest) with
    | some r =>
      if isWordSymbol r then lastWordStart ((b :: rest).take (rest.length + 1 - max r.bytes.length 1))
      else rest.length + 1
    | none => 0
termination_by t.length
decreasing_by simp only [List.length_take, List.length_cons]; omega

def firstWordLength (t : Text) : Nat :=
  ((Utf8.symbols t).takeWhile isWordSymbol).foldl (fun n r => n + r.bytes.length) 0

structure Word where
  text : Text
  start : Nat
  stop : Nat
  deriving DecidableEq, Repr

/-- The word around a position; it is empty between two characters that are part of none. -/
def Word.at (t : Text) (cursor : Int) : Word :=
  let c := clamp t cursor
  let start := lastWordStart (t.take c)
  let stop := c + firstWordLength (t.drop c)
  ⟨(t.take stop).drop start, start, stop⟩

def trimEnd (t : Text) : Text := (t.reverse.dropWhile fun b => b == byte ' ' || b == 9).reverse

def Word.name? (w : Word) : Option Text :=
  match w.text with
  | [] => none
  | b :: _ => if Text.isDigit b then none else some w.text

def dropDot? (t : Text) : Option Text :=
  if t.getLast? = some (byte '.') then some t.dropLast else none

/-- The variable of which a text that ends in `name.` starts a property. Longer chains of
properties have none. -/
def receiverOf (before : Text) : Option Text := do
  let before ← dropDot? (trimEnd before)
  let before := trimEnd before
  let word := Word.at before before.length
  let name ← word.name?
  if (dropDot? (trimEnd (before.take word.start))).isSome then none else some name

/-- The receiver of a word that starts at a position, or nothing if the position is outside. -/
def receiver? (t : Text) (start : Int) : Option (Option Text) :=
  if 0 ≤ start ∧ start ≤ t.length then some (receiverOf (t.take start.toNat)) else none

/-- Walks back from the end of a text, given in reverse, to the parenthesis that is still open, and
gives what precedes it, in reverse. -/
def openParen? : Nat → Text → Option Text
  | _, [] => none
  | depth, b :: rest =>
    if b == byte ')' then openParen? (depth + 1) rest
    else if b == byte '(' then
      match depth with
      | 0 => some rest
      | depth + 1 => openParen? depth rest
    else openParen? depth rest

def commas (depth : Int) : Text → Nat
  | [] => 0
  | b :: rest =>
    if b == byte '(' then commas (depth + 1) rest
    else if b == byte ')' then commas (depth - 1) rest
    else if b == byte ',' && depth == 0 then commas depth rest + 1
    else commas depth rest

/-- A call whose arguments are being written. -/
structure Call where
  name : Text
  argument : Nat
  deriving DecidableEq, Repr

def Call.at? (t : Text) (cursor : Int) : Option Call := do
  let before := t.take (clamp t cursor)
  let callee := (← openParen? 0 before.reverse).reverse
  let name ← (Word.at callee callee.length).name?
  return ⟨name, commas 0 (before.drop (callee.length + 1))⟩

/-- A call's parameters, and a remark if there are fewer than the current argument needs. -/
def Call.hint (c : Call) (params : List Text) : Text :=
  Screen.block c.name ++ "(" ++ Text.join ", " (params.map Screen.block) ++ ")" ++
    if !params.isEmpty && params.length ≤ c.argument then (" too many arguments" : Text) else []

/-- A line with the semicolon that it lacks: what does not end a statement or block is taken for an
expression. -/
def terminated (line : Text) : Text :=
  let line := line.trim
  match line.getLast? with
  | none => line
  | some b => if b == byte ';' || b == byte '}' then line else line ++ [byte ';']

end LoxLang.Prompt
