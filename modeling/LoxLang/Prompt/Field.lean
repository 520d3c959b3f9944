import LoxLang.Text.Case

namespace LoxLang.Prompt

structure Field where
  chars : List Char
  cursor : Nat
  deriving DecidableEq, Repr

namespace Field

def empty : Field := ⟨[], 0⟩

def limit : Nat := 4096

def isControl (c : Char) : Bool := c.toNat < 0x20 || (0x7F ≤ c.toNat && c.toNat < 0xA0)

/-- What a field takes of typed or pasted characters: a blank for each tab or line break, and no
control characters or replacement characters. -/
def clean (cs : List Char) : List Char :=
  cs.filterMap fun c =>
    if c = Utf8.replacement then none
    else if c = '\t' ∨ c = '\n' ∨ c = '\r' then some ' '
    else if isControl c then none
    else some c

def text (f : Field) : Text := Text.ofChars f.chars

/-- Moves the cursor to a position, or to the end if that is nearer. -/
def moveTo (n : Nat) (f : Field) : Field := { f with cursor := min n f.chars.length }

/-- Replaces the line. The cursor keeps its place, but goes to the end if it would be outside or if
there was no line. -/
def put (cs : List Char) (f : Field) : Field :=
  let cs := cs.take limit
  let jump := (f.cursor == 0 && f.chars.isEmpty) || cs.length < f.cursor
  ⟨cs, if jump then cs.length else f.cursor⟩

def set (t : Text) (f : Field) : Field := f.put (clean t.chars)

def insert (cs : List Char) (f : Field) : Field :=
  let room := limit - f.chars.length
  let cs := (clean cs).take room
  if room = 0 then f
  else
    let (before, after) := f.chars.splitAt f.cursor
    { f with cursor := f.cursor + cs.length }.put (before ++ cs ++ after)

def left (f : Field) : Field := { f with cursor := f.cursor - 1 }

def right (f : Field) : Field := f.moveTo (f.cursor + 1)

def home (f : Field) : Field := { f with cursor := 0 }

def toEnd (f : Field) : Field := { f with cursor := f.chars.length }

def deleteFrom (start : Nat) (f : Field) : Field :=
  ⟨f.chars.take start ++ f.chars.drop f.cursor, start⟩

def backspace (f : Field) : Field := f.deleteFrom (f.cursor - 1)

def delete (f : Field) : Field := { f with chars := f.chars.eraseIdx f.cursor }

def deleteBefore (f : Field) : Field := f.deleteFrom 0

def deleteAfter (f : Field) : Field := { f with chars := f.chars.take f.cursor }

def skipBlanks (cs : List Char) : Nat → Nat
  | 0 => 0
  | p + 1 => if (cs[p + 1]?.map isSpace).getD false then skipBlanks cs p else p + 1

/-- Walks left to the start of a word; a blank before it is kept unless it starts the line. -/
def skipWord (cs : List Char) : Nat → Nat
  | 0 => 0
  | p + 1 => if (cs[p + 1]?.map isSpace).getD false then p + 2 else skipWord cs p

/-- Deletes the word before the cursor and the blanks after it. -/
def deleteWord (f : Field) : Field :=
  if f.cursor = 0 then f
  else f.deleteFrom (skipWord f.chars (skipBlanks f.chars (f.cursor - 1)))

end Field

end LoxLang.Prompt
