namespace LoxLang

abbrev Text := List UInt8

def byte (c : Char) : UInt8 := c.toNat.toUInt8

namespace Utf8

def encode (c : Char) : Text :=
  let n := c.toNat
  if n < 0x80 then [n.toUInt8]
  else if n < 0x800 then [(0xC0 + n / 64).toUInt8, (0x80 + n % 64).toUInt8]
  else if n < 0x10000 then
    [(0xE0 + n / 4096).toUInt8, (0x80 + n / 64 % 64).toUInt8, (0x80 + n % 64).toUInt8]
  else
    [(0xF0 + n / 262144).toUInt8, (0x80 + n / 4096 % 64).toUInt8,
      (0x80 + n / 64 % 64).toUInt8, (0x80 + n % 64).toUInt8]

def isTail (b : UInt8) : Bool := 0x80 ≤ b && b < 0xC0

/-- What a first byte announces: how many bytes follow it, the bits it carries itself, and the
least character that may be written at this length. -/
def lead (b : UInt8) : Option (Nat × Nat × Nat) :=
  if b < 0x80 then some (0, b.toNat, 0)
  else if b < 0xC0 then none
  else if b < 0xE0 then some (1, b.toNat - 0xC0, 0x80)
  else if b < 0xF0 then some (2, b.toNat - 0xE0, 0x800)
  else if b < 0xF8 then some (3, b.toNat - 0xF0, 0x10000)
  else none

/-- The character at the front of `b :: rest` and the number of bytes of `rest` it takes, or
`none` if `b` starts no well-formed character. -/
def character? (b : UInt8) (rest : Text) : Option (Char × Nat) :=
  match lead b with
  | none => none
  | some (n, high, least) =>
    let tails := rest.take n
    let code := tails.foldl (fun v t => v * 64 + (t.toNat - 0x80)) high
    if tails.length = n ∧ tails.all isTail ∧ least ≤ code ∧ code.isValidChar then
      some (Char.ofNat code, n)
    else none

/-- One character of a text, or one byte that is part of none, with the bytes it occupies. -/
structure Symbol where
  char? : Option Char
  bytes : Text
  deriving DecidableEq, Repr

/-- U+FFFD, which stands for a byte that is part of no character. -/
def replacement : Char := Char.ofNat 0xFFFD

def Symbol.char (r : Symbol) : Char := r.char?.getD replacement

/-- The number of bytes after the first that the symbol at the front of a text takes. -/
def extent (b : UInt8) (rest : Text) : Nat :=
  match character? b rest with
  | some (_, n) => n
  | none => 0

def symbols : Text → List Symbol
  | [] => []
  | b :: rest =>
    let n := extent b rest
    ⟨(character? b rest).map Prod.fst, b :: rest.take n⟩ :: symbols (rest.drop n)
termination_by t => t.length
decreasing_by simp only [List.length_drop, List.length_cons]; omega

/-- The symbol at the end of a text: the character that its last bytes form, or its last byte. -/
def last? (t : Text) : Option Symbol :=
  match t.getLast? with
  | none => none
  | some b =>
    let ending (n : Nat) : Option Symbol :=
      match t.drop (t.length - n) with
      | first :: rest =>
        match character? first rest with
        | some (c, k) => if k = rest.length then some ⟨some c, first :: rest⟩ else none
        | none => none
      | [] => none
    ([1, 2, 3, 4].findSome? ending).getD ⟨none, [b]⟩

end Utf8

namespace Text

def ofString (s : String) : Text := s.toList.flatMap Utf8.encode

instance : Coe String Text := ⟨ofString⟩

/-- The characters of a text, with U+FFFD for each byte that is part of none. -/
def chars (t : Text) : List Char := (Utf8.symbols t).map Utf8.Symbol.char

def ofChars (cs : List Char) : Text := cs.flatMap Utf8.encode

def ofNat (n : Nat) : Text := ofString n.repr

def ofInt (n : Int) : Text := if n < 0 then byte '-' :: ofNat n.natAbs else ofNat n.natAbs

/-- The string with these bytes, if they are UTF-8. -/
def toString? (t : Text) : Option String :=
  ((Utf8.symbols t).mapM Utf8.Symbol.char?).map String.ofList

/-- The string of a text, with U+FFFD for what is not UTF-8. -/
def lossy (t : Text) : String := String.ofList t.chars

def newline : UInt8 := 10

def newlines (t : Text) : Nat := t.count newline

/-- The lines between line breaks; a text without one is a single line. -/
def lines (t : Text) : List Text := t.splitOn newline

def join (sep : Text) (ts : List Text) : Text := (ts.intersperse sep).flatten

/-- Cuts a text at the first occurrence of a byte; there is no second part without one. -/
def cut (sep : UInt8) (t : Text) : Text × Option Text :=
  let front := t.takeWhile (· != sep)
  (front, if front.length < t.length then some (t.drop (front.length + 1)) else none)

/-- A text with U+FFFD for each byte that is part of no character. -/
def repaired (t : Text) : Text := ofChars t.chars

/-- The order of texts byte by byte, a shorter one before its extensions. -/
def before : Text → Text → Bool
  | [], _ => true
  | _ :: _, [] => false
  | a :: s, b :: t => if a == b then before s t else a < b

def sort (ts : List Text) : List Text := ts.mergeSort before

def isDigit (b : UInt8) : Bool := byte '0' ≤ b && b ≤ byte '9'

def digitsValue (t : Text) : Nat := t.foldl (fun n b => n * 10 + (b - byte '0').toNat) 0

def isLetter (b : UInt8) : Bool :=
  (byte 'a' ≤ b && b ≤ byte 'z') || (byte 'A' ≤ b && b ≤ byte 'Z') || b == byte '_'

def isWord (b : UInt8) : Bool := isLetter b || isDigit b

end Text

end LoxLang
