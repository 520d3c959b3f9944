import LoxLang.Diagnostic

namespace LoxLang

namespace Scan

inductive Class where
  | token (kind : Token.Kind)
  | blank
  | comment
  | unexpected
  | unterminated
  deriving DecidableEq, Repr

structure Piece where
  cls : Class
  text : Text
  deriving DecidableEq, Repr

/-- `two` and one more byte if the text goes on with `=`, else `one`. -/
def operator (one two : Token.Kind) : Text → Class × Nat
  | b :: _ => if b = byte '=' then (.token two, 1) else (.token one, 0)
  | [] => (.token one, 0)

/-- The number of bytes that continue a number after its first digit: digits, and a point if a
digit follows it. -/
def numberExtent (rest : Text) : Nat :=
  let whole := (rest.takeWhile Text.isDigit).length
  match rest.drop whole with
  | p :: d :: more =>
    if p = byte '.' ∧ Text.isDigit d then whole + 1 + ((d :: more).takeWhile Text.isDigit).length
    else whole
  | _ => whole

/-- A string runs to the next quote, or to the end of the text if there is none. -/
def stringExtent (rest : Text) : Class × Nat :=
  let body := (rest.takeWhile (· ≠ byte '"')).length
  if body < rest.length then (.token .string, body + 1) else (.unterminated, body)

/-- The class of the piece at the front of `b :: rest` and how many bytes of `rest` it takes. -/
def front (b : UInt8) (rest : Text) : Class × Nat :=
  if b = byte '(' then (.token .leftParen, 0)
  else if b = byte ')' then (.token .rightParen, 0)
  else if b = byte '{' then (.token .leftBrace, 0)
  else if b = byte '}' then (.token .rightBrace, 0)
  else if b = byte ',' then (.token .comma, 0)
  else if b = byte '.' then (.token .dot, 0)
  else if b = byte '-' then (.token .minus, 0)
  else if b = byte '+' then (.token .plus, 0)
  else if b = byte ';' then (.token .semicolon, 0)
  else if b = byte '*' then (.token .star, 0)
  else if b = byte '!' then operator .bang .bangEqual rest
  else if b = byte '=' then operator .equal .equalEqual rest
  else if b = byte '<' then operator .less .lessEqual rest
  else if b = byte '>' then operator .greater .greaterEqual rest
  else if b = byte '/' then
    if rest.head? = some (byte '/') then (.comment, (rest.takeWhile (· ≠ Text.newline)).length)
    else (.token .slash, 0)
  else if b = byte ' ' ∨ b = byte '\r' ∨ b = byte '\t' ∨ b = Text.newline then (.blank, 0)
  else if b = byte '"' then stringExtent rest
  else if Text.isDigit b then (.token .number, numberExtent rest)
  else if Text.isLetter b then
    let word := rest.takeWhile Text.isWord
    (.token (Token.Kind.ofWord (b :: word)), word.length)
  else (.unexpected, Utf8.extent b rest)

def pieces : Text → List Piece
  | [] => []
  | b :: rest =>
    let (cls, n) := front b rest
    ⟨cls, b :: rest.take n⟩ :: pieces (rest.drop n)
termination_by t => t.length
decreasing_by simp only [List.length_drop, List.length_cons]; omega

def literal? (kind : Token.Kind) (lexeme : Text) : Option Literal :=
  match kind with
  | .number => some (.number (Double.ofPositional lexeme))
  | .string => some (.string lexeme.tail.dropLast)
  | _ => none

def Piece.token? (p : Piece) (line : Nat) : Option Token :=
  match p.cls with
  | .token kind => some ⟨kind, p.text, literal? kind p.text, line⟩
  | _ => none

def Piece.fault? (p : Piece) (line : Nat) : Option Diagnostic :=
  match p.cls with
  | .unexpected => some (.atLine .scanning line "Unexpected character.")
  | .unterminated => some (.atLine .scanning line "Unterminated string.")
  | _ => none

/-- Pairs each piece with the line it ends on, the first piece starting on `line`. -/
def located : Nat → List Piece → List (Piece × Nat)
  | _, [] => []
  | line, p :: ps => (p, line + p.text.newlines) :: located (line + p.text.newlines) ps

end Scan

/-- The tokens of a text, closed by the end of input, and the faults found on the way. -/
structure Scan where
  tokens : List Token
  diagnostics : List Diagnostic

def Scan.ofText (t : Text) : Scan :=
  let ps := located 1 (pieces t)
  { tokens :=
      ps.filterMap (fun (p, line) => p.token? line) ++
        [⟨.eof, [], none, ((1 + t.newlines : Nat) : Int)⟩]
    diagnostics := ps.filterMap fun (p, line) => p.fault? line }

end LoxLang
