import LoxLang.Number.Layout

namespace LoxLang

inductive Literal where
  | number (x : Float)
  | string (t : Text)
  | bool (b : Bool)
  deriving DecidableEq

namespace Token

/-- The kinds of tokens; `unknown` is a code outside the language. -/
inductive Kind where
  | leftParen | rightParen | leftBrace | rightBrace | comma | dot | minus | plus | semicolon
  | slash | star
  | bang | bangEqual | equal | equalEqual | greater | greaterEqual | less | lessEqual
  | identifier | string | number
  | and | class_ | else_ | false_ | fun_ | for_ | if_ | nil | or | print | return_ | super | this
  | true_ | var | while_
  | eof
  | unknown (code : Nat)
  deriving DecidableEq, Repr

namespace Kind

/-- The kinds of the language, in the order of their codes. -/
def all : List Kind :=
  [leftParen, rightParen, leftBrace, rightBrace, comma, dot, minus, plus, semicolon, slash, star,
    bang, bangEqual, equal, equalEqual, greater, greaterEqual, less, lessEqual,
    identifier, string, number,
    and, class_, else_, false_, fun_, for_, if_, nil, or, print, return_, super, this, true_, var,
    while_, eof]

def ofCode (code : Nat) : Kind := all.getD code (unknown code)

def name : Kind → String
  | leftParen => "LEFT_PAREN"
  | rightParen => "RIGHT_PAREN"
  | leftBrace => "LEFT_BRACE"
  | rightBrace => "RIGHT_BRACE"
  | comma => "COMMA"
  | dot => "DOT"
  | minus => "MINUS"
  | plus => "PLUS"
  | semicolon => "SEMICOLON"
  | slash => "SLASH"
  | star => "STAR"
  | bang => "BANG"
  | bangEqual => "BANG_EQUAL"
  | equal => "EQUAL"
  | equalEqual => "EQUAL_EQUAL"
  | greater => "GREATER"
  | greaterEqual => "GREATER_EQUAL"
  | less => "LESS"
  | lessEqual => "LESS_EQUAL"
  | identifier => "IDENTIFIER"
  | string => "STRING"
  | number => "NUMBER"
  | and => "AND"
  | class_ => "CLASS"
  | else_ => "ELSE"
  | false_ => "FALSE"
  | fun_ => "FUN"
  | for_ => "FOR"
  | if_ => "IF"
  | nil => "NIL"
  | or => "OR"
  | print => "PRINT"
  | return_ => "RETURN"
  | super => "SUPER"
  | this => "THIS"
  | true_ => "TRUE"
  | var => "VAR"
  | while_ => "WHILE"
  | eof => "EOF"
  | unknown code => "Kind(" ++ code.repr ++ ")"

/-- Whether a token of this kind begins a declaration or statement, which makes it a place to
resume after an error. -/
def startsDeclaration : Kind → Bool
  | class_ | fun_ | var | for_ | if_ | while_ | print | return_ => true
  | _ => false

def keywords : List (Text × Kind) :=
  [("and", and), ("class", class_), ("else", else_), ("false", false_), ("for", for_),
    ("fun", fun_), ("if", if_), ("nil", nil), ("or", or), ("print", print), ("return", return_),
    ("super", super), ("this", this), ("true", true_), ("var", var), ("while", while_)]

/-- The kind of a word: its own if it is reserved, else `identifier`. -/
def ofWord (word : Text) : Kind := (keywords.lookup word).getD identifier

end Kind

end Token

structure Token where
  kind : Token.Kind
  lexeme : Text
  literal : Option Literal
  line : Int
  deriving DecidableEq

namespace Token

def synthetic (kind : Kind) (lexeme : Text) : Token := ⟨kind, lexeme, none, 0⟩

def literalText (t : Token) : Text :=
  match t.literal with
  | some (.number x) => Layout.literal.write x
  | some (.string s) => s
  | some (.bool _) | none => "nil"

def text (t : Token) : Text := t.kind.name ++ " " ++ t.lexeme ++ " " ++ t.literalText

end Token

end LoxLang
