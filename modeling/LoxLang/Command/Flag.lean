import LoxLang.Dict
import LoxLang.Log.Level
import LoxLang.Number.Nearest
import LoxLang.Text.Digits

namespace LoxLang

inductive Command where
  | run | repl | tokens | ast | init
  deriving DecidableEq, Repr

namespace Command

def name : Command → String
  | run => "run"
  | repl => "repl"
  | tokens => "tokens"
  | ast => "ast"
  | init => "init"

def all : List Command := [run, repl, tokens, ast, init]

def ofName? (t : Text) : Option Command := all.find? fun c => (c.name : Text) == t

def takesScript : Command → Bool
  | run => true
  | tokens => true
  | ast => true
  | repl => false
  | init => false

end Command

inductive Setting where
  | text (t : Text)
  | switch (on : Bool)
  | integer (n : Int)
  | list (ts : List Text)
  | table (d : Dict Text)

namespace Setting

def asText : Setting → Text
  | text t => t
  | _ => []

def isOn : Setting → Bool
  | switch on => on
  | _ => false

def asInt : Setting → Int
  | integer n => n
  | _ => 0

def asList : Setting → List Text
  | list ts => ts
  | _ => []

def asTable : Setting → Dict Text
  | table d => d
  | _ => []

end Setting

/-- The kinds of settings; a notice is shown and ends the program. -/
inductive Shape where
  | text | switch | integer | list | table | notice
  deriving DecidableEq, Repr

inductive Flag where
  | help | logLevel | logFormat | logTimeLayout | logCaller | logPretty
  | profileMode | profileFolder | version | define | source
  | color | form | indent | force
  deriving DecidableEq, Repr

namespace Flag

def name : Flag → String
  | help => "help"
  | logLevel => "log-level"
  | logFormat => "log-format"
  | logTimeLayout => "log-time-layout"
  | logCaller => "log-caller"
  | logPretty => "log-pretty"
  | profileMode => "pprof-mode"
  | profileFolder => "pprof-dir"
  | version => "version"
  | define => "define"
  | source => "source"
  | color => "color"
  | form => "format"
  | indent => "indent"
  | force => "force"

def letter? : Flag → Option Char
  | help => some 'h'
  | profileMode => some 'p'
  | define => some 'D'
  | source => some 's'
  | form => some 'f'
  | indent => some 'i'
  | force => some 'f'
  | _ => none

def shape : Flag → Shape
  | help => .switch
  | logCaller => .switch
  | logPretty => .switch
  | color => .switch
  | force => .switch
  | version => .notice
  | define => .table
  | source => .list
  | indent => .integer
  | _ => .text

def isNegatable : Flag → Bool
  | logCaller => true
  | logPretty => true
  | color => true
  | _ => false

def isNotice : Flag → Bool
  | help => true
  | version => true
  | _ => false

def choices? : Flag → Option (List String)
  | logLevel => some (Log.Level.named.map Prod.snd)
  | logFormat => some (Log.Format.all.map Log.Format.name)
  | profileMode => some [""]
  | form => some ["sexpr", "json", "yaml"]
  | _ => none

def initial : Flag → Setting
  | logLevel => .text Log.Level.info.text
  | logFormat => .text Log.Format.json.name
  | logTimeLayout => .text "RFC3339"
  | logPretty => .switch true
  | color => .switch true
  | form => .text "sexpr"
  | indent => .integer 2
  | profileMode => .text []
  | profileFolder => .text []
  | define => .table []
  | source => .list []
  | help => .switch false
  | logCaller => .switch false
  | version => .switch false
  | force => .switch false

def shared : List Flag :=
  [help, logLevel, logFormat, logTimeLayout, logCaller, logPretty, profileMode, profileFolder,
    version, define, source]

def ofCommand : Command → List Flag
  | .run => [color]
  | .ast => [form, indent]
  | .init => [force]
  | .repl => []
  | .tokens => []

end Flag

namespace Setting

/-- Whether each underscore stands between two digits; `digit` tells whether one stands before. -/
def areSpaced : Bool → Text → Bool
  | digit, [] => digit
  | digit, b :: rest => if b == byte '_' then digit && areSpaced false rest else areSpaced true rest

/-- The base of a whole number without its sign, and its digits. -/
def based : Text → Nat × Text
  | [] => (10, [])
  | z :: rest =>
    if z != byte '0' then (10, z :: rest)
    else
      let mark := (rest.head?.map fun b => b ||| 0x20).getD 0
      if 2 ≤ rest.length && mark == byte 'x' then (16, rest.drop 1)
      else if 2 ≤ rest.length && mark == byte 'o' then (8, rest.drop 1)
      else if 2 ≤ rest.length && mark == byte 'b' then (2, rest.drop 1)
      else (8, rest)

/-- The number without sign that a text denotes: decimal, or in another base after a zero. -/
def natural? (t : Text) : Option Nat :=
  let (base, digits) := based t
  if t.isEmpty || !areSpaced (digits.length < t.length) digits then none
  else Text.natural? base (digits.filter (· != byte '_'))

/-- The whole number of 64 bits that a text denotes. -/
def integer? (t : Text) : Option Int := do
  let sign := (t.take 1).filter fun b => b == byte '-' || b == byte '+'
  let n ← natural? (t.drop sign.length)
  let i : Int := if sign == [byte '-'] then -n else n
  if -(Nat.pow 2 63 : Int) ≤ i && i < (Nat.pow 2 63 : Int) then some i else none

/-- The whole number of 64 bits nearest to a double, a half going to the even one. -/
def rounded? (x : Float) : Option Int :=
  match Double.magnitude x with
  | .finite m q =>
    let n : Int := Double.roundDiv (m * Nat.pow 2 q.toNat) (Nat.pow 2 (-q).toNat)
    let i := if Double.isNegative x then -n else n
    if -(Nat.pow 2 63 : Int) ≤ i && i < (Nat.pow 2 63 : Int) then some i else none
  | _ => none

def truth? (t : Text) : Option Bool :=
  let t := Text.lower t
  if (["true", "1", "yes"].any fun w => (w : Text) == t) then some true
  else if (["false", "0", "no"].any fun w => (w : Text) == t) then some false
  else none

def consHead (front : Text) : List Text → List Text
  | [] => [front]
  | t :: ts => (front ++ t) :: ts

/-- The texts between commas; a comma after a backslash belongs to its text. -/
def parts : Text → List Text
  | [] => [[]]
  | [b] => if b == byte ',' then [[], []] else [[b]]
  | b :: c :: rest =>
    if b == byte ',' then [] :: parts (c :: rest)
    else if b == byte '\\' then
      consHead (if c == byte ',' then [c] else [b, c]) (parts rest)
    else consHead [b] (parts (c :: rest))

def items (t : Text) : List Text :=
  let ts := parts (Text.repaired t)
  if ts.getLast? == some [] then ts.dropLast else ts

/-- The name and the text on both sides of the first equals sign. -/
def pair? (t : Text) : Option (Text × Text) :=
  match Text.cut (byte '=') (Text.repaired t) with
  | (name, some v) => some (name, v)
  | (_, none) => none

end Setting

end LoxLang
