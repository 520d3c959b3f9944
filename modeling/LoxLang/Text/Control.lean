import LoxLang.Text

namespace LoxLang.Control

/-- Where in a control sequence a byte stands. -/
inductive Mode where
  | ground
  | escape
  | escapeMore
  | parameters
  /-- After the parameters, before the letter. -/
  | trailer
  | deviceStart
  | deviceParameters
  | deviceTrailer
  | deviceString
  /-- A command to the system, which a bell also ends. -/
  | command
  | message
  deriving DecidableEq, Repr

inductive Action where
  | go (mode : Mode)
  | print
  /-- Starts a character beyond ASCII. -/
  | cluster
  deriving DecidableEq, Repr

def isQuiet (b : UInt8) : Bool := b < 0x20 && b != 0x18 && b != 0x1A && b != 0x1B

def anywhere (b : UInt8) : Action :=
  if b == 0x1B then .go .escape
  else if b == 0x90 then .go .deviceStart
  else if b == 0x98 || b == 0x9E || b == 0x9F then .go .message
  else if b == 0x9B then .go .parameters
  else if b == 0x9D then .go .command
  else if 0xC2 ≤ b && b ≤ 0xF4 then .cluster
  else .go .ground

def afterEscape (b : UInt8) : Action :=
  if b < 0x30 then .go .escapeMore
  else if b == byte '[' then .go .parameters
  else if b == byte ']' then .go .command
  else if b == byte 'P' then .go .deviceStart
  else if b == byte 'X' || b == byte '^' || b == byte '_' then .go .message
  else .go .ground

def printable (mode : Mode) (b : UInt8) : Action :=
  match mode with
  | .ground => .print
  | .escape => afterEscape b
  | .escapeMore => .go (if b < 0x30 then .escapeMore else .ground)
  | .parameters =>
    .go (if b < 0x30 then .trailer else if b < 0x40 then .parameters else .ground)
  | .trailer => .go (if b < 0x30 then .trailer else .ground)
  | .deviceStart | .deviceParameters =>
    .go (if b < 0x30 then .deviceTrailer else if b < 0x40 then .deviceParameters
      else .deviceString)
  | .deviceTrailer => .go (if b < 0x30 then .deviceTrailer else .deviceString)
  | .deviceString | .command | .message => .go mode

def step (mode : Mode) (b : UInt8) : Action :=
  if 0x20 ≤ b && b < 0x7F then printable mode b
  else if b == 0x7F || isQuiet b then
    match mode with
    | .command => .go (if b == 7 then .ground else mode)
    | .deviceStart => .go (if 8 ≤ b && b ≤ 13 then .deviceString else mode)
    | _ => .go mode
  else
    match mode with
    | .command | .deviceString =>
      if b == 0x1B then .go .escape
      else if b == 0x9C || b < 0x20 then .go .ground
      else .go mode
    | .deviceStart => if b == 0x1B then .go .deviceString else anywhere b
    | _ => anywhere b

end LoxLang.Control
