import LoxLang.Calendar.Stamp

namespace LoxLang.Yaml

/-- A date and time of day in a zone. -/
structure Timestamp where
  year : Nat
  month : Nat
  day : Nat
  hour : Nat := 0
  minute : Nat := 0
  second : Nat := 0
  nanosecond : Nat := 0
  /-- Minutes that the zone is ahead of universal time. -/
  ahead : Int := 0

namespace Timestamp

def unset : Timestamp := { year := 1, month := 1, day := 1 }

def number? (t : Text) : Option (Nat × Text) :=
  let digits := (t.take 2).takeWhile Text.isDigit
  if digits.isEmpty then none else some (Text.digitsValue digits, t.drop digits.length)

def expect? (c : Char) (t : Text) : Option Text :=
  if t.head? == some (byte c) then some (t.drop 1) else none

def daysIn (year month : Nat) : Nat :=
  if month = 2 then if Calendar.isLeap year then 29 else 28
  else if [4, 6, 9, 11].contains month then 30
  else 31

/-- A year of four digits, a month and a day. -/
def date? (t : Text) : Option (Timestamp × Text) := do
  let digits := t.take 4
  let year ← if digits.length = 4 && digits.all Text.isDigit then some (Text.digitsValue digits)
    else none
  let (month, t) ← number? (← expect? '-' (t.drop 4))
  let (day, t) ← number? (← expect? '-' t)
  if 1 ≤ month && month ≤ 12 && 1 ≤ day && day ≤ daysIn year month then
    some ({ year, month, day }, t)
  else none

/-- The nanoseconds after a point or a comma; more than nine digits do not count. -/
def fraction (t : Text) : Nat × Text :=
  let digits := (t.drop 1).takeWhile Text.isDigit
  if (t.head? == some (byte '.') || t.head? == some (byte ',')) && !digits.isEmpty then
    let shown := digits.take 9
    (Text.digitsValue (shown ++ List.replicate (9 - shown.length) (byte '0')),
      t.drop (digits.length + 1))
  else (0, t)

def clock? (s : Timestamp) (t : Text) : Option (Timestamp × Text) := do
  let (hour, t) ← number? t
  let (minute, t) ← number? (← expect? ':' t)
  let (second, t) ← number? (← expect? ':' t)
  let (nanosecond, t) := fraction t
  if hour < 24 && minute < 60 && second < 60 then
    some ({ s with hour, minute, second, nanosecond }, t)
  else none

/-- The zone: a letter for universal time, or hours and minutes after a sign. -/
def zone? (t : Text) : Option Int :=
  if t == ("Z" : Text) then some 0
  else do
    let sign ← if t.head? == some (byte '+') then some 1
      else if t.head? == some (byte '-') then some (-1)
      else none
    let hours := (t.drop 1).take 2
    let minutes ← expect? ':' (t.drop 3)
    if hours.length = 2 && minutes.length = 2 && (hours ++ minutes).all Text.isDigit &&
        Text.digitsValue hours ≤ 24 && Text.digitsValue minutes ≤ 60 then
      some (sign * (Text.digitsValue hours * 60 + Text.digitsValue minutes : Nat))
    else none

def read? (t : Text) : Option Timestamp := do
  let (s, t) ← date? t
  match t with
  | [] => some s
  | b :: t =>
    let (s, t) ← s.clock? t
    if b == byte ' ' then if t.isEmpty then some s else none
    else if b == byte 'T' || b == byte 't' then (zone? t).map fun ahead => { s with ahead }
    else none

/-- A point in time with all of its parts, in its own zone. -/
def text (s : Timestamp) : Text :=
  let places := Stamp.dropZeros (Stamp.padded 9 s.nanosecond)
  let size := s.ahead.natAbs
  Stamp.padded 4 s.year ++ [byte '-'] ++ Stamp.padded 2 s.month ++ [byte '-'] ++
    Stamp.padded 2 s.day ++ [byte 'T'] ++ Stamp.padded 2 s.hour ++ [byte ':'] ++
    Stamp.padded 2 s.minute ++ [byte ':'] ++ Stamp.padded 2 s.second ++
    (if places.isEmpty then [] else byte '.' :: places) ++
    (if size = 0 then [byte 'Z']
      else (if s.ahead < 0 then byte '-' else byte '+') ::
        (Stamp.padded 2 (size / 60 : Nat) ++ [byte ':'] ++ Stamp.padded 2 (size % 60 : Nat)))

end Timestamp

end LoxLang.Yaml
