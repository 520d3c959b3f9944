import LoxLang.Calendar
import LoxLang.Text.Case

namespace LoxLang.Stamp

inductive Part where
  | longMonth | month | numMonth | zeroMonth
  | longWeekday | weekday
  | day | underDay | zeroDay | underYearDay | zeroYearDay
  | hour | hour12 | zeroHour12 | minute | zeroMinute | second | zeroSecond
  | longYear | year
  | capitalHalf | half
  | zone
  /-- An offset from universal time, with or without minutes, seconds and colons; `utc` writes a
  zero offset as `Z`. -/
  | offset (utc colons : Bool) (fields : Nat)
  /-- A fraction of a second after a separator; `trimmed` drops zeros at its end. -/
  | fraction (separator : UInt8) (digits : Nat) (trimmed : Bool)
  | copy (b : UInt8)
  deriving DecidableEq, Repr

def begins (words : String) (t : Text) : Bool := (words : Text).isPrefixOf t

def lowerNext : Text → Bool
  | b :: _ => byte 'a' ≤ b && b ≤ byte 'z'
  | [] => false

/-- The layouts of offsets, longest first where one begins another. -/
def offsets : List (String × Part) :=
  [("-070000", .offset false false 3), ("-07:00:00", .offset false true 3),
    ("-0700", .offset false false 2), ("-07:00", .offset false true 2),
    ("-07", .offset false false 1),
    ("Z070000", .offset true false 3), ("Z07:00:00", .offset true true 3),
    ("Z0700", .offset true false 2), ("Z07:00", .offset true true 2), ("Z07", .offset true false 1)]

/-- A fraction of a second: a separator and a run of zeros or nines that no digit follows. The
number of digits is kept in twelve bits. -/
def fraction? : Text → Option (Part × Nat)
  | sep :: d :: rest =>
    if (sep == byte '.' || sep == byte ',') && (d == byte '0' || d == byte '9') then
      let run := (rest.takeWhile (· == d)).length + 1
      if ((rest.drop (run - 1)).head?.map Text.isDigit).getD false then none
      else some (.fraction sep (run % 4096) (d == byte '9'), run + 1)
    else none
  | _ => none

def front (t : Text) : Part × Nat :=
  let word (short : String) (part : Part) : Option (Part × Nat) :=
    if begins short t then some (part, short.length) else none
  let capitalised (long short : String) (whole part : Part) : Option (Part × Nat) :=
    if begins long t then some (whole, long.length)
    else if begins short t && !lowerNext (t.drop short.length) then some (part, short.length)
    else none
  let found :=
    capitalised "January" "Jan" .longMonth .month
      <|> capitalised "Monday" "Mon" .longWeekday .weekday
      <|> word "MST" .zone
      <|> word "002" .zeroYearDay
      <|> word "01" .zeroMonth <|> word "02" .zeroDay <|> word "03" .zeroHour12
      <|> word "04" .zeroMinute <|> word "05" .zeroSecond <|> word "06" .year
      <|> word "15" .hour <|> word "1" .numMonth
      <|> word "2006" .longYear <|> word "2" .day
      <|> word "__2" .underYearDay
      <|> (if begins "_2006" t then none else word "_2" .underDay)
      <|> word "3" .hour12 <|> word "4" .minute <|> word "5" .second
      <|> word "PM" .capitalHalf <|> word "pm" .half
      <|> (offsets.findSome? fun (words, part) => word words part)
      <|> fraction? t
  found.getD (.copy (t.headD 0), 1)

def parts : Text → List Part
  | [] => []
  | b :: rest =>
    let (part, n) := front (b :: rest)
    part :: parts (rest.drop (n - 1))
termination_by t => t.length
decreasing_by simp only [List.length_drop, List.length_cons]; omega

def padded (width : Nat) (n : Int) : Text :=
  let digits := Text.ofNat n.natAbs
  (if n < 0 then [byte '-'] else []) ++ List.replicate (width - digits.length) (byte '0') ++ digits

def blanked (width n : Nat) : Text :=
  let digits := Text.ofNat n
  List.replicate (width - digits.length) (byte ' ') ++ digits

def dropZeros (t : Text) : Text := (t.reverse.dropWhile (· == byte '0')).reverse

def Part.write (c : Calendar) : Part → Text
  | .longMonth => c.monthName
  | .month => c.monthName.take 3
  | .numMonth => Text.ofNat c.month
  | .zeroMonth => padded 2 c.month
  | .longWeekday => c.weekdayName
  | .weekday => c.weekdayName.take 3
  | .day => Text.ofNat c.day
  | .underDay => blanked 2 c.day
  | .zeroDay => padded 2 c.day
  | .underYearDay => blanked 3 c.yearDay
  | .zeroYearDay => padded 3 c.yearDay
  | .hour => padded 2 c.hour
  | .hour12 => Text.ofNat ((c.hour + 11) % 12 + 1)
  | .zeroHour12 => padded 2 ((c.hour + 11) % 12 + 1 : Nat)
  | .minute => Text.ofNat c.minute
  | .zeroMinute => padded 2 c.minute
  | .second => Text.ofNat c.second
  | .zeroSecond => padded 2 c.second
  | .longYear => padded 4 c.year
  | .year => padded 2 (c.year.natAbs % 100 : Nat)
  | .capitalHalf => if 12 ≤ c.hour then "PM" else "AM"
  | .half => if 12 ≤ c.hour then "pm" else "am"
  | .zone => "UTC"
  | .offset utc colons fields =>
    if utc then "Z"
    else
      let more : Text := if colons then ":00" else "00"
      "+00" ++ (List.replicate (fields - 1) more).flatten
  | .fraction sep digits trimmed =>
    let shown := (padded 9 c.nanosecond).take digits
    if trimmed then
      let kept := dropZeros shown
      if kept.isEmpty then [] else sep :: kept
    else sep :: shown
  | .copy b => [b]

def write (layout : Text) (m : Moment) : Text :=
  let c := Calendar.ofMoment m
  (parts layout).flatMap (Part.write c)

def named : List (Text × String) :=
  [("layout", "01/02 03:04:05PM '06 -0700"),
    ("ansic", "Mon Jan _2 15:04:05 2006"),
    ("unixdate", "Mon Jan _2 15:04:05 MST 2006"),
    ("rubydate", "Mon Jan 02 15:04:05 -0700 2006"),
    ("rfc822", "02 Jan 06 15:04 MST"),
    ("rfc822z", "02 Jan 06 15:04 -0700"),
    ("rfc850", "Monday, 02-Jan-06 15:04:05 MST"),
    ("rfc1123", "Mon, 02 Jan 2006 15:04:05 MST"),
    ("rfc1123z", "Mon, 02 Jan 2006 15:04:05 -0700"),
    ("rfc3339", "2006-01-02T15:04:05Z07:00"),
    ("rfc3339nano", "2006-01-02T15:04:05.999999999Z07:00"),
    ("kitchen", "3:04PM"),
    ("stamp", "Jan _2 15:04:05"),
    ("stampmilli", "Jan _2 15:04:05.000"),
    ("stampmicro", "Jan _2 15:04:05.000000"),
    ("stampnano", "Jan _2 15:04:05.000000000"),
    ("datetime", "2006-01-02 15:04:05"),
    ("dateonly", "2006-01-02"),
    ("timeonly", "15:04:05")]

/-- A name in lower case without anything but letters and digits. -/
def key (layout : Text) : Text :=
  (layout.filter fun b => Text.isWord b && b != byte '_').map Text.lowerByte

/-- The layout that a text names or is, or nothing if it turns timestamps off. -/
def layout? (t : Text) : Option Text :=
  let k := key t
  if k = ("none" : Text) || t.trim.isEmpty then none
  else some (match named.lookup k with
    | some layout => layout
    | none => t)

end LoxLang.Stamp
