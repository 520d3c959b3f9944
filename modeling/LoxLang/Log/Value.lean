import LoxLang.Log
import LoxLang.Calendar.Stamp

namespace LoxLang.Log

/-- A count of some unit of ten to the power of `places` parts, without zeros at the end. -/
def fractional (places n : Nat) : Text :=
  let whole := Text.ofNat (n / Nat.pow 10 places)
  let fraction := Stamp.dropZeros ((Stamp.padded places (n % Nat.pow 10 places : Nat)).take places)
  if fraction.isEmpty then whole else whole ++ byte '.' :: fraction

/-- A span of nanoseconds: hours, minutes and seconds, or a single smaller unit. -/
def spanText (n : Int) : Text :=
  let u := n.natAbs
  let size : Text :=
    if u = 0 then "0s"
    else if u < 1000 then Text.ofNat u ++ "ns"
    else if u < 1000000 then fractional 3 u ++ "µs"
    else if u < 1000000000 then fractional 6 u ++ "ms"
    else
      let minutes := u / 1000000000 / 60
      let hours := minutes / 60
      (if hours = 0 then [] else Text.ofNat hours ++ [byte 'h']) ++
        (if minutes = 0 then [] else Text.ofNat (minutes % 60) ++ [byte 'm']) ++
        fractional 9 (u % (60 * 1000000000)) ++ [byte 's']
  if n < 0 then byte '-' :: size else size

def momentText (m : Moment) : Text := Stamp.write "2006-01-02 15:04:05.999999999 -0700 MST" m

mutual
def Value.text : Value → Text
  | .string t => t
  | .int n => Text.ofInt n
  | .uint n => Text.ofNat n
  | .float x => Layout.general.write x
  | .bool true => "true"
  | .bool false => "false"
  | .duration n => spanText n
  | .time m => momentText m
  | .null => "<nil>"
  | .error t => t
  | .group fields => "[" ++ Text.join " " (fieldTexts fields) ++ "]"
  | .deferred t _ => t

def fieldTexts : List Attr → List Text
  | [] => []
  | (k, v) :: rest => (k ++ "=" ++ v.text) :: fieldTexts rest
end

def Value.resolve : Value → Value
  | .deferred _ fields => .group fields
  | v => v

def isBlank : Attr → Bool
  | (k, .null) => k.isEmpty
  | _ => false

def isEmptyGroup : Attr → Bool
  | (_, .group []) => true
  | _ => false

mutual
/-- A value whose groups hold no empty groups. -/
def Value.prune : Value → Value
  | .group fields => .group (pruneFields fields)
  | v => v

/-- Attributes without the groups that are or become empty. -/
def pruneFields : List Attr → List Attr
  | [] => []
  | (k, v) :: rest =>
    let a := (k, v.prune)
    if isEmptyGroup a then pruneFields rest else a :: pruneFields rest
end

end LoxLang.Log
