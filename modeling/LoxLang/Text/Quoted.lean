import LoxLang.Text
import LoxLang.Text.Printable

namespace LoxLang.Quoted

def hex (width n : Nat) : Text :=
  let digits := Nat.toDigits 16 n
  (List.replicate (width - digits.length) '0' ++ digits).map byte

def escape (r : Utf8.Symbol) : Text :=
  match r.char? with
  | none => r.bytes.flatMap fun b => "\\x" ++ hex 2 b.toNat
  | some c =>
    let n := c.toNat
    if c = '"' then "\\\""
    else if c = '\\' then "\\\\"
    else if isPrintable c then r.bytes
    else if n = 7 then "\\a"
    else if n = 8 then "\\b"
    else if n = 12 then "\\f"
    else if n = 10 then "\\n"
    else if n = 13 then "\\r"
    else if n = 9 then "\\t"
    else if n = 11 then "\\v"
    else if n < 0x20 ∨ n = 0x7F then "\\x" ++ hex 2 n
    else if n < 0x10000 then "\\u" ++ hex 4 n
    else "\\U" ++ hex 8 n

def encode (t : Text) : Text := [byte '"'] ++ (Utf8.symbols t).flatMap escape ++ [byte '"']

end LoxLang.Quoted
