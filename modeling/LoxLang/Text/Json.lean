import LoxLang.Text.Quoted

namespace LoxLang.Json

/-- What a writer escapes: the characters of markup, backspace and form feed by letters, and the
replacement character that stands for a byte of none. -/
structure Style where
  markup : Bool
  letters : Bool
  replacement : Bool

def Style.log : Style := ⟨false, false, false⟩

def Style.document : Style := ⟨true, true, true⟩

def escape (s : Style) (r : Utf8.Symbol) : Text :=
  match r.char? with
  | none => if s.replacement then "\\ufffd" else Utf8.encode Utf8.replacement
  | some c =>
    let n := c.toNat
    if c = '"' then "\\\""
    else if c = '\\' then "\\\\"
    else if n = 10 then "\\n"
    else if n = 13 then "\\r"
    else if n = 9 then "\\t"
    else if s.letters && n == 8 then "\\b"
    else if s.letters && n == 12 then "\\f"
    else if n < 0x20 then "\\u" ++ Quoted.hex 4 n
    else if s.markup && (c == '<' || c == '>' || c == '&') then "\\u" ++ Quoted.hex 4 n
    else if n = 0x2028 ∨ n = 0x2029 then "\\u" ++ Quoted.hex 4 n
    else r.bytes

def escaped (s : Style) (t : Text) : Text := (Utf8.symbols t).flatMap (escape s)

def string (s : Style) (t : Text) : Text := [byte '"'] ++ escaped s t ++ [byte '"']

end LoxLang.Json
