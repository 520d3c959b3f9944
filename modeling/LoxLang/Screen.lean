import LoxLang.Text.Columns

namespace LoxLang.Screen

/-- Four blanks for each tab, and one line break for each pair of carriage return and line feed. -/
def plain : Text → Text
  | [] => []
  | b :: rest =>
    if b == 9 then List.replicate 4 (byte ' ') ++ plain rest
    else if b == 13 && rest.head? == some Text.newline then plain rest
    else b :: plain rest

def width (t : Text) : Nat := (t.lines.map Columns.ofText).foldl max 0

def padded (columns : Nat) (line : Text) : Text :=
  line ++ List.replicate (columns - Columns.ofText line) (byte ' ')

def block (t : Text) : Text :=
  let t := plain t
  Text.join [Text.newline] (t.lines.map (padded (width t)))

end LoxLang.Screen
