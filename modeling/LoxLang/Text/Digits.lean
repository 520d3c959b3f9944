import LoxLang.Text

namespace LoxLang.Text

def digit? (b : UInt8) : Option Nat :=
  if isDigit b then some (b - byte '0').toNat
  else if byte 'a' ≤ b && b ≤ byte 'f' then some ((b - byte 'a').toNat + 10)
  else if byte 'A' ≤ b && b ≤ byte 'F' then some ((b - byte 'A').toNat + 10)
  else none

/-- The number that digits of a base denote; zero if there are none. -/
def natural? (base : Nat) (t : Text) : Option Nat :=
  t.foldlM (fun n b => do
    let d ← digit? b
    if d < base then some (n * base + d) else none) 0

end LoxLang.Text
