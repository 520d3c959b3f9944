namespace LoxLang

/-- The first and the last number of each range. -/
abbrev Ranges := List (Nat × Nat)

namespace Ranges

def holds (r : Ranges) (n : Nat) : Bool := r.any fun (low, high) => low ≤ n && n ≤ high

end Ranges

end LoxLang
