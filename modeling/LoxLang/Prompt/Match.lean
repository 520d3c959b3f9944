import LoxLang.Text.Case

namespace LoxLang.Prompt

/-- The state of matching a candidate against a pattern. -/
structure Matcher where
  pattern : Text
  /-- The best score of the current letter so far, and where it was. -/
  best : Int
  bestAt : Option Nat
  /-- The reward for a letter next to the one before it, which grows with each. -/
  streak : Int
  last : Option UInt8
  /-- The letters matched so far, newest first. -/
  hits : List Nat
  total : Int

namespace Matcher

def isLower (b : UInt8) : Bool := byte 'a' ≤ b && b ≤ byte 'z'

def isUpper (b : UInt8) : Bool := byte 'A' ≤ b && b ≤ byte 'Z'

def separators : Text := "/-_ .\\"

def same (a b : UInt8) : Bool := Text.lowerByte a == Text.lowerByte b

/-- What the place of a letter is worth: at the start, at a capital, after a separator. -/
def placeScore (m : Matcher) (index : Nat) (b : UInt8) : Int :=
  (if index = 0 then 10 else 0) +
    (match m.last with
    | some l =>
      (if isLower l && isUpper b then 20 else 0) + (if separators.contains l then 20 else 0)
    | none => 0)

/-- Looks at a letter of the candidate as the next one of the pattern. -/
def consider (m : Matcher) (index : Nat) (b : UInt8) : Matcher :=
  match m.pattern with
  | p :: _ =>
    if same b p then
      let bonus := match m.hits with
        | hit :: _ => if hit + 1 = index then m.streak * 2 + 5 else 0
        | [] => 0
      let score := m.placeScore index b + bonus
      let m := { m with streak := m.streak + bonus }
      if m.best < score then { m with best := score, bestAt := some index } else m
    else m
  | [] => m

/-- Settles the current letter of the pattern if the next one follows or the candidate ends. -/
def settle (m : Matcher) (next : Option UInt8) : Matcher :=
  let due := match next, m.pattern.tail.head? with
    | none, _ => true
    | some b, some p => same b p
    | some _, none => false
  match if due then m.bestAt else none with
  | some index =>
    let lead : Int := if m.hits.isEmpty then max (index * -5) (-15) else 0
    { m with
      pattern := m.pattern.tail
      best := -1
      hits := index :: m.hits
      total := m.total + m.best + lead }
  | none => m

def walk (m : Matcher) (index : Nat) : Text → Matcher
  | [] => m
  | b :: rest =>
    let m := (m.consider index b).settle rest.head?
    ({ m with last := some b }).walk (index + 1) rest

def score? (pattern candidate : Text) : Option Int :=
  let m := walk ⟨pattern, -1, none, 0, none, [], 0⟩ 0 candidate
  if m.hits.length = pattern.length then some (m.total + m.hits.length - candidate.length) else none

/-- The candidates that match, best first, and among equals the later one first. -/
def find (pattern : Text) (candidates : List Text) : List Text :=
  let scored := candidates.filterMap fun c => (score? pattern c).map (c, ·)
  (scored.reverse.mergeSort fun a b => b.2 ≤ a.2).map Prod.fst

end Matcher

end LoxLang.Prompt
