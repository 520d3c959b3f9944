import LoxLang.Yaml.Scan

namespace LoxLang.Yaml

/-- A value, a key or a part of a document. -/
inductive Node where
  | scalar (written : Text) (d : Document)
  /-- The key under which the entries of other tables are taken over. -/
  | merge
  | alias (name : Text)
  | anchor (name : Text) (n : Node)
  | tagged (tag : Text) (n : Node)
  | list (items : List Node)
  | table (entries : List (Node × Node))

namespace Node

def null : Node := .scalar [] .null

def written : Node → Text
  | scalar t _ => t
  | merge => "<<"
  | anchor _ n | tagged _ n => n.written
  | _ => []

def isAnchor : Node → Bool
  | anchor _ _ => true
  | _ => false

def table? (entries : List (Node × Node)) : Option Node :=
  if (entries.map fun e => e.1.written).Nodup then some (table entries) else none

def ofTag (tag : Text) : Node :=
  .scalar [] (
    if isOneOf ["!!str"] tag then .text []
    else if isOneOf ["!!int"] tag then .integer 0
    else if isOneOf ["!!float"] tag then .number 0
    else if isOneOf ["!!bool"] tag then .bool false
    else .null)

/-- A scalar at the front of tokens, with the anchor and the tag that stand before it on its
line. -/
def scalar? : List Token → Option (Node × List Token)
  | [] => none
  | t :: rest =>
    let isNear := (rest.head?.map fun u => u.line == t.line).getD false
    match t.mark with
    | .plain => some (.scalar t.text (plain t.text), rest)
    | .text => some (.scalar t.text (.text t.text), rest)
    | .merge => some (.merge, rest)
    | .alias => some (.alias t.text, rest)
    | .anchor =>
      if isNear then
        (scalar? rest).bind fun (n, rest) =>
          if n.isAnchor then none else some (.anchor t.text n, rest)
      else none
    | .tag =>
      let isSecondary := ("!!" : Text).isPrefixOf t.text
      if isNear && (!isSecondary || Token.isScalarTag t.text) then
        (scalar? rest).map fun (n, rest) => (.tagged t.text n, rest)
      else none
    | _ => none

/-- A key at the front of tokens, and what follows its colon. A question mark makes a key of a
scalar, whether a colon follows or not. -/
def key? : List Token → Option (Node × List Token)
  | [] => none
  | t :: rest =>
    if t.mark = .question then do
      let (n, rest) ← scalar? rest
      return (n, if (rest.head?.map Token.mark) = some .colon then rest.drop 1 else rest)
    else do
      let (n, rest) ← scalar? (t :: rest)
      match rest with
      | u :: rest => if u.mark = .colon then some (n, rest) else none
      | [] => none

def startsKey (ts : List Token) : Bool := (key? ts).isSome

def endsEntry (t : Token) : Bool :=
  t.mark = .comma || t.mark = .listEnd || t.mark = .tableEnd

/-- A scalar that is the value of a key on its line, and what follows it, which must not belong to
the value. -/
def inline? (flow : Bool) (key : Token) (ts : List Token) : Option (Node × List Token) := do
  let (n, rest) ← scalar? ts
  match rest with
  | [] => return (n, [])
  | u :: _ =>
    if u.column ≤ key.column || (flow && (u.mark = .comma || u.mark = .listEnd)) then
      some (n, rest)
    else none

/-- Whether the anchor at the front of tokens has no value, because the next thing is a neighbour at
a column. -/
def isBareAnchor (line column : Nat) (next : List Token → Bool) : List Token → Bool
  | t :: u :: rest =>
    t.mark = .anchor && t.line = line && u.column = column && next (u :: rest)
  | _ => false

def startsItem : List Token → Bool
  | t :: _ => t.mark = .dash
  | [] => false

mutual
def value? : Nat → Bool → List Token → Option (Node × List Token)
  | 0, _, _ => none
  | _ + 1, _, [] => none
  | n + 1, flow, t :: rest =>
    if startsKey (t :: rest) then do
      let (entries, rest) ← entries? n flow t.column (t :: rest)
      return (← table? entries, rest)
    else
      match t.mark with
      | .plain | .text | .alias => scalar? (t :: rest)
      | .anchor =>
        if (rest.head?.map fun u => u.line == t.line && u.mark = .dash).getD true then none
        else do
          let (v, rest) ← value? n flow rest
          if v.isAnchor then none else return (.anchor t.text v, rest)
      | .tag => do
        let (v, rest) ← tagged? n flow t.text rest
        return (.tagged t.text v, rest)
      | .listStart => do
        let (items, rest) ← flowItems? n true rest
        return (.list items, rest)
      | .tableStart => do
        let (entries, rest) ← flowEntries? n true rest
        return (← table? entries, rest)
      | .dash => do
        let (items, rest) ← items? n flow t.column (t :: rest)
        return (.list items, rest)
      | _ => none

def tagged? : Nat → Bool → Text → List Token → Option (Node × List Token)
  | 0, _, _, _ => none
  | _ + 1, _, _, [] => some (null, [])
  | n + 1, flow, tag, t :: rest =>
    if Token.isScalarTag tag then
      if t.mark = .comma || t.mark = .colon then some (ofTag tag, t :: rest)
      else if startsKey (t :: rest) then none
      else scalar? (t :: rest)
    else if isOneOf ["!!map", "!!set"] tag then
      if startsKey (t :: rest) || t.mark = .tableStart then value? n flow (t :: rest) else none
    else if isOneOf ["!!seq", "!!omap"] tag then
      if t.mark = .listStart || t.mark = .dash then value? n flow (t :: rest) else none
    else value? n flow (t :: rest)

def entries? : Nat → Bool → Nat → List Token → Option (List (Node × Node) × List Token)
  | 0, _, _, _ => none
  | _ + 1, _, _, [] => some ([], [])
  | n + 1, flow, column, t :: rest =>
    if t.column ≠ column || (flow && endsEntry t) then some ([], t :: rest)
    else if t.broken then none
    else do
      let (key, rest) ← key? (t :: rest)
      let (v, rest) ← entryValue? n flow t rest
      let (entries, rest) ← entries? n flow column rest
      return ((key, v) :: entries, rest)

def entryValue? : Nat → Bool → Token → List Token → Option (Node × List Token)
  | 0, _, _, _ => none
  | _ + 1, _, _, [] => some (null, [])
  | n + 1, flow, key, t :: rest =>
    let isNear := t.line = key.line
    let isKey := startsKey (t :: rest)
    if isNear && !isKey && (scalar? (t :: rest)).isSome then inline? flow key (t :: rest)
    else if isNear && (t.mark = .dash || (isKey && t.column ≠ key.column)) then none
    else if isKey && t.column = key.column then some (null, t :: rest)
    else if isBareAnchor key.line key.column startsKey (t :: rest) then
      some (.anchor t.text null, rest)
    else if t.column ≤ key.column && (t.mark = .anchor || t.mark = .tag) then none
    else if t.column < key.column then some (null, t :: rest)
    else if t.column = key.column && t.mark ≠ .dash then none
    else value? n flow (t :: rest)

def items? : Nat → Bool → Nat → List Token → Option (List Node × List Token)
  | 0, _, _, _ => none
  | _ + 1, _, _, [] => some ([], [])
  | n + 1, flow, column, t :: rest =>
    if t.mark ≠ .dash || t.column ≠ column then some ([], t :: rest)
    else do
      let (v, rest) ← itemValue? n flow t rest
      let (items, rest) ← items? n flow column rest
      return (v :: items, rest)

def itemValue? : Nat → Bool → Token → List Token → Option (Node × List Token)
  | 0, _, _, _ => none
  | _ + 1, _, _, [] => some (null, [])
  | n + 1, flow, dash, t :: rest =>
    if isBareAnchor dash.line dash.column startsItem (t :: rest) then
      some (.anchor t.text null, rest)
    else if t.column ≤ dash.column && (t.mark = .anchor || t.mark = .tag) then none
    else if t.column < dash.column || (t.column = dash.column && t.mark = .dash) then
      some (null, t :: rest)
    else value? n flow (t :: rest)

/-- Items up to a closing bracket, with commas between them; a comma may end them. -/
def flowItems? : Nat → Bool → List Token → Option (List Node × List Token)
  | 0, _, _ => none
  | _ + 1, _, [] => none
  | n + 1, isFirst, t :: rest =>
    if t.mark = .listEnd then some ([], rest)
    else if (t.mark = .comma) = isFirst then none
    else
      match if isFirst then t :: rest else rest with
      | [] => none
      | u :: rest =>
        if u.mark = .listEnd then some ([], rest)
        else do
          let (v, rest) ← value? n true (u :: rest)
          let (items, rest) ← flowItems? n false rest
          return (v :: items, rest)

/-- Entries up to a closing brace, with commas between them; a comma may also start or end them. A
key may have no value. -/
def flowEntries? : Nat → Bool → List Token → Option (List (Node × Node) × List Token)
  | 0, _, _ => none
  | _ + 1, _, [] => none
  | n + 1, isFirst, t :: rest =>
    if t.mark = .tableEnd then some ([], rest)
    else if t.mark ≠ .comma && !isFirst then none
    else
      match if t.mark = .comma then rest else t :: rest with
      | [] => none
      | u :: rest =>
        if u.mark = .tableEnd then some ([], rest)
        else if u.broken then none
        else do
          let (e, rest) ← flowEntry? n (u :: rest)
          let (entries, rest) ← flowEntries? n false rest
          return (e :: entries, rest)

def flowEntry? : Nat → List Token → Option ((Node × Node) × List Token)
  | 0, _ => none
  | n + 1, ts =>
    match key? ts with
    | some (key, rest) =>
      if (rest.head?.map endsEntry).getD false then some ((key, null), rest)
      else do
        let (v, rest) ← value? n true rest
        return ((key, v), rest)
    | none => do
      let (key, rest) ← scalar? ts
      if (rest.head?.map endsEntry).getD false then some ((key, null), rest) else none
end

def ofTokens? (ts : List Token) : Option Node := do
  let (n, rest) ← value? (4 * ts.length + 4) false ts
  if rest.isEmpty then some n else none

end Node

end LoxLang.Yaml
