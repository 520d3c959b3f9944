import LoxLang.Text.Base64
import LoxLang.Text.Case
import LoxLang.Yaml.Node
import LoxLang.Yaml.Timestamp

namespace LoxLang.Yaml

/-- What the anchors so far stand for, the last one first. -/
abbrev Anchors := List (Text × Document)

def scalarText : Document → Text
  | .null => []
  | d => d.keyText

/-- The number of 64 bits that a text denotes, or zero; one that is too large is as large as it can
be. -/
def forcedInteger (t : Text) : Int :=
  let digits := if t.head? == some (byte '-') || t.head? == some (byte '+') then t.drop 1 else t
  if digits.isEmpty || !digits.all Text.isDigit then 0
  else
    let size : Int := Text.digitsValue digits
    let limit : Int := Nat.pow 2 63
    if t.head? == some (byte '-') then max (-limit) (-size) else min (limit - 1) size

def wordDouble? (t : Text) : Option Float :=
  let t := Text.lower t
  if isOneOf ["nan"] t then some (0.0 / 0.0)
  else if isOneOf ["inf", "+inf", "infinity", "+infinity"] t then some Double.infinity
  else if isOneOf ["-inf", "-infinity"] t then some (-Double.infinity)
  else none

def forcedDouble : Document → Float
  | .integer n => Double.ofInt n
  | .number x => x
  | .text t => ((Double.ofText? t).orElse fun _ => wordDouble? t).getD 0
  | _ => 0

/-- The bytes that a text denotes in base 64, written anew. -/
def binary? : Document → Option Document
  | .text t => some (.text (Base64.encode (Base64.decode t)))
  | _ => none

/-- The point in time that a text denotes, or the first day of the calendar. -/
def timestamp : Document → Timestamp
  | .text t => (Timestamp.read? t).getD .unset
  | _ => .unset

def truth? (t : Text) : Option Bool :=
  let t := Text.lower t
  if isOneOf ["1", "t", "true", "yes"] t then some true
  else if isOneOf ["0", "f", "false", "no"] t then some false
  else none

def retype? (tag : Text) (d : Document) : Option Document :=
  if isOneOf ["!!str"] tag then some (.text (scalarText d))
  else if isOneOf ["!!int"] tag then some (.integer (forcedInteger (scalarText d)))
  else if isOneOf ["!!float"] tag then some (.number (forcedDouble d))
  else if isOneOf ["!!bool"] tag then (truth? (scalarText d)).map .bool
  else if isOneOf ["!!null"] tag then some .null
  else if isOneOf ["!!binary"] tag then binary? d
  else if isOneOf ["!!timestamp"] tag then some (.text (timestamp d).text)
  else some d

def keyName : Document → Text
  | .null => "null"
  | d => d.keyText

def put (entries : List (Document × Document)) (name : Text) (d : Document) :
    List (Document × Document) :=
  match entries with
  | [] => [(.text name, d)]
  | e :: rest => if e.1.keyText == name then (e.1, d) :: rest else e :: put rest name d

/-- The entries of a table, or of several in a row, that are taken over. -/
def merged? : Document → Option (List (Document × Document))
  | .null => some []
  | .table entries => some entries
  | .list items =>
    (items.mapM fun
      | Document.table entries => some entries
      | _ => none).map List.flatten
  | _ => none

mutual
def Node.document? : Node → Anchors → Option (Document × Anchors)
  | .scalar _ d, names => some (d, names)
  | .merge, names => some (.text "<<", names)
  | .alias name, names => (names.lookup name).map (·, names)
  | .anchor name n, names => do
    let (d, names) ← n.document? names
    return (d, (name, d) :: names)
  | .tagged tag n, names => do
    let (d, names) ← n.document? names
    return (← retype? tag d, names)
  | .list items, names => do
    let (ds, names) ← documents? items names
    return (.list ds, names)
  | .table entries, names => do
    let (es, names) ← tableEntries? entries [] names
    return (.table es, names)

def documents? : List Node → Anchors → Option (List Document × Anchors)
  | [], names => some ([], names)
  | n :: ns, names => do
    let (d, names) ← n.document? names
    let (ds, names) ← documents? ns names
    return (d :: ds, names)

def tableEntries? : List (Node × Node) → List (Document × Document) → Anchors →
    Option (List (Document × Document) × Anchors)
  | [], entries, names => some (entries, names)
  | (.merge, v) :: rest, entries, names => do
    let (d, names) ← v.document? names
    let more ← merged? d
    tableEntries? rest (more.foldl (fun es (k, d) => put es k.keyText d) entries) names
  | (k, v) :: rest, entries, names => do
    let (key, names) ← k.document? names
    let (d, names) ← v.document? names
    tableEntries? rest (put entries (keyName key) d) names
end

def isDirective (t : Text) : Bool :=
  match ((t.splitOn (byte ' ')).filter (!·.isEmpty)).takeWhile (·.head? != some (byte '#')) with
  | [] => false
  | name :: values =>
    if name == ("YAML" : Text) then
      match values with
      | [version] => isOneOf ["1.0", "1.1", "1.2", "1.3"] version
      | _ => false
    else if name == ("TAG" : Text) then values.length == 2
    else true

/-- The tokens of each document. A document that starts on the line of its mark is no table and no
list of lines, and none goes on after its end. -/
def split? : List Token → List Token → Option (List (List Token))
  | held, [] => some [held.reverse]
  | held, t :: rest =>
    match t.mark with
    | .header =>
      let isNear := (rest.head?.map fun u => u.line == t.line).getD false
      if isNear && (Node.startsKey rest || Node.startsItem rest) then none
      else (split? [] rest).map (held.reverse :: ·)
    | .finish =>
      if (Node.scalar? rest).isSome && !Node.startsKey rest then none
      else (split? [] rest).map (held.reverse :: ·)
    | .directive =>
      if isDirective t.text && (rest.head?.map Token.mark) = some .header then split? held rest
      else none
    | _ => split? (t :: held) rest

def Node.readAll? (nodes : List Node) : Option (List Document) := (documents? nodes []).map (·.1)

def read? (t : Text) : Option Document := do
  let parts ← split? [] (← Token.scan? t)
  let nodes ← (parts.filter (!·.isEmpty)).mapM Node.ofTokens?
  let documents ← Node.readAll? nodes
  return documents.headD .null

end LoxLang.Yaml
