import LoxLang.Prompt.Editor
import LoxLang.Prompt.Field
import LoxLang.Prompt.History
import LoxLang.Prompt.Match

namespace LoxLang

/-- A line kept while another one is shown, and its cursor. -/
structure Prompt.Draft where
  text : Text
  cursor : Nat
  deriving DecidableEq, Repr

structure Prompt where
  session : Session
  history : Prompt.History
  /-- The history entry that is shown, or one past the last. -/
  historyAt : Nat
  field : Prompt.Field
  /-- The completions on offer for the word, in bytes, from `wordStart` to `wordEnd`. -/
  found : List Text
  wordStart : Nat
  wordEnd : Nat
  /-- The completion that is chosen, or -1. -/
  selected : Int
  /-- Whether completions are being tried in turn. -/
  cycling : Bool
  /-- The line before the first completion was tried. -/
  untried : Prompt.Draft
  width : Int
  quitting : Bool
  mode : Prompt.Mode
  evalDraft : Prompt.Draft
  commandDraft : Prompt.Draft
  /-- The program that was edited last. -/
  buffer : Text
  defines : Dict Text
  environment : Text → Text
  running : Option Bool

namespace Prompt

inductive Key where
  | enter | tab | backTab | up | down | shiftUp | shiftDown | escape | interrupt | endOfInput
  | left | right | lineStart | lineEnd | backspace | delete | deleteBefore | deleteAfter | deleteWord
  | space
  | typed (cs : List Char)
  deriving DecidableEq, Repr

inductive Effect where
  | print (t : Text)
  | quit
  | clear
  | evaluate (line : Text)
  | edit
  deriving DecidableEq, Repr

def commands : List Text := ["help", "list", "edit", "clear", "reset", "quit"]

def evalSign : Text := "> "

def commandSign : Text := ": "

def help : Text := "
: Commands (press Esc to toggle mode):

  help     Print this message
  list     List global variables
  edit     Write a program in $EDITOR and run it
  reset    Discard all global state
  clear    Clear screen
  quit     Exit

Usage:
  Type a statement or expression; a missing trailing \";\" is added
  Expression results are printed
  Press Tab / Shift-Tab to cycle through completions
  Press Esc to toggle between eval and command modes
  Use Up/Down for history, Shift+Up/Shift+Down to stay in the current mode
  Press Ctrl+C to interrupt a running line
  Press Ctrl+C on an empty line or Ctrl+D to exit"

def defaultWidth : Int := 80

def new (session : Session) (history : History) (defines : Dict Text)
    (environment : Text → Text) : Prompt where
  session
  history
  historyAt := history.size
  field := .empty
  found := []
  wordStart := 0
  wordEnd := 0
  selected := 0
  cycling := false
  untried := ⟨[], 0⟩
  width := defaultWidth
  quitting := false
  mode := .eval
  evalDraft := ⟨[], 0⟩
  commandDraft := ⟨[], 0⟩
  buffer := []
  defines
  environment
  running := none

def isRunning (p : Prompt) : Bool := p.running.isSome

/-- What a word can be completed to where nothing is selected: reserved words and globals. -/
def topLevel (p : Prompt) : List Text :=
  Token.Kind.keywords.map Prod.fst ++ p.session.globals

/-- The completions for the word under the cursor. After `name.` all members are offered at once,
elsewhere an empty word has none. -/
def completions (p : Prompt) (word : Word) : List Text :=
  if p.mode = .command then
    if word.text.isEmpty then [] else Matcher.find word.text commands
  else
    match receiverOf (p.field.text.take word.start) with
    | some name =>
      let members := p.session.members name
      if word.text.isEmpty then members else Matcher.find word.text members
    | none => if word.text.isEmpty then [] else Matcher.find word.text p.topLevel

/-- Offers the completions for the word under the cursor. If `accept` is set, a word that is its
only completion needs none. -/
def refresh (accept : Bool) (p : Prompt) : Prompt :=
  let word := Word.at p.field.text p.field.cursor
  let found := p.completions word
  let p := { p with
    found
    wordStart := word.start
    wordEnd := word.stop
    selected := if p.cycling then p.selected else -1 }
  if accept && found == [word.text] then { p with found := [], cycling := false, selected := -1 }
  else p

/-- Puts a text in place of the word and the cursor after it. There is no result if the bounds of
the word lie outside of the line. -/
def replaceWord (replacement : Text) (p : Prompt) : Option Prompt :=
  let line := p.field.text
  if p.wordStart ≤ line.length ∧ p.wordEnd ≤ line.length then
    let stop := p.wordStart + replacement.length
    let line := line.take p.wordStart ++ replacement ++ line.drop p.wordEnd
    some { p with field := (p.field.set line).moveTo stop, wordEnd := stop }
  else none

/-- Tries the next completion, or the one before, starting over at the end. A single completion is
final. -/
def cycle (forward : Bool) (p : Prompt) : Option Prompt :=
  match p.found with
  | [] => some p
  | [only] => do
    let p ← p.replaceWord only
    return { p with cycling := false, selected := -1, found := [] }
  | found =>
    let n : Int := found.length
    let p :=
      if p.cycling then
        { p with selected := (p.selected + (if forward then 1 else -1) + n).tmod n }
      else
        { p with
          cycling := true
          untried := ⟨p.field.text, p.field.cursor⟩
          selected := if forward then 0 else n - 1 }
    match if (0 : Int) ≤ p.selected then found[p.selected.toNat]? else none with
    | some chosen => p.replaceWord chosen
    | none => none

def restore (d : Draft) (p : Prompt) : Prompt :=
  { p with field := (p.field.set d.text).moveTo d.cursor }

/-- Changes the mode; each mode keeps its own draft. -/
def switchTo (mode : Mode) (p : Prompt) : Prompt :=
  let draft : Draft := ⟨p.field.text, p.field.cursor⟩
  let p :=
    if p.mode = .eval then { p with evalDraft := draft } else { p with commandDraft := draft }
  let p := { p with mode }
  (p.restore (if mode = .eval then p.evalDraft else p.commandDraft)).refresh false

def toggleMode (p : Prompt) : Prompt := p.switchTo (if p.mode = .eval then .command else .eval)

/-- The entries that lie before or after the shown one, nearest first, with their positions. -/
def otherEntries (forward : Bool) (p : Prompt) : List (Entry × Nat) :=
  let entries := p.history.entries.zipIdx
  if forward then entries.drop (p.historyAt + 1) else (entries.take p.historyAt).reverse

/-- Shows the next or previous history entry, of the current mode if so wanted; else the mode
follows the entry. Past the newest entry the line is empty. -/
def moveInHistory (forward sameMode : Bool) (p : Prompt) : Prompt :=
  match (p.otherEntries forward).find? fun (e, _) => !sameMode || e.mode = p.mode with
  | some (e, i) =>
    let p := if e.mode = p.mode then p else p.switchTo e.mode
    ({ p with
      historyAt := i
      field := (p.field.set e.line).moveTo e.line.length }).refresh false
  | none =>
    if forward && p.historyAt < p.history.size then
      ({ p with historyAt := p.history.size, field := p.field.set [] }).refresh false
    else p

def listing (s : Session) : Text :=
  Text.join [Text.newline] (s.globals.map fun name =>
    "  " ++ name ++ " " ++ Screen.block (Session.preview (s.lookup? name)))

def firstField (t : Text) : Text :=
  ((Utf8.symbols t).takeWhile fun r => !Text.isSpaceSymbol r).flatMap Utf8.Symbol.bytes

def execute (line : Text) (p : Prompt) : Prompt × List Effect :=
  let echo : Effect := .print (commandSign ++ Screen.block line)
  let name := firstField line
  let isOne (names : List Text) : Bool := names.contains name
  if isOne ["q", "quit", "exit"] then ({ p with quitting := true }, [echo, .quit])
  else if isOne ["h", "help"] then (p, [echo, .print help])
  else if isOne ["l", "list"] then (p, [echo, .print (listing p.session)])
  else if isOne ["c", "clear"] then (p, [.clear])
  else if isOne ["r", "reset"] then
    match Session.new.define p.environment p.defines with
    | (some e, _) => (p, [echo, .print (Screen.block e.text)])
    | (none, s) => ({ p with session := s }, [echo, .print "globals reset"])
  else if isOne ["e", "edit"] then (p, [echo, .edit])
  else (p, [.print (Screen.block ("Unknown command: " ++ name ++ " (try 'help')"))])

/-- Takes the line: it enters the history and is run or carried out. -/
def submit (p : Prompt) : Prompt × List Effect :=
  let line := p.field.text.trim
  if line.isEmpty then (p, [])
  else
    let (_, history) := p.history.add line p.mode
    let p := { p with
      evalDraft := ⟨[], 0⟩
      commandDraft := ⟨[], 0⟩
      field := p.field.set []
      found := []
      history
      historyAt := history.size }
    if p.mode = .command then p.execute line
    else
      ({ p with running := some false },
        [.print (evalSign ++ Screen.block line), .evaluate line])

/-- Leaves the history and edits the line; completions follow. -/
def edit (accept : Bool) (change : Field → Field) (p : Prompt) : Prompt :=
  ({ p with historyAt := p.history.size, field := change p.field }).refresh accept

def editPlainly (change : Field → Field) (p : Prompt) : Prompt :=
  ({ p with cycling := false }).edit false change

def press (key : Key) (p : Prompt) : Option (Prompt × List Effect) :=
  let only (p : Prompt) : Option (Prompt × List Effect) := some (p, [])
  match key with
  | .interrupt =>
    if p.field.chars.isEmpty then some ({ p with quitting := true }, [.quit])
    else only (p.editPlainly fun f => f.set [])
  | .endOfInput =>
    if p.field.chars.isEmpty then some ({ p with quitting := true }, [.quit]) else only p
  | .enter =>
    if !p.cycling || p.found.isEmpty then some p.submit
    else only (({ p with cycling := false }).refresh true)
  | .tab => (p.cycle true).map (·, [])
  | .backTab => (p.cycle false).map (·, [])
  | .up => only (p.moveInHistory false false)
  | .down => only (p.moveInHistory true false)
  | .shiftUp => only (p.moveInHistory false true)
  | .shiftDown => only (p.moveInHistory true true)
  | .escape =>
    if p.cycling then only ((({ p with cycling := false }).restore p.untried).refresh false)
    else only p.toggleMode
  | .space => only (({ p with cycling := false }).edit true (Field.insert [' ']))
  | .typed cs => only (p.edit true (Field.insert cs))
  | .left => only (p.editPlainly Field.left)
  | .right => only (p.editPlainly Field.right)
  | .lineStart => only (p.editPlainly Field.home)
  | .lineEnd => only (p.editPlainly Field.toEnd)
  | .backspace => only (p.editPlainly Field.backspace)
  | .delete => only (p.editPlainly Field.delete)
  | .deleteBefore => only (p.editPlainly Field.deleteBefore)
  | .deleteAfter => only (p.editPlainly Field.deleteAfter)
  | .deleteWord => only (p.editPlainly Field.deleteWord)

/-- What a key does. While a line is running, it can only be interrupted. -/
def handle (key : Key) (p : Prompt) : Option (Prompt × List Effect) :=
  if p.isRunning then
    some (if key = .interrupt then { p with running := some true } else p, [])
  else p.press key

def resize (width : Int) (p : Prompt) : Prompt := { p with width }

def shown (o : Session.Outcome) : List Effect :=
  let output :=
    if o.output.isEmpty then []
    else if o.output.getLast? = some Text.newline then
      [Effect.print (Screen.block o.output.dropLast)]
    else [.print (Screen.block o.output)]
  output ++ o.errors.map fun e => .print (Screen.block e)

def finished (o : Session.Outcome) (p : Prompt) : Prompt × List Effect :=
  ({ p with running := none }, shown o)

def edited (e : Editing) (p : Prompt) : Prompt × List Effect :=
  let p := { p with session := e.session }
  match e.ending with
  | .ran o => ({ p with buffer := e.buffer }, shown o)
  | .canceled => ({ p with buffer := e.buffer }, [.print "edit cancelled"])
  | .declined => ({ p with buffer := e.buffer }, [.print "edit discarded"])
  | .failed reason => (p, [.print (Screen.block ("error: " ++ reason))])

inductive Event where
  | print (t : Text)
  | quit
  | clear
  | editOutput (t : Text)
  | editErrors (t : Text)
  deriving DecidableEq, Repr

def Effect.event? : Effect → Option Event
  | print t => some (.print t)
  | quit => some .quit
  | clear => some .clear
  | evaluate _ | edit => none

/-- Carries out an effect; what it leads to is only printed. A line stops at once if it was interrupted
before, and later if a signal comes. -/
def perform (now : Int) (signal : Signal) (editor : Editor) (effect : Effect) (p : Prompt) :
    List Event × Editor × Prompt :=
  match effect with
  | .evaluate line =>
    let signal := if p.running = some true then fun _ _ => true else signal
    let (o, s) := p.session.eval now signal line
    let (p, effects) := ({ p with session := s }).finished o
    (effects.filterMap Effect.event?, editor, p)
  | .edit =>
    let e := Editing.run now signal editor p.buffer p.session
    let (p, effects) := p.edited e
    ([.editOutput e.stdout, .editErrors e.stderr] ++ effects.filterMap Effect.event?, e.editor, p)
  | .print t => ([.print t], editor, p)
  | .quit => ([.quit], editor, p)
  | .clear => ([.clear], editor, p)

def performAll (now : Int) (signal : Signal) :
    List Effect → Editor → Prompt → List Event × Editor × Prompt
  | [], editor, p => ([], editor, p)
  | e :: es, editor, p =>
    let (events, editor, p) := p.perform now signal editor e
    let (more, editor, p) := performAll now signal es editor p
    (events ++ more, editor, p)

/-- A completion as it is shown; what can be called has parentheses. -/
def candidate (s : Session) (name : Text) : Text :=
  name ++ if s.isCallable name then ("()" : Text) else []

def separator : Text := "  "

def ellipsis : Text := "..."

/-- Completions from the second on, as far as they fit. The last one is always shown. -/
def barRest (width used : Int) : List Text → Text
  | [] => []
  | c :: rest =>
    let columns : Int := Screen.width c + Screen.width separator
    if width < used + columns + Screen.width ellipsis && !rest.isEmpty then separator ++ ellipsis
    else separator ++ c ++ barRest width (used + columns) rest

def bar (p : Prompt) : Text :=
  if p.width ≤ 0 then []
  else match p.found.map (candidate p.session) with
    | [] => []
    | c :: rest => c ++ barRest p.width (Screen.width c) rest

def hint (p : Prompt) : Text :=
  let line := p.field.text
  if p.isRunning then "Running (press Ctrl+C to interrupt)"
  else if p.historyAt < p.history.size then
    Text.ofNat (p.historyAt + 1) ++ "/" ++ Text.ofNat p.history.size
  else if line.trim.isEmpty then
    if p.mode = .command then
      "Type: " ++ Text.join ", " commands ++ " (press Esc to return)"
    else "Type a statement or expression, or press Esc for commands"
  else
    match if p.mode = .eval && p.found.isEmpty then Call.at? line p.field.cursor else none with
    | some call =>
      match p.session.signature? call.name with
      | some params => call.hint params
      | none => []
    | none => p.bar

/-- What stands below the line being typed. -/
def footer (p : Prompt) : Text := if p.quitting then [] else p.hint ++ [Text.newline]

end Prompt

end LoxLang
