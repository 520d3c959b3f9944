import LoxLang.Command.Flag

namespace LoxLang

structure Arguments where
  command? : Option Command := none
  script? : Option Text := none
  settings : List (Flag × Setting) := []
  negated : List Flag := []
  notice? : Option Flag := none
  /-- The flag that takes the next argument for its value. -/
  waiting? : Option Flag := none
  ended : Bool := false

namespace Arguments

def flags (a : Arguments) : List Flag := Flag.shared ++ Flag.ofCommand (a.command?.getD .run)

def setting? (a : Arguments) (f : Flag) : Option Setting := a.settings.lookup f

def put (a : Arguments) (f : Flag) (s : Setting) : Arguments :=
  { a with settings := (f, s) :: a.settings.filter (·.1 != f), waiting? := none }

/-- Whether a text that stands in an argument of its own can be a value: it looks like no flag. -/
def isLoose (t : Text) : Bool := t.head? != some (byte '-') || t == [byte '-']

/-- What a flag holds after a value was given for it. Lists and tables grow. -/
def decode (a : Arguments) (f : Flag) (attached : Bool) (t : Text) : Option Setting :=
  let old := (a.setting? f).getD f.initial
  match f.shape with
  | .text => if attached || isLoose t then some (.text (Text.repaired t)) else none
  | .integer => if attached || isLoose t then (Setting.integer? t).map .integer else none
  | .list =>
    let ts := Setting.items t
    if attached || ts.all isLoose then some (.list (old.asList ++ ts)) else none
  | .table =>
    if attached || isLoose t then
      (Setting.pair? t).map fun (name, v) => .table (old.asTable.set name v)
    else none
  | .switch => none
  | .notice => none

def give (a : Arguments) (f : Flag) (attached : Bool) (t : Text) : Option Arguments :=
  (a.decode f attached t).map (a.put f)

/-- Turns a switch, which stays negated once it was given with `no-`. -/
def turn (a : Arguments) (f : Flag) (negated : Bool) (word? : Option Text) : Option Arguments := do
  let on ← word?.elim (some true) Setting.truth?
  let a := if negated then { a with negated := f :: a.negated } else a
  return a.put f (.switch (on != a.negated.contains f))

def notify (a : Arguments) (f : Flag) : Arguments :=
  if f.isNotice then { a with notice? := a.notice?.or (some f) } else a

def take (a : Arguments) (f : Flag) (negated : Bool) (value? : Option Text) : Option Arguments :=
  let a := a.notify f
  match f.shape, value? with
  | .notice, none => some a
  | .notice, some _ => none
  | .switch, word? => a.turn f negated word?
  | _, some t => a.give f true t
  | _, none => some { a with waiting? := some f }

def named? (a : Arguments) (name : Text) : Option (Flag × Bool) :=
  (a.flags.find? fun f => (f.name : Text) == name).map (·, false) <|>
    (a.flags.find? fun f => f.isNegatable && ("no-" ++ f.name : Text) == name).map (·, true)

def long (a : Arguments) (body : Text) : Option Arguments := do
  let (name, value?) := Text.cut (byte '=') body
  let (f, negated) ← a.named? name
  a.take f negated value?

/-- Takes flags that are given by their letters, of which only the last has a value. -/
def short : Text → Arguments → Option Arguments
  | [], a => some a
  | b :: rest, a =>
    match a.flags.find? fun f => f.letter?.map byte == some b with
    | none => none
    | some f =>
      match f.shape with
      | .switch => ((a.notify f).turn f false none).bind (short rest)
      | .notice => short rest (a.notify f)
      | _ => if rest.isEmpty then a.take f false none else a.take f false (some rest)

def positional (a : Arguments) (t : Text) : Option Arguments :=
  match a.command? with
  | none =>
    match Command.ofName? t with
    | some c => some { a with command? := some c }
    | none => some { a with command? := some .run, script? := some (Text.repaired t) }
  | some c =>
    if c.takesScript && a.script?.isNone then some { a with script? := some (Text.repaired t) }
    else none

def step (a : Arguments) (arg : Text) : Option Arguments :=
  match a.waiting? with
  | some f => a.give f false arg
  | none =>
    if a.ended || isLoose arg then a.positional arg
    else if arg == ("--" : Text) then some { a with ended := true }
    else if ("--" : Text).isPrefixOf arg then a.long (arg.drop 2)
    else short (arg.drop 1) a

def read? (args : List Text) : Option Arguments := do
  let a ← args.foldlM step {}
  if a.waiting?.isSome then none else some a

end Arguments

end LoxLang
