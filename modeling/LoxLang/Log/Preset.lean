import LoxLang.Log.Level

namespace LoxLang.Log

/-- The settings of the log that take a value. -/
inductive Knob where
  | level | format | timeLayout
  deriving DecidableEq, Repr

structure Preset where
  level : Text := []
  format : Text := []
  timeLayout : Text := []
  pretty : Bool := false
  caller : Bool := false
  minimum : Level := .info
  layout : Format := .json

namespace Preset

def set (knob : Knob) (t : Text) (p : Preset) : Preset :=
  match knob with
  | .level => { p with level := t, minimum := Level.parse t }
  | .format => { p with format := t, layout := Format.parse t }
  | .timeLayout => { p with timeLayout := t }

def without (word t : Text) : Text := if word.isPrefixOf t then t.drop word.length else t

def truth? (t : Text) : Option Bool :=
  if (["1", "t", "T", "TRUE", "true", "True"].any fun w => (w : Text) == t) then some true
  else if (["0", "f", "F", "FALSE", "false", "False"].any fun w => (w : Text) == t) then
    some false
  else none

def knob? (key : Text) : Option Knob :=
  if key == ("level" : Text) then some .level
  else if key == ("format" : Text) then some .format
  else if key == ("time-layout" : Text) then some .timeLayout
  else none

/-- The settings so far, and the one that may take the next argument for its value. -/
structure Scan where
  preset : Preset
  waiting : Option Knob

def take (p : Preset) (arg : Text) : Scan :=
  let (name, value) := Text.cut (byte '=') arg
  let negated := ("--no-log-" : Text).isPrefixOf name
  if !negated && !("--log-" : Text).isPrefixOf name then ⟨p, none⟩
  else
    let key := without "--log-" (without "--no-log-" name)
    let on := (value.elim (some true) truth?).map (· != negated)
    match knob? key, on with
    | some knob, _ =>
      if negated then ⟨p, none⟩
      else match value with
        | some t => ⟨p.set knob t, none⟩
        | none => ⟨p.set knob [], some knob⟩
    | none, some on =>
      if key == ("pretty" : Text) then ⟨{ p with pretty := on }, none⟩
      else if key == ("caller" : Text) then ⟨{ p with caller := on }, none⟩
      else ⟨p, none⟩
    | none, none => ⟨p, none⟩

/-- Takes an argument, which is the value of the setting before it unless it is empty or looks like
a flag. -/
def step (s : Scan) (arg : Text) : Scan :=
  match s.waiting, arg with
  | some knob, b :: rest =>
    if b == byte '-' then take s.preset arg else ⟨s.preset.set knob (b :: rest), none⟩
  | _, _ => take s.preset arg

def ofArguments (args : List Text) : Preset := (args.foldl step ⟨{}, none⟩).preset

end Preset

end LoxLang.Log
