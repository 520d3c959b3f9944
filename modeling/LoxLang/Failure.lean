import LoxLang.Log
import LoxLang.Machine

namespace LoxLang

/-- The kinds of failures that callers tell apart; `other` numbers those made elsewhere. -/
inductive Sentinel where
  | readInput | compile | runtime | define | invalidName | invalidResult
  | openSource | noSource | marshal | writeConfig | fileExists | outOfBounds | editDeclined
  | other (serial : Nat)
  deriving DecidableEq, Repr

def Sentinel.text : Sentinel → String
  | readInput => "failed to read input"
  | compile => "compile error"
  | runtime => "runtime error"
  | define => "invalid definition"
  | invalidName => "invalid variable name"
  | invalidResult => "unsupported result type"
  | openSource => "open source"
  | noSource => "no source"
  | marshal => "marshal syntax tree"
  | writeConfig => "write configuration file"
  | fileExists => "file exists (use --force to overwrite)"
  | outOfBounds => "no such history entry"
  | editDeclined => "edit declined"
  | other _ => ""

inductive Foreign where
  | plain (serial : Nat) (text : Text)
  | canceled
  | native (text : Text)
  | fault (e : RuntimeError)
  | rejected (e : SyntaxError)
  deriving DecidableEq

def Foreign.text : Foreign → Text
  | plain _ t => t
  | canceled => "context canceled"
  | native t => t
  | fault e => e.text
  | rejected e => e.text

/-- A failure. One that is not of a kind of ours may have a cause as well. -/
inductive Failure where
  | foreign (f : Foreign) (cause : Option Failure)
  | own (sentinel : Sentinel) (text : Text) (attrs : List Log.Attr) (cause : Option Failure)

namespace Failure

def of (s : Sentinel) : Failure := own s s.text [] none

def wrap (e : Failure) (cause : Option Failure) : Failure :=
  match e with
  | own s t attrs _ => own s t attrs cause
  | foreign f c => foreign f c

def attach (e : Failure) (more : List Log.Attr) : Failure :=
  match e with
  | own s t attrs cause => own s t (attrs ++ more) cause
  | foreign f c => foreign f c

def text : Failure → Text
  | foreign f _ => f.text
  | own _ t _ none => t
  | own _ t _ (some cause) => if t.isEmpty then cause.text else t ++ ": " ++ cause.text

def cause? : Failure → Option Failure
  | foreign _ cause | own _ _ _ cause => cause

def attrs : Failure → List Log.Attr
  | foreign _ _ => []
  | own _ _ attrs _ => attrs

def chain : Failure → List Failure
  | foreign f none => [foreign f none]
  | foreign f (some cause) => foreign f (some cause) :: cause.chain
  | own s t attrs none => [own s t attrs none]
  | own s t attrs (some cause) => own s t attrs (some cause) :: cause.chain

def sentinel? : Failure → Option Sentinel
  | foreign _ _ => none
  | own s _ _ _ => some s

def has (e : Failure) (s : Sentinel) : Bool := e.chain.any fun x => x.sentinel? == some s

def foreign? : Failure → Option Foreign
  | foreign f _ => some f
  | own _ _ _ _ => none

/-- Whether a failure, or one of its causes, is the given one: of the same kind, or, for failures
that have none of ours, the very same. -/
def is (e target : Failure) : Bool :=
  match target with
  | own s _ _ _ => e.has s
  | foreign f _ => e.chain.any fun x => x.foreign? == some f

/-- The first of a kind of ours, from a failure along its causes. -/
def known? (e : Failure) : Option Failure := e.chain.find? fun x => x.sentinel?.isSome

/-- The first failure of a kind of ours, else a nameless one that the failure causes. -/
def adopt (e : Failure) (serial : Nat) : Failure :=
  e.known?.getD (own (.other serial) [] [] (some e))

def fault? (e : Failure) : Option RuntimeError :=
  e.chain.findSome? fun
    | foreign (.fault r) _ => some r
    | _ => none

end Failure

namespace RuntimeError

def logFields (e : RuntimeError) : List Log.Attr :=
  [Log.text "error" e.message, Log.int "line" e.token.line, Log.text "lexeme" e.token.lexeme]

def logRecord (e : RuntimeError) : Log.Record :=
  ⟨.debug, "runtime error", [("error", .deferred e.text e.logFields)]⟩

end RuntimeError

namespace Failure

mutual
def logValue : Failure → Log.Value
  | foreign (.fault e) _ => .deferred e.text e.logFields
  | foreign f _ => .error f.text
  | own s t attrs cause =>
    .deferred (text (own s t attrs cause))
      ((if t.isEmpty then [] else [Log.text "error" t]) ++ causeField cause ++ attrs)

def causeField : Option Failure → List Log.Attr
  | none => []
  | some e => [("cause", e.logValue)]
end

def logFields : Failure → List Log.Attr
  | foreign _ _ => []
  | own _ t attrs cause =>
    (if t.isEmpty then [] else [Log.text "error" t]) ++ causeField cause ++ attrs

end Failure

end LoxLang
