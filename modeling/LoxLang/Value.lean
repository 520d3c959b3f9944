import LoxLang.Dict
import LoxLang.Resolver

namespace LoxLang

abbrev FrameId := Nat

/-- A function or method and the frame it was made in. -/
structure Closure where
  serial : Nat
  routine : Routine (Stmt Distance)
  frame : FrameId
  isInitializer : Bool

namespace Closure

def name (f : Closure) : Text := f.routine.name.lexeme

def arity (f : Closure) : Nat := f.routine.params.length

def params (f : Closure) : List Text := f.routine.params.map Token.lexeme

end Closure

inductive Class where
  | mk (serial : Nat) (name : Text) (superclass : Option Class) (methods : Dict Closure)

namespace Class

def serial : Class → Nat
  | mk serial _ _ _ => serial

def name : Class → Text
  | mk _ name _ _ => name

def superclass : Class → Option Class
  | mk _ _ superclass _ => superclass

def methods : Class → Dict Closure
  | mk _ _ _ methods => methods

def findMethod (name : Text) : Class → Option Closure
  | mk _ _ superclass methods =>
    match methods.get? name with
    | some m => some m
    | none =>
      match superclass with
      | some c => c.findMethod name
      | none => none

/-- The methods of the class and its ancestors, nearest first, with repetitions. -/
def allMethods : Class → List Text
  | mk _ _ superclass methods =>
    methods.map Prod.fst ++
      match superclass with
      | some c => c.allMethods
      | none => []

def methodNames (c : Class) : List Text := Text.sort c.allMethods.eraseDups

def initializer? (c : Class) : Option Closure := c.findMethod "init"

def arity (c : Class) : Nat :=
  match c.initializer? with
  | some init => init.arity
  | none => 0

end Class

inductive Value where
  | nil
  | bool (b : Bool)
  | number (x : Float)
  | string (t : Text)
  | native (serial : Nat)
  | function (f : Closure)
  | klass (c : Class)
  | object (id : Nat) (c : Class)
  /-- What a host hands in when it has no value; no program can write it. -/
  | absent

namespace Value

def ofLiteral : Option Literal → Value
  | none => nil
  | some (.bool b) => bool b
  | some (.number x) => number x
  | some (.string t) => string t

/-- Only `nil` and `false` count as false. -/
def truthy : Value → Bool
  | nil | absent => false
  | bool b => b
  | _ => true

/-- Equality: numbers as doubles, strings by content, and what has a serial number by that. -/
def same : Value → Value → Bool
  | nil, nil => true
  | bool a, bool b => a == b
  | number a, number b => a == b
  | string a, string b => a == b
  | native a, native b => a == b
  | function f, function g => f.serial == g.serial
  | klass c, klass d => c.serial == d.serial
  | object a _, object b _ => a == b
  | absent, absent => true
  | _, _ => false

def typeName : Value → String
  | nil | absent => "nil"
  | bool _ => "bool"
  | number _ => "number"
  | string _ => "string"
  | native _ | function _ => "function"
  | klass _ => "class"
  | object _ _ => "instance"

def text? : Value → Option Text
  | nil => some "nil"
  | bool true => some "true"
  | bool false => some "false"
  | number x => some (Layout.plain.write x)
  | string t => some t
  | native _ => some "<native fn>"
  | function f => some ("<fn " ++ f.name ++ ">")
  | klass c => some c.name
  | object _ c => some (c.name ++ " instance")
  | absent => none

end Value

end LoxLang
