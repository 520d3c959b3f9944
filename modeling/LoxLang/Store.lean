import LoxLang.Value

namespace LoxLang

/-- One scope's variables and the frame around it. -/
structure Frame where
  vars : Dict Value
  parent : Option FrameId

structure Store where
  frames : Array Frame
  objects : Array (Dict Value)
  /-- The first serial number that no function or class has. -/
  serial : Nat

namespace Store

/-- A store without frames. Its one object is no value: it is where functions of the host keep what
they remember. -/
def empty : Store := ⟨#[], #[[]], 0⟩

def newFrame (s : Store) (parent : Option FrameId) : FrameId × Store :=
  (s.frames.size, { s with frames := s.frames.push ⟨[], parent⟩ })

def parent? (s : Store) (f : FrameId) : Option FrameId := s.frames[f]?.bind Frame.parent

def vars (s : Store) (f : FrameId) : Dict Value := (s.frames[f]?.map Frame.vars).getD []

def define (s : Store) (f : FrameId) (name : Text) (v : Value) : Store :=
  { s with frames := s.frames.modify f fun fr => { fr with vars := fr.vars.set name v } }

/-- The nearest frame, from `f` outwards, that binds a name. A frame is younger than the one around
it, so the search ends. -/
def holder? (s : Store) (name : Text) (f : FrameId) : Option FrameId :=
  if (s.vars f).has name then some f
  else match s.parent? f with
    | some p => if p < f then holder? s name p else none
    | none => none

def get? (s : Store) (f : FrameId) (name : Text) : Option Value :=
  (s.holder? name f).bind fun g => (s.vars g).get? name

def assign? (s : Store) (f : FrameId) (name : Text) (v : Value) : Option Store :=
  (s.holder? name f).map fun g => s.define g name v

/-- The frame a number of steps out, if the chain is that long. -/
def ancestor? (s : Store) (f : FrameId) : Nat → Option FrameId
  | 0 => if f < s.frames.size then some f else none
  | n + 1 => (s.parent? f).bind fun p => s.ancestor? p n

/-- The value of a name in the frame a number of steps out, `nil` if it is not bound there. -/
def getAt? (s : Store) (f : FrameId) (steps : Nat) (name : Text) : Option Value :=
  (s.ancestor? f steps).map fun g => ((s.vars g).get? name).getD .nil

def assignAt? (s : Store) (f : FrameId) (steps : Nat) (name : Text) (v : Value) : Option Store :=
  (s.ancestor? f steps).map fun g => s.define g name v

def newSerial (s : Store) : Nat × Store := (s.serial, { s with serial := s.serial + 1 })

def newObject (s : Store) : Nat × Store :=
  (s.objects.size, { s with objects := s.objects.push [] })

def fields (s : Store) (id : Nat) : Dict Value := (s.objects[id]?).getD []

theorem fields_empty (id : Nat) : empty.fields id = [] := by cases id <;> rfl

def setField (s : Store) (id : Nat) (name : Text) (v : Value) : Store :=
  { s with objects := s.objects.modify id (Dict.set name v) }

end Store

end LoxLang
