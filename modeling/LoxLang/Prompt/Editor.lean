import LoxLang.Prompt.Session

namespace LoxLang.Prompt

/-- What the user will do in the editor and answer to questions. -/
structure Editor where
  saves : List Text
  replies : Text
  failure : Text

inductive Editing.Ending where
  | ran (o : Session.Outcome)
  | canceled
  | declined
  | failed (reason : Text)

structure Editing where
  ending : Editing.Ending
  buffer : Text
  session : Session
  stdout : Text
  stderr : Text
  editor : Editor

namespace Editing

def question : Text := "Re-edit? [Y/n] "

/-- The line that answers a question, unless nothing is left to read. -/
def answer? (replies : Text) : Option Text :=
  if replies.isEmpty then none else replies.lines.head?

def isRefusal (answer : Text) : Bool :=
  let a := Text.lower answer.trim
  a == ("n" : Text) || a == ("no" : Text)

/-- Edits and runs until a program compiles or the user gives up. The first answer takes all of the
replies. -/
def revise (now : Int) (signal : Signal) (failure : Text) :
    List Text → Text → Text → Text → Text → Session → Editing
  | [], replies, buffer, stdout, stderr, s =>
    ⟨.failed failure, buffer, s, stdout, stderr, ⟨[], replies, failure⟩⟩
  | saved :: saves, replies, _, stdout, stderr, s =>
    if saved.trim.isEmpty then
      ⟨.canceled, saved, s, stdout, stderr, ⟨saves, replies, failure⟩⟩
    else
      let (o, error?, s) := s.load now signal saved
      if (error?.map fun e => e.has .compile).getD false then
        let stderr := stderr ++ o.errors.flatMap (· ++ [Text.newline])
        let stdout := stdout ++ question
        match answer? replies with
        | none => ⟨.declined, saved, s, stdout, stderr, ⟨saves, [], failure⟩⟩
        | some a =>
          if isRefusal a then ⟨.declined, saved, s, stdout, stderr, ⟨saves, [], failure⟩⟩
          else revise now signal failure saves [] saved stdout stderr s
      else ⟨.ran o, saved, s, stdout, stderr, ⟨saves, replies, failure⟩⟩

def run (now : Int) (signal : Signal) (editor : Editor) (buffer : Text) (s : Session) : Editing :=
  revise now signal editor.failure editor.saves editor.replies buffer [] [] s

end Editing

end LoxLang.Prompt
