import LoxLang.Log.Logger

namespace LoxLang

abbrev Reporter (σ : Type) := Diagnostic → σ → σ

namespace Reporter

variable {σ : Type}

def discard : Reporter σ := fun _ s => s

def tee (rs : List (Option (Reporter σ))) : Reporter σ := fun d s =>
  rs.foldl (fun s r => match r with | some r => r d s | none => s) s

end Reporter

structure Collector where
  diagnostics : List Diagnostic
  hadError : Bool
  hadRuntimeError : Bool
  logger : Log.Logger
  color : Bool
  echo : Text
  logged : Text

namespace Collector

def new (logger : Log.Logger) (color : Bool) : Collector :=
  ⟨[], false, false, logger, color, [], []⟩

def echoed (color : Bool) (d : Diagnostic) : Text :=
  if color then "\x1b[31m" ++ d.text ++ "\x1b[0m\n" else d.text ++ [Text.newline]

def report : Reporter Collector := fun d c =>
  { c with
    diagnostics := c.diagnostics ++ [d]
    hadError := c.hadError || d.stage.isStatic
    hadRuntimeError := c.hadRuntimeError || !d.stage.isStatic
    echo := c.echo ++ echoed c.color d
    logged := c.logged ++ c.logger.emit none d.logRecord }

/-- Forgets the diagnostics and the flags, as between two lines of a session. -/
def reset (c : Collector) : Collector :=
  { c with diagnostics := [], hadError := false, hadRuntimeError := false }

end Collector

end LoxLang
