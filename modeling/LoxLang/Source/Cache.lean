import LoxLang.Source
import LoxLang.Source.Digest

namespace LoxLang

/-- A source that was read once, with a number that tells it from others of the same text. -/
structure Shared where
  serial : Nat
  source : Source

structure Cache where
  entries : List (UInt64 × Shared)
  /-- The first number that no shared source has. -/
  serial : Nat

namespace Cache

def empty : Cache := ⟨[], 0⟩

def clear (c : Cache) : Cache := { c with entries := [] }

def parse (hash : Text → UInt64) (t : Text) (c : Cache) : Shared × Cache :=
  match c.entries.lookup (hash t) with
  | some shared =>
    if shared.source.text = t then (shared, c)
    else (⟨c.serial, .ofText t⟩, { c with serial := c.serial + 1 })
  | none =>
    let shared : Shared := ⟨c.serial, .ofText t⟩
    (shared, ⟨(hash t, shared) :: c.entries, c.serial + 1⟩)

end Cache

inductive Reading where
  /-- The input itself could not be read. -/
  | unread (e : Failure)
  | parsed (shared : Shared)

namespace Reading

def error? : Reading → Option Failure
  | unread e => some e
  | parsed shared => shared.source.error?

/-- The faults reported to the reader, whether the source was cached or not. -/
def diagnostics : Reading → List Diagnostic
  | unread _ => []
  | parsed shared => shared.source.diagnostics

end Reading

/-- Reads a source through the cache. An input that fails leaves the cache as it was. -/
def Cache.read (hash : Text → UInt64) (input : Except Foreign Text) (c : Cache) :
    Reading × Cache :=
  match input with
  | .error e =>
    (.unread (((Failure.of .readInput).wrap (some (.foreign e none))).attach
      [Log.text "source" "reader"]), c)
  | .ok t =>
    let (shared, c) := c.parse hash t
    (.parsed shared, c)

end LoxLang
