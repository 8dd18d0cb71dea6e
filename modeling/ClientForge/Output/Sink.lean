import ClientForge.Output.PathRule

/-!
# Sinks

A sink takes files by path. What it did with them is a state of its own, so a sink is a pair of functions on
that state. A run may have been cancelled before a sink is asked; most sinks then refuse.
-/

namespace ClientForge.Output

/-- What happens to a state: an outcome and the state after it. A failure may leave its traces. -/
abbrev Deed (σ : Type) := σ → Except Failure Unit × σ

structure Sink (σ : Type) where
  write : (cancelled : Bool) → (path content : String) → Deed σ
  /-- Discards what there is, where the sink can do that. -/
  clean : Option ((cancelled : Bool) → Deed σ)

/-- Checks a path and that the run goes on, before anything is written. -/
def checkWrite (cancelled : Bool) (path : String) : Except Failure Unit := do
  inContext ("invalid path " ++ Text.shown path) (checkPath path)
  if cancelled then throw (.cause .cancelled)

/-- A sink that writes below a directory of another one. It cannot be cleaned. -/
def Sink.below {σ : Type} (dir : String) (s : Sink σ) : Sink σ where
  write cancelled path content := s.write cancelled (if dir.isEmpty then path else dir ++ "/" ++ path) content
  clean := none

end ClientForge.Output
