import ClientForge.Text.Template

/-!
# Writing lines

A writer puts lines one after the other, each behind the indentation of its depth. A blank line has no
indentation; an empty line of text has.
-/

namespace ClientForge.Render

structure Writer where
  /-- The indentation for one level. -/
  indentUnit : String
  depth : Nat := 0
  /-- What was written, latest piece first. -/
  written : List String := []

namespace Writer

def indentation (w : Writer) : String := String.join (List.replicate w.depth w.indentUnit)

def line (w : Writer) (text : String) : Writer :=
  { w with written := (w.indentation ++ text ++ "\n") :: w.written }

def blank (w : Writer) : Writer := { w with written := "\n" :: w.written }

/-- A line with arguments in their places. Without arguments a text stands as it is, and an empty one makes a
blank line. -/
def fill (w : Writer) (template : String) (args : List Text.Argument) : Writer :=
  if template.isEmpty then w.blank
  else w.line (if args.isEmpty then template else Text.fill template args)

def lines (w : Writer) (texts : List String) : Writer := texts.foldl line w

def indent (w : Writer) : Writer := { w with depth := w.depth + 1 }

/-- One level back. There is none before the first. -/
def dedent (w : Writer) : Writer := { w with depth := w.depth - 1 }

/-- Lines between an opening and a closing one, a level deeper. -/
def block (w : Writer) (opening closing : String) (body : Writer → Writer) : Writer :=
  ((body (w.line opening).indent).dedent).line closing

/-- All that was written. -/
def text (w : Writer) : String := String.join w.written.reverse

end Writer

end ClientForge.Render
