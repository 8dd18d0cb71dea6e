import ClientForge.Text.Blank

/-!
# Paths

Paths with slashes between their parts, and their shortest form: no empty parts, no single dots, and double
dots only at the front of a relative path.
-/

namespace ClientForge.Text.Path

/-- One more part on a path that is kept in reverse. -/
def step (rooted : Bool) (path : List String) (part : String) : List String :=
  if part = "" || part = "." then path
  else if part = ".." then
    match path with
    | [] => if rooted then [] else [".."]
    | last :: rest => if last = ".." then ".." :: path else rest
  else part :: path

/-- The shortest form of a path. -/
def clean (path : String) : String :=
  let rooted := startsWith path "/"
  let parts := ((split '/' path).foldl (step rooted) []).reverse
  if rooted then "/" ++ "/".intercalate parts
  else if parts.isEmpty then "."
  else "/".intercalate parts

/-- One path behind another. Empty paths add nothing. -/
def append (a b : String) : String :=
  if a.isEmpty && b.isEmpty then ""
  else if a.isEmpty then clean b
  else if b.isEmpty then clean a
  else clean (a ++ "/" ++ b)

/-- A path as it leads on from a directory, in its shortest form. -/
def absolute (start path : String) : String :=
  if startsWith path "/" then clean path else append start path

/-- The parts of a relative path. -/
def parts (path : String) : List String :=
  if path = "" || path = "." then [] else split '/' path

/-- The directory of a path. -/
def directory (path : String) : String :=
  match splitLast '/' path with
  | (some front, _) => clean (front ++ "/")
  | (none, _) => "."

/-- The last part of a path. -/
def base (path : String) : String :=
  let trimmed := trimEndOf ['/'] path
  if path.isEmpty then "." else if trimmed.isEmpty then "/" else (splitLast '/' trimmed).2

end ClientForge.Text.Path
