import ClientForge.Failure
import ClientForge.Text.Path

/-!
# Paths below an output directory

Only paths in their shortest form that stay below the output directory are written to, with slashes between
their parts on every system.
-/

namespace ClientForge.Output

/-- Whether a path starts with the letter of a drive. -/
def startsWithDrive (path : String) : Bool :=
  match path.toList with
  | letter :: ':' :: _ => letter.isAlpha
  | _ => false

/-- What is wrong with a path below an output directory, if anything. -/
def checkPath (path : String) : Except Failure Unit :=
  if path.isEmpty then .error (.cause .emptyPath)
  else if Text.startsWith path "/" || startsWithDrive path then .error (.cause .absolutePath)
  else if path.toList.contains '\\' then .error (.cause .backslashPath)
  else if (Text.split '/' path).contains ".." then .error (.cause .climbingPath)
  else if Text.Path.clean path != path then .error (.cause (.uncleanPath (Text.Path.clean path) path))
  else .ok ()

end ClientForge.Output
