import ClientForge.Text.Blank
import ClientForge.Text.Escaped

/-!
# Lock files

A lock file stands beside the files of a target and says what they were generated from.
-/

namespace ClientForge.Run

structure Lock where
  version : String
  language : String
  className : String
  namespaceName : String
  /-- The digest of the document. -/
  hash : String
  usesBackingStore : Bool
  serializers : List String
  deserializers : List String
deriving DecidableEq, Repr

namespace Lock

/-- Where the lock file of a target is. -/
def path : String := "apigen-lock.json"

def string (s : String) : String := Text.escaped true s

/-- A list of strings, one on each line. -/
def strings (items : List String) : String :=
  if items.isEmpty then "[]"
  else "[\n" ++ ",\n".intercalate (items.map fun s => "    " ++ string s) ++ "\n  ]"

/-- The fields in the order in which they are written. -/
def fields (l : Lock) : List (String × String) := [
  ("generatorVersion", string l.version),
  ("language", string l.language),
  ("clientClassName", string l.className),
  ("clientNamespaceName", string l.namespaceName),
  ("descriptionHash", string l.hash),
  ("usesBackingStore", if l.usesBackingStore then "true" else "false"),
  ("serializers", strings l.serializers),
  ("deserializers", strings l.deserializers)]

def text (l : Lock) : String :=
  "\x7b\n" ++ ",\n".intercalate (l.fields.map fun f => "  " ++ string f.1 ++ ": " ++ f.2) ++ "\n\x7d\n"

end Lock

end ClientForge.Run
