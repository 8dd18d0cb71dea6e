import ClientForge.Text.Shown
import ClientForge.Yaml.Value

/-!
# Mismatches

Where a document is well written but not shaped as it should be: a node of the wrong kind for its place, a
field that its record does not have, or a key that is given twice. A document can have many; all of them are
reported, in the order in which the nodes stand.
-/

namespace ClientForge.Document

inductive Mismatch where
  /-- A node that does not fit its place. The text of a container is empty. -/
  | unfit (line : Nat) (tag text expected : String)
  | unknownField (line : Nat) (field : String) (record : String)
  | repeatedField (line : Nat) (field : String) (record : String)
  | repeatedKey (line : Nat) (key : String) (first : Nat)
deriving DecidableEq, Repr

namespace Mismatch

/-- The characters that fit in a number of bytes. Of one that is cut, every byte shows as a mark. -/
def cutChars (room : Nat) : List Char → List Char
  | [] => []
  | c :: cs =>
    if c.utf8Size ≤ room then c :: cutChars (room - c.utf8Size) cs
    else List.replicate room (Char.ofNat 0xFFFD)

/-- The text of a node as messages show it: at most ten bytes, or else the first seven. -/
def excerpt (text : String) : String :=
  if text.utf8ByteSize ≤ 10 then text else String.ofList (cutChars 7 text.toList) ++ "..."

/-- A text behind its tag. What is tagged as a container is expected to have none, and shows it bare. -/
def behindTag (tag text : String) : String :=
  if tag == "!!seq" || tag == "!!map" then text else " `" ++ excerpt text ++ "`"

def message : Mismatch → String
  | unfit line tag text expected =>
    "line " ++ toString (line + 1) ++ ": cannot unmarshal " ++ tag ++ behindTag tag text ++ " into " ++ expected
  | unknownField line field record =>
    "line " ++ toString (line + 1) ++ ": field " ++ field ++ " not found in type " ++ record
  | repeatedField line field record =>
    "line " ++ toString (line + 1) ++ ": field " ++ field ++ " already set in type " ++ record
  | repeatedKey line key first =>
    "line " ++ toString (line + 1) ++ ": mapping key " ++ Text.shown key ++ " already defined at line " ++
      toString (first + 1)

end Mismatch

end ClientForge.Document
