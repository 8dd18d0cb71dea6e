import ClientForge.Convention.Policy
import ClientForge.Text.Path

/-!
# The layout of generated files

Every class and enum has a file of its own, in a directory for its namespace.
-/

namespace ClientForge.Render

open ClientForge.Graph

/-- The directory of a namespace below that of the root: a part for each part of its name. -/
def directory (root : NamespaceRef) (space : Option NamespaceRef) : String :=
  match space with
  | none => ""
  | some n =>
    if n.id == root.id then ""
    else
      let name := Text.dropFront (Text.dropFront n.name root.name) "."
      Text.lower (Text.replaceChar '.' "/" name)

/-- The path of the file of an element. -/
def unitPath (p : Convention.Policy) (root : NamespaceRef) (d : Definition) : String :=
  Text.Path.append (directory root d.home) (p.fileCase.apply d.name ++ p.extension)

/-- How many parts two paths have in common in front of the last part of the second. -/
def commonParts : List String → List String → Nat
  | a :: as, b :: c :: bs => if a = b then commonParts as (c :: bs) + 1 else 0
  | _, _ => 0

/-- The way from a directory to a file. -/
def relative (dir target : String) : String :=
  let source := Text.Path.parts dir
  let target := Text.Path.parts target
  let common := commonParts source target
  let way := "/".intercalate (List.replicate (source.length - common) ".." ++ target.drop common)
  if Text.startsWith way ".." then way else "./" ++ way

end ClientForge.Render
