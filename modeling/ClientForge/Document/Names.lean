import ClientForge.Document.Entry
import ClientForge.Failure
import ClientForge.Graph.Basic

/-!
# Names in a document

A type is named in full, relative to the root, relative to the namespace that refers to it, or by a short
name that no other element has. A name that belongs to no declared element is a primitive's, or else stands
for itself.
-/

namespace ClientForge.Document

open ClientForge.Graph

/-- A declared class or enum, and where it is declared. -/
structure Declaration where
  definition : DefinitionId
  home : NamespaceRef
  name : String
deriving DecidableEq, Repr

def Declaration.fullName (d : Declaration) : String := d.home.name ++ "." ++ d.name

structure Names where
  root : NamespaceRef
  /-- The declarations, latest first: of two with the same full name the later one counts. -/
  declared : List Declaration

namespace Names

/-- The full names that a name may stand for, in the order in which they are tried. -/
def candidates (names : Names) (name : String) (place : NamespaceRef) : List String :=
  [name, names.root.name ++ "." ++ name] ++
    (if place.id == names.root.id then [] else [place.name ++ "." ++ name])

/-- The declaration with a full name. -/
def withFullName (names : Names) (fullName : String) : Option Declaration :=
  names.declared.find? (·.fullName == fullName)

/-- The element that a name means at a place, if any. -/
def lookup (names : Names) (name : String) (place : NamespaceRef) : Except Failure (Option Declaration) :=
  match (names.candidates name place).findSome? names.withFullName with
  | some d => .ok (some d)
  | none =>
    match names.declared.filter (·.name == name) with
    | [] => .ok none
    | [d] => .ok (some d)
    | _ => .error (.cause (.ambiguousName name))

/-- The collection with a name. -/
def collectionNamed : String → Option Collection
  | "" => some .none
  | "list" => some .list
  | "array" => some .array
  | _ => none

/-- A reference to one element or primitive. -/
def ref (names : Names) (place : NamespaceRef) (t : TypeEntry) : Except Failure TypeRef := do
  if !t.union.isEmpty || !t.intersection.isEmpty then throw (.cause .composedReference)
  if t.name.isEmpty then throw (.cause .unnamedType)
  let found ← names.lookup t.name place
  match collectionNamed t.collection with
  | none => throw (.cause (.unknownCollection t.name t.collection))
  | some collection =>
    match found with
    | some d => pure ⟨d.name, some d.definition, collection, t.nullable⟩
    | none =>
      let lowered := Text.lower t.name
      let name := if primitiveNames.contains lowered then lowered else t.name
      pure ⟨name, none, collection, t.nullable⟩

mutual

/-- Any type. A union wins over an intersection. -/
def type (names : Names) (place : NamespaceRef) : TypeEntry → Except Failure TypeExpr
  | ⟨name, collection, nullable, union, intersection⟩ =>
    if !union.isEmpty then do
      pure (.composed .union name (← names.types place union) nullable)
    else if !intersection.isEmpty then do
      pure (.composed .intersection name (← names.types place intersection) nullable)
    else do
      pure (.scalar (← names.ref place { name, collection, nullable }))

def types (names : Names) (place : NamespaceRef) : List TypeEntry → Except Failure (List TypeExpr)
  | [] => pure []
  | t :: ts => do
    let first ← names.type place t
    pure (first :: (← names.types place ts))

end

end Names

end ClientForge.Document
