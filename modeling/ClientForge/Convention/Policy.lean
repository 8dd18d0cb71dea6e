import ClientForge.Failure
import ClientForge.Graph.Basic
import ClientForge.Text.Casing

/-!
# Policies

A policy holds what a target language prescribes: how identifiers are cased and which words are taken, how
primitives are called, and how collections, nullable and composed types are written. A policy is data;
`ClientForge.Convention.Language` has one for each language.
-/

namespace ClientForge.Convention

open ClientForge.Graph

/-- How a target marks a nullable type. -/
inductive NullableMark where
  | question
  | orNull
  /-- A pointer, which slices, maps and pointers do not need. -/
  | pointer
deriving DecidableEq, Repr

def NullableMark.apply : NullableMark → String → String
  | question, name => name ++ "?"
  | orNull, name => name ++ " | null"
  | pointer, name =>
    if Text.startsWith name "[]" || Text.startsWith name "map[" || Text.startsWith name "*" then name
    else "*" ++ name

structure Policy where
  /-- The language's identifier. -/
  target : String
  /-- The type names that count as primitive. -/
  primitives : List String
  /-- How primitives are called, by lower-case name. -/
  scalarNames : List (String × String)
  access : Access → String
  reserved : List String
  nullable : NullableMark
  array : String → String
  list : String → String
  /-- A type name behind that of its namespace. -/
  qualify : (space name : String) → String
  /-- Whether every type from another namespace is qualified. -/
  qualifiesForeign : Bool := false
  /-- What every line of documentation starts with. -/
  docMark : String
  streamType : String
  voidType : String
  /-- Whether union and intersection types can be written down. -/
  composedTypes : Bool := false
  typeCase : Text.Casing
  memberCase : Text.Casing
  fileCase : Text.Casing
  /-- The extension of file names, with its dot. -/
  extension : String

namespace Policy

variable (p : Policy)

def isPrimitive (translated : String) : Bool := p.primitives.contains translated

def isReserved (name : String) : Bool := p.reserved.contains name

/-- A name in a casing. Reserved words get an underscore. -/
def identifier (casing : Text.Casing) (name : String) : String :=
  let cased := casing.apply name
  if p.isReserved cased then cased ++ "_" else cased

/-- The name of a declared element. -/
def typeName (name : String) : String := p.identifier p.typeCase name

/-- The name of a property, parameter or method. -/
def memberName (name : String) : String := p.identifier p.memberCase name

/-- A text as lines of documentation. -/
def docLines (text : String) : List String :=
  let text := Text.trim text
  if text.isEmpty then []
  else (Text.split '\n' text).map fun line => p.docMark ++ Text.trimEndOf [' ', '\t'] line

/-- What a primitive is called. A name that is no primitive's stays as it is. -/
def scalarName (name : String) : String :=
  match p.scalarNames.find? (·.1 == Text.lower name) with
  | some (_, translated) => translated
  | none => name

/-- A name as a reference uses it, in its collection and with its mark. -/
def decorate (t : TypeRef) (name : String) : String :=
  let name := match t.collection with
    | .none => name
    | .array => p.array name
    | .list => p.list name
  if t.nullable then p.nullable.apply name else name

end Policy

/-- The failure for a type that a target cannot express. Composed types should never get that far. -/
def unsupportedType (g : Graph) (target : String) (t : TypeExpr) : Failure :=
  let construct := match t with
    | .scalar _ => "type"
    | .composed .union .. => "union type"
    | .composed .intersection .. => "intersection type"
  .hinted ("composed types must be flattened into a wrapper class before reaching this target; " ++
      "the IR builder skipped that pass")
    (.cause (.unsupported construct (g.typeText t) target))

section Translate

variable {m : Type → Type} [Monad m] [MonadExcept Failure m]

/-- A reference as the target writes it, with a given way to name declared elements. -/
def translateRef (g : Graph) (p : Policy) (nameOf : Definition → m String) (t : TypeRef) : m String := do
  let name ← match t.definition.bind g.definition? with
    | some d => nameOf d
    | none => pure (p.scalarName t.name)
  pure (p.decorate t name)

mutual

/-- A type as the target writes it. -/
def translate (g : Graph) (p : Policy) (nameOf : Definition → m String) : TypeExpr → m String
  | .scalar ref => translateRef g p nameOf ref
  | .composed form name members nullable => do
    if !p.composedTypes then
      throw (unsupportedType g p.target (.composed form name members nullable))
    let parts ← translateAll g p nameOf members
    let joined := match form with
      | .union => " | ".intercalate parts
      | .intersection => " & ".intercalate parts
    pure (if nullable then p.nullable.apply joined else joined)

def translateAll (g : Graph) (p : Policy) (nameOf : Definition → m String) : List TypeExpr → m (List String)
  | [] => pure []
  | t :: ts => do
    let part ← translate g p nameOf t
    let parts ← translateAll g p nameOf ts
    pure (part :: parts)

end

/-- A type that may be missing. A missing type is written as nothing is. -/
def translate? (g : Graph) (p : Policy) (nameOf : Definition → m String) : Option TypeExpr → m String
  | some t => translate g p nameOf t
  | none => pure p.voidType

end Translate

/-- A type as the target writes it without qualification. -/
def Policy.translate (p : Policy) (g : Graph) (t : Option TypeExpr) : Except Failure String :=
  translate? g p (fun d => pure (p.typeName d.name)) t

end ClientForge.Convention
