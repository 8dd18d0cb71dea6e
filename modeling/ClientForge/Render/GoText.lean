import ClientForge.Convention.Language
import ClientForge.Render.Site

/-!
# Names, types and comments in Go

How Go clients write names, types and documentation. References to classes are pointers, and so are scalars
that may be missing. A type from another package is qualified by the package; the names of functions about
it are made from the part behind the qualification.
-/

namespace ClientForge.Render.Go

open ClientForge.Graph ClientForge.Plan ClientForge.Convention

/-! ### Imports -/

def abstractionsPath : String := "github.com/microsoft/kiota-abstractions-go"

def serializationPath : String := abstractionsPath ++ "/serialization"

def storePath : String := abstractionsPath ++ "/store"

def uuidPath : String := "github.com/google/uuid"

/-! ### Comments -/

/-- A text as the rest of a sentence. Abbreviations keep their capitals. -/
def continued (text : String) : String :=
  match text.toList with
  | [] => text
  | c :: rest => if rest.head?.any Text.isUpperLetter then text else String.ofList (Text.lowerChar c :: rest)

/-- The words for a link. -/
def linkLabel (d : Documentation) : String := if d.label.isEmpty then "Find more info here" else d.label

/-- Documentation as a comment on what has a name. -/
def comment (p : Policy) (name : String) (d : Documentation) : List String :=
  let text := Text.trim d.description
  (if text.isEmpty then [] else p.docLines (name ++ " " ++ continued text)) ++
    (if d.link.isEmpty then []
      else (if text.isEmpty then [] else ["//"]) ++ ["// [" ++ linkLabel d ++ "]: " ++ d.link])

/-! ### Names of functions -/

/-- A name with something around its last part. -/
def affixed (front name back : String) : String :=
  match Text.splitLast '.' name with
  | (some package, last) => package ++ "." ++ front ++ last ++ back
  | (none, last) => front ++ last ++ back

/-- The function that constructs a class. -/
def constructorOf (c : ClassDef) : Script String := do
  let name ← className c
  pure (affixed "New" name "" ++ (if c.kind == .requestBuilder then "Internal" else ""))

/-- The function that chooses a class by a discriminator value, which may be missing. -/
def factoryOf (c : Option ClassDef) : Script String :=
  match c with
  | some c => do
    let name ← className c
    pure (affixed "Create" name "FromDiscriminatorValue")
  | none => pure "nil"

/-! ### Types -/

/-- Whether a type has a value for what is missing. -/
def isNilable (type : String) : Bool :=
  ["*", "[]", "map[", "func(", "any", "interface"].any (Text.startsWith type)

/-- A type that has a value for what is missing. -/
def pointer (type : String) : String := if isNilable type then type else "*" ++ type

/-- The imports that the qualified names of primitives need. -/
def scalarImports : List (String × String) :=
  [("uuid.", uuidPath), ("time.", "time"), ("serialization.", serializationPath)]

/-- A primitive, and the import it needs. -/
def scalar (c : Context) (name : String) : Script String := do
  let name := c.policy.scalarName name
  needAll (((scalarImports.find? fun i => Text.startsWith name i.1).map (·.2)).toList)
  pure name

def refType (c : Context) (t : TypeRef) : Script String := do
  if t.isVoid then pure ""
  else match c.graph.classOf t with
    | some cls => do
      let name ← className cls
      pure (if t.isCollection then "[]*" ++ name else pointer name)
    | none => do
      let name ← if t.definition.isSome then definitionName c t else scalar c t.name
      pure (if t.isCollection then "[]" ++ name else if t.nullable then pointer name else name)

def typeOf (c : Context) (t : Option TypeExpr) : Script String :=
  match t.bind TypeExpr.ref? with
  | some r => refType c r
  | none => typeText c t

/-- The type of one element of a collection. -/
def elementType (c : Context) (t : Option TypeExpr) : Script String :=
  match t.bind TypeExpr.ref? with
  | some r => refType c r.element
  | none => typeOf c t

/-- A type of the runtime, behind its import. -/
def runtime (path type : String) : Script String := do
  need path
  pure type

/-- The type of a property. What belongs to the runtime has a fixed type. -/
def fieldType (c : Context) (q : Property) : Script String :=
  match q.kind with
  | .pathParameters => pure "map[string]string"
  | .additionalData => pure "map[string]any"
  | .headers => runtime abstractionsPath "*abstractions.RequestHeaders"
  | .options => runtime abstractionsPath "[]abstractions.RequestOption"
  | .requestAdapter => runtime abstractionsPath "abstractions.RequestAdapter"
  | .backingStore => runtime storePath "store.BackingStore"
  | .urlTemplate => pure "string"
  | .custom | .queryParameter => do
    let type ← typeOf c q.type
    pure (pointer type)
  | _ => typeOf c q.type

def parameterType (c : Context) (q : Parameter) : Script String :=
  match q.kind with
  | .pathParameters => pure "map[string]string"
  | .requestAdapter => runtime abstractionsPath "abstractions.RequestAdapter"
  | .serializer => runtime serializationPath "serialization.SerializationWriter"
  | .parseNode => runtime serializationPath "serialization.ParseNode"
  | .backingStore => runtime storePath "store.BackingStoreFactory"
  | .rawUrl => pure "string"
  | _ => do
    let type ← typeOf c (some q.type)
    pure (if q.optional then pointer type else type)

/-! ### Names -/

/-- The field of a property. Only public properties are exported. -/
def field (p : Policy) (q : Property) : String :=
  if q.access == .everywhere then p.memberName q.name else p.identifier .camel q.name

/-- The field of a property of the object at hand. -/
def ownField (p : Policy) (q : Property) : String := "m." ++ field p q

def ownField? (p : Policy) (q : Option Property) : String := (q.map (ownField p)).getD "nil"

variable (s : Site)

def property (q : Property) : String := ownField s.policy q

def property? (q : Option Property) : String := ownField? s.policy q

def parameter (q : Parameter) : String := s.policy.identifier .camel (s.body.nameOf q)

def methodName (m : Method) : String := s.policy.memberName m.name

/-- The adapter of the object at hand. -/
def adapter : String := (s.adapter.map (property s)).getD "m.requestAdapter"

/-- The variable that values are written to. -/
def writer : String :=
  match s.method.parameterOfKind .serializer with
  | some p => parameter s p
  | none => "writer"

end ClientForge.Render.Go
