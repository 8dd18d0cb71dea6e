import ClientForge.Graph.Kind
import ClientForge.Text.Letter
import ClientForge.Text.Blank

/-!
# Elements

What a graph is made of: classes with their properties, methods and indexers, enums, and the types that
members have. Elements refer to one another by identity, so a reference can point forward, in a circle, or
nowhere; `ClientForge.Graph.Basic` follows references inside a graph.
-/

namespace ClientForge.Graph

/-! ### Identities -/

structure NamespaceId where
  index : Nat
deriving DecidableEq, Repr, Inhabited

structure ClassId where
  index : Nat
deriving DecidableEq, Repr, Inhabited

structure EnumId where
  index : Nat
deriving DecidableEq, Repr, Inhabited

/-- A method is known by the class that lists it and its place there. -/
structure MethodId where
  owner : ClassId
  index : Nat
deriving DecidableEq, Repr, Inhabited

structure PropertyId where
  owner : ClassId
  index : Nat
deriving DecidableEq, Repr, Inhabited

structure IndexerId where
  owner : ClassId
  index : Nat
deriving DecidableEq, Repr, Inhabited

structure ParameterId where
  method : MethodId
  index : Nat
deriving DecidableEq, Repr, Inhabited

/-- A declared class or enum. -/
inductive DefinitionId where
  | ofClass (id : ClassId)
  | ofEnum (id : EnumId)
deriving DecidableEq, Repr, Inhabited

/-- A namespace as its members know it: its identity and its full, dot separated name. -/
structure NamespaceRef where
  id : NamespaceId
  name : String
deriving DecidableEq, Repr, Inhabited

/-! ### Documentation -/

structure Documentation where
  description : String := ""
  link : String := ""
  label : String := ""
deriving DecidableEq, Repr, Inhabited

/-! ### Types -/

inductive Collection where
  | none
  | array
  | list
deriving DecidableEq, Repr

/-- A reference to a declared element or a primitive, possibly a collection of it. -/
structure TypeRef where
  /-- The name of the primitive or of the declared element. -/
  name : String
  definition : Option DefinitionId := none
  collection : Collection := .none
  nullable : Bool := false
deriving DecidableEq, Repr

/-- How the members of a composed type combine: one of them applies, or all do. -/
inductive Composition where
  | union
  | intersection
deriving DecidableEq, Repr

def Composition.kind : Composition → TypeKind
  | .union => .union
  | .intersection => .intersection

inductive TypeExpr where
  | scalar (ref : TypeRef)
  | composed (form : Composition) (name : String) (members : List TypeExpr) (nullable : Bool)
deriving Repr

namespace TypeRef

def isCollection (t : TypeRef) : Bool := t.collection != .none

/-- The type of one element. -/
def element (t : TypeRef) : TypeRef := { t with collection := .none }

def isNamed (t : TypeRef) (primitive : String) : Bool :=
  t.definition.isNone && Text.foldEq t.name primitive

def isStream (t : TypeRef) : Bool := t.isNamed "stream"

def isVoid (t : TypeRef) : Bool := t.isNamed "void"

def isByteArray (t : TypeRef) : Bool := t.isNamed "binary" || t.isNamed "base64"

/-- Whether the reference names a primitive value, and so neither a stream nor nothing. -/
def isPrimitive (t : TypeRef) : Bool := t.definition.isNone && !t.isStream && !t.isVoid

end TypeRef

namespace TypeExpr

def kind : TypeExpr → TypeKind
  | .scalar _ => .scalar
  | .composed form .. => form.kind

def nullable : TypeExpr → Bool
  | .scalar ref => ref.nullable
  | .composed _ _ _ nullable => nullable

/-- The reference of a type that is not composed. -/
def ref? : TypeExpr → Option TypeRef
  | .scalar ref => some ref
  | .composed .. => none

end TypeExpr

/-- The names of the primitives that every target translates. -/
def primitiveNames : List String :=
  ["string", "boolean", "integer", "int64", "float", "double", "decimal", "guid", "datetimeoffset",
    "dateonly", "timeonly", "duration", "byte", "sbyte", "binary", "base64", "stream", "void",
    "untypednode"]

/-! ### Members -/

structure Property where
  name : String
  /-- The key of the property in serialized form, if it differs from its name. -/
  serializationName : String := ""
  kind : PropertyKind := .custom
  type : Option TypeExpr := none
  /-- The default as it stands in source text, and empty without one. -/
  defaultValue : String := ""
  readOnly : Bool := false
  access : Access := .everywhere
  documentation : Documentation := {}
  /-- Whether the base class already handles the property. -/
  inBase : Bool := false
  parent : Option ClassId := none
deriving Repr

/-- The key of a property in serialized form. -/
def Property.wireName (p : Property) : String :=
  if p.serializationName.isEmpty then Text.lowerFirst p.name else p.serializationName

/-- The reference of a property's type, unless it has none or a composed one. -/
def Property.ref? (p : Property) : Option TypeRef := p.type.bind TypeExpr.ref?

structure Parameter where
  id : ParameterId
  name : String
  serializationName : String := ""
  kind : ParameterKind
  type : TypeExpr
  optional : Bool := false
  defaultValue : String := ""
  documentation : Documentation := {}
  /-- The values the parameter accepts, for instance content types. -/
  possibleValues : List String := []
deriving Repr

def Parameter.wireName (p : Parameter) : String :=
  if p.serializationName.isEmpty then p.name else p.serializationName

/-- The error type of the responses with a status code or pattern. -/
structure ErrorMapping where
  code : String
  type : TypeRef
deriving Repr

/-- How a response is divided into pages. -/
structure Paging where
  itemName : String := ""
  nextLinkName : String := ""
  operationName : String := ""
deriving DecidableEq, Repr

structure Method where
  id : MethodId
  name : String
  kind : MethodKind
  returnType : Option TypeExpr := none
  parameters : List Parameter := []
  access : Access := .everywhere
  documentation : Documentation := {}
  /-- The HTTP method of a request, in capitals. -/
  http : Option String := none
  errorMappings : List ErrorMapping := []
  acceptedResponseTypes : List String := []
  bodyContentType : String := ""
  paging : Option Paging := none
  representedMethod : Option MethodId := none
  representedIndexer : Option IndexerId := none
  accessedProperty : Option PropertyId := none
  baseUrl : String := ""
  serializerModules : List String := []
  deserializerModules : List String := []
  parent : Option ClassId := none
deriving Repr

namespace Method

def isCommandBuilder (m : Method) : Bool := m.kind == .commandBuilder

/-- The name that commands go by: a command builder's without the words around it. -/
def simpleName (m : Method) : String :=
  if m.isCommandBuilder then Text.dropBack (Text.dropFront m.name "Build") "Command" else m.name

/-- The first parameter of a kind. -/
def parameterOfKind (m : Method) (kind : ParameterKind) : Option Parameter :=
  m.parameters.find? (·.kind == kind)

/-- The parameters of some kinds, in the order of declaration. -/
def parametersOfKinds (m : Method) (kinds : List ParameterKind) : List Parameter :=
  m.parameters.filter (kinds.contains ·.kind)

/-- Whether a method sends a request or prepares one. -/
def isRequest (m : Method) : Bool := m.kind == .requestGenerator || m.kind == .requestExecutor

/-- The parameters a target declares. Requests reach path, query and header values through the path
parameters and the request configuration, so theirs are left out. -/
def signature (m : Method) : List Parameter :=
  if m.isRequest then
    m.parameters.filter fun p => !([.path, .queryParameter, .headers].contains p.kind)
  else m.parameters

def returnRef? (m : Method) : Option TypeRef := m.returnType.bind TypeExpr.ref?

end Method

/-- Access to the items of a request builder by key. -/
structure Indexer where
  id : IndexerId
  name : String
  indexType : TypeRef
  returnType : Option TypeRef
  serializationName : String := ""
  parameterName : String := ""
  documentation : Documentation := {}
  parent : Option ClassId := none
deriving Repr

/-! ### Definitions -/

structure DiscriminatorMapping where
  key : String
  type : Option TypeRef
deriving Repr

/-- Selects a concrete class by a value of the data. -/
structure Discriminator where
  propertyName : String := ""
  mappings : List DiscriminatorMapping := []
deriving Repr

/-- Whether there is nothing to select by. -/
def Discriminator.isTrivial (d : Discriminator) : Bool := d.propertyName.isEmpty || d.mappings.isEmpty

structure ClassDef where
  id : ClassId
  name : String
  kind : ClassKind := .model
  home : Option NamespaceRef
  inherits : Option TypeRef := none
  implements : List TypeRef := []
  properties : List Property := []
  methods : List Method := []
  indexers : List Indexer := []
  discriminator : Discriminator := {}
  documentation : Documentation := {}
deriving Repr

structure EnumOption where
  name : String
  serializationName : String := ""
  documentation : Documentation := {}
deriving DecidableEq, Repr

def EnumOption.wireName (o : EnumOption) : String :=
  if o.serializationName.isEmpty then o.name else o.serializationName

structure Enum where
  id : EnumId
  name : String
  home : Option NamespaceRef
  options : List EnumOption := []
  /-- Whether values combine, so that each option is a bit. -/
  flags : Bool := false
  documentation : Documentation := {}
deriving Repr

/-- The option with a name or a serialized form. -/
def Enum.option? (e : Enum) (value : String) : Option EnumOption :=
  e.options.find? fun o => o.name == value || o.serializationName == value

/-- A name inside a namespace. The namespace without a name adds nothing. -/
def qualified (home : Option NamespaceRef) (name : String) : String :=
  match home with
  | some ns => if ns.name.isEmpty then name else ns.name ++ "." ++ name
  | none => name

namespace ClassDef

def qualifiedName (c : ClassDef) : String := qualified c.home c.name

/-- The first property of a kind. -/
def propertyOfKind (c : ClassDef) (kind : PropertyKind) : Option Property :=
  c.properties.find? (·.kind == kind)

/-- The properties of a kind, ordered by name. -/
def propertiesOfKind (c : ClassDef) (kind : PropertyKind) : List Property :=
  (c.properties.filter (·.kind == kind)).mergeSort fun p q => decide (p.name ≤ q.name)

/-- The methods of a kind, ordered by name. -/
def methodsOfKind (c : ClassDef) (kind : MethodKind) : List Method :=
  (c.methods.filter (·.kind == kind)).mergeSort fun m n => decide (m.name ≤ n.name)

/-- The command builders, in the order of declaration. -/
def commandBuilders (c : ClassDef) : List Method := c.methods.filter Method.isCommandBuilder

end ClassDef

def Enum.qualifiedName (e : Enum) : String := qualified e.home e.name

/-- A declared class or enum. -/
inductive Definition where
  | ofClass (c : ClassDef)
  | ofEnum (e : Enum)
deriving Repr

namespace Definition

def id : Definition → DefinitionId
  | .ofClass c => .ofClass c.id
  | .ofEnum e => .ofEnum e.id

def name : Definition → String
  | .ofClass c => c.name
  | .ofEnum e => e.name

def home : Definition → Option NamespaceRef
  | .ofClass c => c.home
  | .ofEnum e => e.home

def qualifiedName (d : Definition) : String := qualified d.home d.name

end Definition

/-- A namespace with the elements and namespaces it declares. -/
structure Namespace where
  id : NamespaceId
  name : String
  /-- The namespace that this one was made in, and none for a root. -/
  parent : Option NamespaceId := none
  enums : List EnumId := []
  classes : List ClassId := []
  children : List Namespace := []
deriving Repr

namespace Namespace

def ref (n : Namespace) : NamespaceRef := ⟨n.id, n.name⟩

/-- The last part of the name. -/
def segment (n : Namespace) : String := (Text.splitLast '.' n.name).2

end Namespace

mutual

/-- A namespace and all below it, depth first. -/
def Namespace.all : Namespace → List Namespace
  | ⟨id, name, parent, enums, classes, children⟩ =>
    ⟨id, name, parent, enums, classes, children⟩ :: Namespace.allOf children

def Namespace.allOf : List Namespace → List Namespace
  | [] => []
  | n :: ns => n.all ++ Namespace.allOf ns

end

end ClientForge.Graph
