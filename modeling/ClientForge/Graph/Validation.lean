import ClientForge.Graph.Basic
import ClientForge.Graph.Rule

/-!
# Validation

`violations` lists every structural rule that a graph breaks, class by class: first the indexers, then the
discriminator, the properties and the methods.
-/

namespace ClientForge.Graph

/-- The kinds of class that may declare a kind of property, unless any may. -/
def propertyPlaces : PropertyKind → Option (List ClassKind)
  | .queryParameter => some [.queryParameters]
  | .pathParameters | .urlTemplate | .requestAdapter => some [.requestBuilder]
  | .headers | .options | .queryParameters => some [.requestConfiguration]
  | _ => none

/-- The kinds of class that may declare a kind of method, unless any may. -/
def methodPlaces : MethodKind → Option (List ClassKind)
  | .requestGenerator | .requestExecutor | .clientConstructor | .rawUrlConstructor
  | .requestBuilderWithParameters | .commandBuilder | .indexerBackwardCompatibility =>
    some [.requestBuilder]
  | .serializer | .deserializer | .factory => some [.model, .errorDefinition]
  | .queryParametersMapper => some [.queryParameters]
  | _ => none

/-- The one indexer of a class, if it has any. -/
def indexerOf (g : Graph) (c : ClassDef) : Except Violation (Option Indexer) :=
  match g.declaredIndexers c with
  | [] => .ok none
  | [x] => .ok (some x)
  | _ => .error ⟨.multipleIndexers, c.qualifiedName⟩

/-- The request generators of a class for an HTTP method. -/
def generatorsFor (c : ClassDef) (http : String) : List Method :=
  c.methods.filter fun m => m.kind == .requestGenerator && m.http == some http

/-- The generator that prepares the request of a method: the only one in its class with the same HTTP
method. -/
def generatorOf (g : Graph) (m : Method) : Except Violation Method :=
  match g.parentOf m with
  | none => .error ⟨.missingParent, g.methodName m⟩
  | some c =>
    match m.http with
    | none => .error ⟨.missingHttpMethod m.kind, g.methodName m⟩
    | some http =>
      match generatorsFor c http with
      | [] => .error ⟨.missingGenerator http, g.methodName m⟩
      | [generator] => .ok generator
      | _ => .error ⟨.duplicateGenerator http, g.methodName m⟩

/-- Whether a type refers to a class that a namespace lists. -/
def isListedClass (g : Graph) (t : Option TypeRef) : Bool :=
  match t.bind g.classOf with
  | some c => g.allClasses.any (·.id == c.id)
  | none => false

/-- Mappings that repeat a key, or whose target is no class of the graph. -/
def mappingViolations (g : Graph) (element : String) :
    (seen : List String) → List DiscriminatorMapping → List Violation
  | _, [] => []
  | seen, m :: ms =>
    (if seen.contains m.key then [⟨.duplicateMapping m.key, element⟩] else []) ++
      (if g.isListedClass m.type then []
        else [⟨.foreignMapping m.key ((m.type.map g.refText).getD "<nil>"), element⟩]) ++
      g.mappingViolations element (m.key :: seen) ms

def propertyViolations (g : Graph) (c : ClassDef) (p : Property) : List Violation :=
  match propertyPlaces p.kind with
  | none => []
  | some places =>
    if places.contains c.kind then [] else [⟨.misplacedProperty p.kind c.kind places, g.propertyName p⟩]

/-- How many sources a command builder names. Of methods only a client constructor counts. -/
def commandSources (g : Graph) (m : Method) : Nat :=
  (if m.representedIndexer.isSome then 1 else 0) + (if m.accessedProperty.isSome then 1 else 0) +
    (if (g.representedMethod m).any (·.kind == .clientConstructor) then 1 else 0)

/-- What the kind of a method asks of it. -/
def kindViolations (g : Graph) (element : String) (m : Method) : List Violation :=
  match m.kind with
  | .requestGenerator => if m.http.isNone then [⟨.missingHttpMethod m.kind, element⟩] else []
  | .requestExecutor =>
    if m.http.isNone then [⟨.missingHttpMethod m.kind, element⟩]
    else match g.generatorOf m with
      | .ok _ => []
      | .error v => [v]
  | .commandBuilder => if g.commandSources m > 1 then [⟨.ambiguousCommandSource, element⟩] else []
  | .queryParametersMapper =>
    if (m.parameterOfKind .queryParametersMapper).isNone then [⟨.mapperWithoutParameter, element⟩] else []
  | _ => []

def methodViolations (g : Graph) (c : ClassDef) (m : Method) : List Violation :=
  let element := c.qualifiedName ++ "." ++ m.name
  (if m.parent == some c.id then [] else [⟨.foreignParent, element⟩]) ++
    (if m.returnType.isNone && !m.kind.isConstructor then [⟨.missingReturnType m.kind, element⟩] else []) ++
    (match methodPlaces m.kind with
      | none => []
      | some places =>
        if places.contains c.kind then [] else [⟨.misplacedMethod m.kind c.kind places, element⟩]) ++
    g.kindViolations element m

def classViolations (g : Graph) (c : ClassDef) : List Violation :=
  (match g.indexerOf c with
    | .ok _ => []
    | .error v => [v]) ++
    g.mappingViolations c.qualifiedName [] c.discriminator.mappings ++
    c.properties.flatMap (g.propertyViolations c) ++
    c.methods.flatMap (g.methodViolations c)

/-- Every rule that the graph breaks. -/
def violations (g : Graph) : List Violation := g.allClasses.flatMap g.classViolations

end ClientForge.Graph
