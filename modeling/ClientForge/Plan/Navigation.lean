import ClientForge.Graph.Validation
import ClientForge.Plan.Construction

/-!
# Navigation and access

Methods that lead from one request builder to another, accessors of properties, and the mapping of query
parameters to their names on the wire.
-/

namespace ClientForge.Plan

open ClientForge.Graph

def builderOperation (cls : ClassDef) (target : TypeRef) (extra : List PathEntry) : Operation :=
  .constructBuilder target (cls.propertyOfKind .pathParameters) (cls.propertyOfKind .requestAdapter) extra

def builderWithParameters (c : Context) (cls : ClassDef) (m : Method) : Except Failure Body :=
  match m.returnRef? with
  | none => structural .methodWithoutBuilder (c.graph.methodName m)
  | some t =>
    if (c.graph.classOf t).isNone then structural .methodWithoutBuilder (c.graph.methodName m)
    else .ok { method := m, operations := [builderOperation cls t (pathEntries m)] }

/-- The indexer that a method stands for: its own, or the one of its class. -/
def indexerFor (g : Graph) (cls : ClassDef) (m : Method) : Except Failure (Option Indexer) :=
  match g.representedIndexer m with
  | some x => .ok (some x)
  | none => ofViolation (g.indexerOf cls)

def indexerMethod (c : Context) (cls : ClassDef) (m : Method) : Except Failure Body := do
  let name := c.graph.methodName m
  let x ← indexerFor c.graph cls m
  match x.bind fun x => x.returnType.map (x, ·) with
  | none => structural .indexerWithoutBuilder name
  | some (x, target) =>
    if (c.graph.classOf target).isNone then structural .indexerWithoutBuilder name
    else match m.parameterOfKind .path with
      | none => structural .missingIndexParameter name
      | some index =>
        let key := if x.serializationName.isEmpty then index.wireName else x.serializationName
        pure { method := m, operations := [builderOperation cls target [⟨key, index⟩]] }

/-- The property that an accessor is for. -/
def accessed (g : Graph) (m : Method) : Except Failure Property :=
  match g.accessedProperty m with
  | some p => .ok p
  | none => structural (.missingAccessedProperty m.kind) (g.methodName m)

def backingStore (c : Context) (cls : ClassDef) : Option Property :=
  if c.options.usesBackingStore then cls.propertyOfKind .backingStore else none

def getter (c : Context) (cls : ClassDef) (m : Method) : Except Failure Body := do
  let p ← accessed c.graph m
  pure { method := m, operations := [.readProperty p (backingStore c cls) (Text.lowerFirst p.name)] }

def setter (c : Context) (cls : ClassDef) (m : Method) : Except Failure Body := do
  let p ← accessed c.graph m
  match (m.parameterOfKind .setterValue).or m.parameters.head? with
  | none => structural .missingSetterValue (c.graph.methodName m)
  | some value =>
    pure { method := m, operations := [.writeProperty p value (backingStore c cls) (Text.lowerFirst p.name)] }

/-- The query parameters whose name on the wire differs from their own. -/
def queryNameCases (cls : ClassDef) : List QueryNameCase :=
  (cls.properties.filter fun p =>
    p.kind == .queryParameter && !p.serializationName.isEmpty && p.serializationName != p.name).map
    fun p => ⟨p.name, p.serializationName⟩

def queryParametersMapper (c : Context) (cls : ClassDef) (m : Method) : Except Failure Body :=
  match m.parameterOfKind .queryParametersMapper with
  | none => structural .mapperWithoutInput (c.graph.methodName m)
  | some input => .ok { method := m, operations := [.mapQueryName input (queryNameCases cls)] }

end ClientForge.Plan
