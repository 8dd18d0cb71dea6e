import ClientForge.Plan.Context

/-!
# Construction

Constructors assign defaults first, then take over path parameters and the adapter; the constructor of a
client sets up the adapter as well. Factories choose the class to construct by a discriminator value.
-/

namespace ClientForge.Plan

open ClientForge.Graph

/-! ### Constructors -/

/-- Properties come by kind, the last kind first, and then by name. -/
def defaultsOrder (p q : Property) : Bool :=
  if p.kind.rank = q.kind.rank then decide (p.name ≤ q.name) else decide (q.kind.rank < p.kind.rank)

/-- The properties with a default, in the order in which they are assigned. -/
def defaultProperties (cls : ClassDef) : List Property :=
  (cls.properties.filter (!·.defaultValue.isEmpty)).mergeSort defaultsOrder

/-- Assigns the default of a property: an option of its enum, or else the text as it stands. -/
def defaultAssignment (g : Graph) (p : Property) : Operation :=
  match p.ref?.bind g.enumOf with
  | some e =>
    match e.option? p.defaultValue with
    | some o => .assignDefault p o.name (some e)
    | none => .assignDefault p p.defaultValue none
  | none => .assignDefault p p.defaultValue none

/-- The path parameters of a method by key. -/
def pathEntries (m : Method) : List PathEntry :=
  (m.parametersOfKinds [.path]).map fun p => ⟨p.wireName, p⟩

/-- How a request builder gets its path parameters. -/
def seedOperations (cls : ClassDef) (m : Method) : List Operation :=
  match cls.propertyOfKind .pathParameters with
  | none => []
  | some property =>
    if cls.kind != .requestBuilder then []
    else match m.kind with
      | .constructor =>
        let source := m.parameterOfKind .pathParameters
        let entries := pathEntries m
        if source.isSome || !entries.isEmpty then [.seedPathParameters property source entries] else []
      | .rawUrlConstructor =>
        ((m.parameterOfKind .rawUrl).map (.seedRawUrl property · rawUrlKey)).toList
      | _ => []

/-- How a constructor takes over the adapter. -/
def forwardOperations (cls : ClassDef) (m : Method) : List Operation :=
  match cls.propertyOfKind .requestAdapter, m.parameterOfKind .requestAdapter with
  | some property, some parameter => [.forwardParameter property parameter]
  | _, _ => []

/-- How a client sets up its adapter. -/
def adapterOperations (o : Options) (cls : ClassDef) (m : Method) (adapter : Property) : List Operation :=
  (if m.baseUrl.isEmpty then [] else [.setBaseUrl adapter m.baseUrl]) ++
    ((cls.propertyOfKind .pathParameters).map (.addBaseUrlParameter · adapter)).toList ++
    ((m.parameterOfKind .backingStore).map (.enableBackingStore adapter ·)).toList ++
    (if o.delaySeconds = 0 ∧ o.maxRetries = 0 then []
      else [.configureRetry adapter o.delaySeconds o.maxRetries]) ++
    (if o.maxRedirects = 0 then [] else [.configureRedirect adapter o.maxRedirects])

/-- What the constructor of a client does besides. -/
def clientOperations (o : Options) (cls : ClassDef) (m : Method) : List Operation :=
  let serializers := if m.serializerModules.isEmpty then o.serializers else m.serializerModules
  let deserializers := if m.deserializerModules.isEmpty then o.deserializers else m.deserializerModules
  serializers.map .registerSerializer ++ deserializers.map .registerDeserializer ++
    match cls.propertyOfKind .requestAdapter with
    | some adapter => adapterOperations o cls m adapter
    | none => []

def constructor (c : Context) (cls : ClassDef) (m : Method) : Except Failure Body :=
  .ok {
    method := m
    operations :=
      (defaultProperties cls).map (defaultAssignment c.graph) ++ seedOperations cls m ++
        forwardOperations cls m ++
        (if m.kind == .clientConstructor then clientOperations c.options cls m else []) }

/-! ### Factories -/

def discriminatorCase (g : Graph) (cls : ClassDef) (m : DiscriminatorMapping) :
    Except Failure DiscriminatorCase :=
  match m.type.bind g.classOf with
  | some target => .ok ⟨m.key, target⟩
  | none => structural (.mappingWithoutClass m.key) cls.qualifiedName

def factory (c : Context) (cls : ClassDef) (m : Method) : Except Failure Body :=
  match m.parameterOfKind .parseNode, cls.discriminator.isTrivial with
  | some parseNode, false => do
    let cases ← cls.discriminator.mappings.mapM (discriminatorCase c.graph cls)
    pure {
      method := m
      operations :=
        [.readDiscriminator parseNode cls.discriminator.propertyName, .discriminatorSwitch cases cls] }
  | _, _ => .ok { method := m, operations := [.construct cls] }

end ClientForge.Plan
