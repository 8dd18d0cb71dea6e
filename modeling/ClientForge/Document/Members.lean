import ClientForge.Document.Names
import ClientForge.Text.Casing

/-!
# Members of a class

The entries of a class, resolved into its properties, indexers and methods. Methods may refer to members of
their class that come later, so those links are made once all members are there.
-/

namespace ClientForge.Document

open ClientForge.Graph

/-! ### Kinds -/

/-- The kind whose name reads the same as a text, apart from case and the spelling of word breaks. -/
def kindNamed? {K : Type} (known : List K) (name : K → String) (text : String) : Option K :=
  known.find? fun k => Text.Casing.snake.apply (name k) == Text.Casing.snake.apply (Text.trim text)

def kindNamed {K : Type} (element : String) (known : List K) (name : K → String) (text : String) :
    Except Failure K :=
  match kindNamed? known name text with
  | some k => .ok k
  | none => .error (.cause (.unknownKind element text))

def classKind (text : String) : Except Failure ClassKind :=
  if text.isEmpty then .ok .model else kindNamed "class" ClassKind.known ClassKind.name text

def propertyKind (text : String) : Except Failure PropertyKind :=
  if text.isEmpty then .ok .custom else kindNamed "property" PropertyKind.known PropertyKind.name text

def parameterKind (text : String) : Except Failure ParameterKind :=
  kindNamed "parameter" ParameterKind.known ParameterKind.name text

def methodKind (text : String) : Except Failure MethodKind :=
  kindNamed "method" MethodKind.known MethodKind.name text

def accessLevel (text : String) : Except Failure Access :=
  match Text.lower text with
  | "" | "public" => .ok .everywhere
  | "protected" => .ok .inHeirs
  | "private" => .ok .inClass
  | _ => .error (.cause (.unknownAccess text))

def TextEntry.documentation (t : TextEntry) : Documentation := ⟨t.description, t.link, t.label⟩

/-! ### Members -/

variable (names : Names) (place : NamespaceRef)

def property (owner : ClassId) (e : PropertyEntry) : Except Failure Property :=
  inContext ("property " ++ e.name) do
    let kind ← propertyKind e.kind
    let access ← accessLevel e.access
    let type ← names.type place e.type
    pure {
      name := e.name
      serializationName := e.serializationName
      kind
      type := some type
      defaultValue := e.defaultValue
      readOnly := e.readOnly
      access
      inBase := e.inBase
      documentation := e.text.documentation
      parent := some owner }

def indexer (id : IndexerId) (e : IndexerEntry) : Except Failure Indexer :=
  inContext ("indexer " ++ e.name) do
    let indexType ← names.ref place e.indexType
    let returnType ← names.ref place e.returnType
    pure {
      id
      name := e.name
      indexType
      returnType := some returnType
      serializationName := e.serializationName
      parameterName := e.parameterName
      documentation := e.text.documentation
      parent := some id.owner }

def parameter (id : ParameterId) (e : ParameterEntry) : Except Failure Parameter :=
  inContext ("parameter " ++ e.name) do
    let kind ← parameterKind e.kind
    let type ← names.type place e.type
    pure {
      id
      name := e.name
      serializationName := e.serializationName
      kind
      type
      optional := e.optional
      defaultValue := e.defaultValue
      possibleValues := e.possibleValues
      documentation := e.text.documentation }

def errorMapping (e : ErrorMappingEntry) : Except Failure ErrorMapping :=
  inContext ("error mapping " ++ e.code) do
    pure ⟨e.code, ← names.ref place e.type⟩

/-- A method, still without links to other members. -/
def unlinkedMethod (id : MethodId) (e : MethodEntry) : Except Failure Method :=
  inContext ("method " ++ e.name) do
    let kind ← methodKind e.kind
    let access ← accessLevel e.access
    let returnType ← inContext "return type" (e.returnType.mapM (names.type place))
    let errorMappings ← e.errorMappings.mapM (errorMapping names place)
    let parameters ← e.parameters.zipIdx.mapM fun (p, i) => parameter names place ⟨id, i⟩ p
    pure {
      id
      name := e.name
      kind
      returnType
      parameters
      access
      documentation := e.text.documentation
      http := if e.http.isEmpty then none else some (Text.upper e.http)
      errorMappings
      acceptedResponseTypes := e.acceptedResponseTypes
      bodyContentType := e.bodyContentType
      paging := e.paging.map fun p => ⟨p.itemName, p.nextLinkName, p.operationName⟩
      baseUrl := e.baseUrl
      serializerModules := e.serializerModules
      deserializerModules := e.deserializerModules
      parent := some id.owner }

/-! ### Links -/

/-- The place in a list of what has a name, if a name is given. -/
def linked (role name : String) (found : Option Nat) : Except Failure (Option Nat) :=
  if name.isEmpty then .ok none
  else match found with
    | some i => .ok (some i)
    | none => .error (.cause (.missingMember role name))

/-- The place of the last element that a test accepts. -/
def lastIdx? {α : Type} (p : α → Bool) (xs : List α) : Option Nat :=
  (xs.zipIdx.reverse.find? fun (x, _) => p x).map (·.2)

/-- Links a method to the members of its class that it stands for. A method stands for the first with the
name that is no command builder; of indexers and properties the last one counts. -/
def link (c : ClassDef) (m : Method) (e : MethodEntry) : Except Failure Method :=
  inContext ("method " ++ e.name) do
    let method ← linked "original method" e.representedMethod
      (c.methods.findIdx? fun o => o.name == e.representedMethod && !o.isCommandBuilder)
    let indexer ← linked "original indexer" e.representedIndexer
      (lastIdx? (·.name == e.representedIndexer) c.indexers)
    let property ← linked "accessed property" e.accessedProperty
      (lastIdx? (·.name == e.accessedProperty) c.properties)
    pure { m with
      representedMethod := method.map (⟨c.id, ·⟩)
      representedIndexer := indexer.map (⟨c.id, ·⟩)
      accessedProperty := property.map (⟨c.id, ·⟩) }

/-! ### Classes -/

def discriminatorMapping (e : MappingEntry) : Except Failure DiscriminatorMapping :=
  inContext ("discriminator mapping " ++ Text.shown e.key) do
    pure ⟨e.key, some (← names.ref place e.type)⟩

/-- How a class is selected. Without an entry there is nothing to select by. -/
def discriminator : Option DiscriminatorEntry → Except Failure Discriminator
  | some e => do pure ⟨e.property, ← e.mappings.mapM (discriminatorMapping names place)⟩
  | none => pure {}

/-- The class of an entry, with all its members. -/
def classOf (id : ClassId) (e : ClassEntry) : Except Failure ClassDef :=
  inContext ("class " ++ qualified (some place) e.name) do
    let kind ← classKind e.kind
    let inherits ← inContext "inherits" (e.inherits.mapM (names.ref place))
    let implements ← inContext "implements" (e.implements.mapM (names.ref place))
    let discriminator ← discriminator names place e.discriminator
    let properties ← e.properties.mapM (property names place id)
    let indexers ← e.indexers.zipIdx.mapM fun (x, i) => indexer names place ⟨id, i⟩ x
    let methods ← e.methods.zipIdx.mapM fun (m, i) => unlinkedMethod names place ⟨id, i⟩ m
    let c : ClassDef := {
      id
      name := e.name
      kind
      home := some place
      inherits
      implements
      properties
      methods
      indexers
      discriminator
      documentation := e.text.documentation }
    let methods ← (methods.zip e.methods).mapM fun (m, e) => link c m e
    pure { c with methods }

end ClientForge.Document
