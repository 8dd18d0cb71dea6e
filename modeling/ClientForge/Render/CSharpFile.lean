import ClientForge.Render.CSharpCommand
import ClientForge.Render.Page

/-!
# C# files

A file declares one enum or one partial class inside its namespace, below the imports that it turned out to
need.
-/

namespace ClientForge.Render.CSharp

open ClientForge.Graph ClientForge.Plan ClientForge.Convention

/-! ### Enums -/

/-- The value of an option whose enum has a bit for each, as a signed number of 64 bits. -/
def flagValue (place : Nat) : Int := (1#64 <<< place).toInt

def enumOption (p : Policy) (flags : Bool) (option : EnumOption × Nat) : Script Unit := do
  let (o, place) := option
  lines (comment p o.documentation)
  let wire := Text.quoted o.wireName
  let name := p.identifier .pascal o.name
  line s!"[EnumMember(Value = {wire})]"
  line (if flags then s!"{name} = {flagValue place}," else s!"{name},")

def enumScript (c : Context) (e : Enum) : Script Unit := do
  let p := c.policy
  need "System.Runtime.Serialization"
  lines (comment p e.documentation)
  only e.flags do
    need "System"
    line "[Flags]"
  block s!"public enum {p.typeName e.name} \x7b" "\x7d" (each e.options.zipIdx (enumOption p e.flags))

/-! ### Members -/

/-- The path parameters and the adapter of a class that has both. -/
def builderMembers (c : ClassDef) : Option (Property × Property) := do
  let paths ← c.propertyOfKind .pathParameters
  let adapter ← c.propertyOfKind .requestAdapter
  pure (paths, adapter)

def propertyScript (c : Context) (q : Property) : Script Unit :=
  if q.inBase then pure ()
  else do
    let p := c.policy
    let type ← (propertyType c q).within ("property " ++ q.name)
    lines (comment p q.documentation)
    let declared := p.access q.access ++ " " ++ type ++ " " ++ p.memberName q.name
    let members := if q.kind == .requestBuilder then (q.parent.bind c.graph.class?).bind builderMembers else none
    match members with
    | some (paths, adapter) =>
      block s!"{declared} \x7b" "\x7d" <|
        line s!"get => new {type}({p.memberName paths.name}, {p.memberName adapter.name});"
    | none =>
      line (if q.readOnly then s!"{declared} \x7b get; private set; \x7d" else s!"{declared} \x7b get; set; \x7d")

def indexerScript (c : Context) (x : Indexer) : Script Unit :=
  let p := c.policy
  match (x.parent.bind c.graph.class?).bind builderMembers, c.graph.indexerTarget x with
  | some (paths, adapter), some _ => do
    let result ← typeText c (x.returnType.map .scalar)
    let index ← refText c x.indexType
    let name := if x.parameterName.isEmpty then "position" else p.identifier .camel x.parameterName
    let key := Text.quoted (if x.serializationName.isEmpty then name else x.serializationName)
    lines (comment p x.documentation)
    block s!"public {result} this[{index} {name}] \x7b" "\x7d" <|
      block "get \x7b" "\x7d" do
        line s!"var {pathParams} = new Dictionary<string, object>({p.memberName paths.name});"
        line s!"{pathParams}.Add({key}, {name});"
        line s!"return new {result}({pathParams}, {p.memberName adapter.name});"
  | _, _ => pure ()

/-! ### Methods -/

/-- The declaration of a parameter. -/
def parameterText (s : Site) (q : Parameter) : Script String := do
  let type ← parameterType s.context q
  let name := parameter s q
  pure <|
    if !q.optional then type ++ " " ++ name
    else if q.kind != .cancellation && !Text.endsWith type "?" then type ++ "? " ++ name ++ " = default"
    else type ++ " " ++ name ++ " = default"

/-- Whether a command builder gives lists of commands and not a single one. -/
def givesItems (g : Graph) (m : Method) : Bool :=
  (g.representedIndexer m).isSome || m.returnRef?.any TypeRef.isCollection

def signature (s : Site) : Script String := do
  let p := s.policy
  let m := s.method
  let parameters ← collect m.signature (parameterText s)
  let arguments := commaList parameters
  let access := p.access m.access
  let name := p.memberName m.name
  let host := p.typeName s.host.name
  let modifier := if (s.graph.baseClass s.host).isSome then "override" else "virtual"
  match m.kind with
  | .constructor | .clientConstructor | .rawUrlConstructor => pure s!"{access} {host}({arguments})"
  | .factory => pure s!"{access} static {host} {p.memberName factoryMethod}({arguments})"
  | .serializer => pure s!"{access} {modifier} void {name}({arguments})"
  | .deserializer =>
    pure s!"{access} {modifier} IDictionary<string, Action<IParseNode>> {name}({arguments})"
  | .commandBuilder => do
    needAll commandUsings
    pure <|
      if givesItems s.graph m then s!"{access} Tuple<List<Command>, List<Command>> {name}({arguments})"
      else s!"{access} Command {name}({arguments})"
  | .requestExecutor => do
    let result ← typeText s.context m.returnType
    let optional := if Text.endsWith result "?" then result else result ++ "?"
    pure <|
      if result == p.voidType then s!"{access} async Task {name}Async({arguments})"
      else s!"{access} async Task<{optional}> {name}Async({arguments})"
  | _ => do
    let result ← typeText s.context m.returnType
    pure s!"{access} {result} {name}({arguments})"

/-- Factories refuse to work without a node. -/
def nodeCheck (s : Site) : Script Unit :=
  match s.method.kind, s.method.parameterOfKind .parseNode with
  | .factory, some node => do
    let name := parameter s node
    line s!"_ = {name} ?? throw new ArgumentNullException(nameof({name}));"
  | _, _ => pure ()

def methodScript (commands : Bool) (c : Context) (m : Method) : Script Unit :=
  atSite c m fun s => do
    let context := "method " ++ m.name
    let declared ← (signature s).within context
    blank
    lines (comment c.policy m.documentation)
    block s!"{declared} \x7b" "\x7d" do
      nodeCheck s
      (operations s commands {} s.body.operations).within context
      only (m.kind == .requestGenerator) (line s!"return {requestInfo};")

/-! ### Classes -/

/-- What a class extends or implements by its kind. -/
def runtimeBases (c : ClassDef) : Script (List String) := do
  let error := if c.inherits.isNone && c.kind == .errorDefinition then ["ApiException"] else []
  if c.kind == .model || c.kind == .errorDefinition then
    need serialization
    let declares (kind : PropertyKind) : Bool := c.inherits.isNone && (c.propertyOfKind kind).isSome
    only (declares .backingStore) (need store)
    pure (error ++ (if declares .additionalData then ["IAdditionalDataHolder"] else []) ++
      (if declares .backingStore then ["IBackedModel"] else []) ++ ["IParsable"])
  else pure error

def classScript (commands : Bool) (c : Context) (cls : ClassDef) : Script Unit := do
  let p := c.policy
  need abstractions
  needAll clientUsings
  let base ← collect cls.inherits.toList (refText c)
  let runtime ← runtimeBases cls
  let implemented ← collect cls.implements (refText c)
  let bases := base ++ runtime ++ implemented
  let heirs := if bases.isEmpty then "" else " : " ++ commaList bases
  lines (comment p cls.documentation)
  block s!"public partial class {p.typeName cls.name}{heirs} \x7b" "\x7d" do
    each cls.properties (propertyScript c)
    each (c.graph.declaredIndexers cls) (indexerScript c)
    each (cls.methods.filter (isEmitted commands)) (methodScript commands c)

/-! ### Files -/

/-- The imports of a page in a namespace, in order. -/
def usings (p : Policy) (place : Option NamespaceRef) (page : Page) : List String :=
  let foreign := page.scope.imports.filter fun n => some n.id != place.map (·.id)
  let spaces := foreign.map fun n => namespaceName p (some n)
  (page.needs ++ spaces).eraseDups.mergeSort fun a b => decide (a ≤ b)

/-- The text of the file for a page in a namespace. -/
def fileText (p : Policy) (place : Option NamespaceRef) (page : Page) : String :=
  String.join <|
    ["// <auto-generated/>\n"] ++ (usings p place page).map (fun n => "using " ++ n ++ ";\n") ++
      ["namespace " ++ namespaceName p place ++ " \x7b\n", page.writer.text, "\x7d\n"]

end ClientForge.Render.CSharp
