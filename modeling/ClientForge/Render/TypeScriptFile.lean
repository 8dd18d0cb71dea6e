import ClientForge.Render.Layout
import ClientForge.Render.Page
import ClientForge.Render.TypeScriptBody

/-!
# TypeScript files

A file is a module that exports one enum or one class. It imports every element it refers to from the module
of that element, under the name it uses.
-/

namespace ClientForge.Render.TypeScript

open ClientForge.Graph ClientForge.Plan ClientForge.Convention

/-- The module of the runtime. -/
def runtimeModule : String := "@microsoft/kiota-abstractions"

/-! ### Comments -/

/-- The words for a link. -/
def linkLabel (d : Documentation) : String := if d.label.isEmpty then "Find more info here" else d.label

/-- What a comment says. -/
def commentText (d : Documentation) : String :=
  if d.link.isEmpty then d.description
  else Text.trim (d.description ++ "\n@see \x7b@link " ++ d.link ++ "|" ++ linkLabel d ++ "\x7d")

/-- Documentation as a comment. -/
def comment (p : Policy) (d : Documentation) : List String :=
  let inside := p.docLines (commentText d)
  if inside.isEmpty then [] else ["/**"] ++ inside ++ [" */"]

/-! ### Enums -/

def enumScript (c : Context) (e : Enum) : Script Unit := do
  let p := c.policy
  lines (comment p e.documentation)
  block s!"export enum {p.typeName e.name} \x7b" "\x7d" <|
    each e.options fun o => do
      lines (comment p o.documentation)
      let wire := Text.quoted o.wireName
      line s!"{p.identifier .pascal o.name} = {wire},"

/-! ### Members -/

/-- Whether every constructor of a request builder assigns a property. -/
def isAssigned (g : Graph) (q : Property) : Bool :=
  [.pathParameters, .requestAdapter, .urlTemplate].contains q.kind &&
    (q.parent.bind g.class?).any (·.kind == .requestBuilder)

def propertyScript (c : Context) (q : Property) : Script Unit :=
  if q.inBase then pure ()
  else do
    let p := c.policy
    let type ← (propertyType c q).within ("property " ++ q.name)
    lines (comment p q.documentation)
    let modifiers := p.access q.access ++ (if q.readOnly then " readonly" else "")
    let mark := if isAssigned c.graph q then "!" else "?"
    line s!"{modifiers} {p.memberName q.name}{mark}: {type};"

/-! ### Methods -/

/-- The parameters that are declared. Requests cannot be cancelled. -/
def declaredParameters (m : Method) : List Parameter := m.signature.filter (·.kind != .cancellation)

/-- The declaration of a parameter. -/
def parameterText (s : Site) (q : Parameter) : Script String := do
  let type ← parameterType s.context q
  let mark := if q.optional then "?" else ""
  pure s!"{parameter s q}{mark}: {type}"

def signature (s : Site) : Script String := do
  let p := s.policy
  let m := s.method
  let parameters ← collect (declaredParameters m) (parameterText s)
  let arguments := commaList parameters
  let access := p.access m.access
  let name := p.memberName m.name
  let host := p.typeName s.host.name
  let accessed := s.graph.accessedProperty m
  let member := (accessed.map fun q => p.memberName q.name).getD ""
  match m.kind with
  | .constructor | .clientConstructor => pure s!"{access} constructor({arguments})"
  | .rawUrlConstructor => pure s!"{access} static withUrl({arguments}): {host}"
  | .getter => do
    let type ← typeOf s.context (accessed.bind (·.type))
    pure s!"{access} get {member}Value(): {type} | undefined"
  | .setter => pure s!"{access} set {member}Value({arguments})"
  | .factory => pure s!"{access} static {p.memberName factoryMethod}({arguments}): {host}"
  | kind => do
    let result ← typeOf s.context m.returnType
    match kind with
    | .requestExecutor =>
      let promised := if result == p.voidType then result else result ++ " | undefined"
      pure s!"{access} async {name}({arguments}): Promise<{promised}>"
    | .serializer => pure s!"{access} {name}({arguments}): void"
    | .deserializer => do
      let node ← runtime "ParseNode"
      pure s!"{access} {name}({arguments}): Record<string, (node: {node}) => void>"
    | _ => pure s!"{access} {name}({arguments}): {result}"

/-- What comes before the operations of a body. A class has one constructor only, so construction from a raw
URL is a static method. -/
def prologue (s : Site) : Script Unit :=
  let host := s.policy.typeName s.host.name
  match s.method.kind with
  | .rawUrlConstructor => line s!"const builder = Object.create({host}.prototype) as {host};"
  | .constructor | .clientConstructor => only s.host.inherits.isSome (line "super();")
  | _ => pure ()

/-- What comes after the operations of a body. -/
def epilogue (s : Site) : Script Unit :=
  match s.method.kind with
  | .requestGenerator => line s!"return {requestInfo};"
  | .rawUrlConstructor => line "return builder;"
  | _ => pure ()

def methodScript (c : Context) (m : Method) : Script Unit :=
  atSite c m fun s => do
    let context := "method " ++ m.name
    let declared ← (signature s).within context
    blank
    lines (comment c.policy m.documentation)
    block s!"{declared} \x7b" "\x7d" do
      prologue s
      (each s.body.operations (operation s)).within context
      epilogue s

/-! ### Classes -/

def classScript (c : Context) (cls : ClassDef) : Script Unit := do
  let p := c.policy
  let base ← collect cls.inherits.toList (typeOfRef c)
  let implemented ← collect cls.implements (typeOfRef c)
  let parsable ←
    if cls.kind == .model || cls.kind == .errorDefinition then do
      let name ← runtime "Parsable"
      pure [name]
    else pure []
  let extended := String.join (base.map (" extends " ++ ·))
  let interfaces := parsable ++ implemented
  let heirs := if interfaces.isEmpty then "" else " implements " ++ commaList interfaces
  lines (comment p cls.documentation)
  block s!"export class {p.typeName cls.name}{extended}{heirs} \x7b" "\x7d" do
    each cls.properties (propertyScript c)
    each (cls.methods.filter (isEmitted false)) (methodScript c)

/-! ### Files -/

/-- An import of names from a module. -/
def importText (module : String) (names : List String) : String :=
  let ordered := commaList (names.mergeSort fun a b => decide (a ≤ b))
  s!"import \x7b {ordered} \x7d from {Text.quoted module};\n"

/-- The module of an element, as the file at a path refers to it. -/
def moduleOf (p : Policy) (root : NamespaceRef) (path : String) (d : Definition) : String :=
  relative (Text.Path.directory path) (Text.dropBack (unitPath p root d) p.extension)

/-- The import of a single element, under the name that the file uses for it. -/
def importedName (p : Policy) (r : Reference) : String :=
  let name := p.typeName r.target.name
  if r.spelling == name then name else name ++ " as " ++ r.spelling

/-- The imports of a page from other files, a line for each module. -/
def elementImports (p : Policy) (root : NamespaceRef) (path : String) (page : Page) : List String :=
  let imported := page.references.map fun r => (moduleOf p root path r.target, importedName p r)
  let modules := (imported.map (·.1)).eraseDups.mergeSort fun a b => decide (a ≤ b)
  modules.map fun module => importText module ((imported.filter (·.1 == module)).map (·.2))

/-- The text of the file at a path. -/
def fileText (p : Policy) (root : NamespaceRef) (path : String) (page : Page) : String :=
  let runtimeImport := if page.needs.isEmpty then [] else [importText runtimeModule page.needs]
  let imports := runtimeImport ++ elementImports p root path page
  String.join (imports ++ (if imports.isEmpty then [] else ["\n"]) ++ [page.writer.text])

end ClientForge.Render.TypeScript
