import ClientForge.Render.GoBody
import ClientForge.Render.Layout
import ClientForge.Render.Page

/-!
# Go files

A file declares one enum or one class as a type of the package for its namespace, with the functions that
belong to it, below the imports that it turned out to need.
-/

namespace ClientForge.Render.Go

open ClientForge.Graph ClientForge.Plan ClientForge.Convention

/-! ### Enums -/

/-- An option with the name of its constant. -/
structure Constant where
  name : String
  option : EnumOption

def Constant.wire (k : Constant) : String := Text.quoted k.option.wireName

def constants (p : Policy) (e : Enum) : List Constant :=
  e.options.map fun o => ⟨p.typeName e.name ++ p.identifier .pascal o.name, o⟩

/-- The declarations of constants. The first says how all get their values. -/
def constantScript (p : Policy) (e : Enum) (constant : Constant × Nat) : Script Unit := do
  let (k, place) := constant
  lines (comment p k.name k.option.documentation)
  let type := p.typeName e.name
  line (if place > 0 then k.name
    else if e.flags then s!"{k.name} {type} = 1 << iota"
    else s!"{k.name} {type} = iota")

def stringFunction (name : String) (flags : Bool) (options : String) : Script Unit :=
  block s!"func (i {name}) String() string \x7b" "\x7d" <|
    if !flags then line s!"return {options}[i]"
    else do
      need "strings"
      line "var values []string"
      line s!"options := {options}"
      block "for p := 0; p < len(options); p++ \x7b" "\x7d" do
        line s!"bit := {name}(1 << p)"
        block "if i&bit == bit \x7b" "\x7d" (line "values = append(values, options[p])")
      line "return strings.Join(values, \",\")"

/-- Chooses a constant by a text. -/
def parseSwitch (name input assign : String) (ks : List Constant) : Script Unit :=
  block s!"switch {input} \x7b" "\x7d" do
    each ks fun k => do
      line s!"case {k.wire}:"
      indented (line s!"result {assign} {k.name}")
    line "default:"
    let message := Text.quoted ("unknown " ++ name ++ " value: ")
    indented (line s!"return nil, errors.New({message} + {input})")

def parseFunction (name : String) (flags : Bool) (ks : List Constant) : Script Unit :=
  block s!"func Parse{name}(v string) (any, error) \x7b" "\x7d" do
    line s!"var result {name}"
    if flags then do
      need "strings"
      block "for _, str := range strings.Split(v, \",\") \x7b" "\x7d" (parseSwitch name "str" "|=" ks)
    else parseSwitch name "v" "=" ks
    line "return &result, nil"

def serializeFunction (name : String) : Script Unit :=
  block s!"func Serialize{name}(values []{name}) []string \x7b" "\x7d" do
    line "result := make([]string, len(values))"
    block "for i, v := range values \x7b" "\x7d" (line "result[i] = v.String()")
    line "return result"

def enumScript (c : Context) (e : Enum) : Script Unit := do
  let p := c.policy
  let name := p.typeName e.name
  let ks := constants p e
  lines (comment p name e.documentation)
  line s!"type {name} int"
  only (!ks.isEmpty) do
    blank
    block "const (" ")" (each ks.zipIdx (constantScript p e))
  let wires := commaList (ks.map Constant.wire)
  blank
  stringFunction name e.flags s!"[]string\x7b{wires}\x7d"
  need "errors"
  blank
  parseFunction name e.flags ks
  blank
  serializeFunction name

/-! ### Members -/

/-- The type of which a class is an extension. -/
def embedded (c : Context) (cls : ClassDef) : Script (Option String) :=
  match cls.inherits with
  | some base => do
    let type ← refType c base
    let bare := Text.dropFront type "*"
    pure (if bare.isEmpty then none else some bare)
  | none => do
    if cls.kind == .errorDefinition then
      let type ← runtime abstractionsPath "abstractions.ApiError"
      pure (some type)
    else pure none

/-- The properties that are fields. Navigation is by methods. -/
def fields (cls : ClassDef) : List Property :=
  cls.properties.filter fun q => !q.inBase && q.kind != .requestBuilder

def fieldText (c : Context) (q : Property) : Script String := do
  let type ← (fieldType c q).within ("property " ++ q.name)
  let declared := field c.policy q ++ " " ++ type
  pure <|
    if q.kind == .queryParameter then s!"{declared} \x60uriparametername:{Text.quoted q.wireName}\x60"
    else declared

/-- A method that leads to another request builder, with the path parameters of this one. -/
def navigation (c : Context) (cls : ClassDef) (q : Property) : Script Unit :=
  match q.ref?.bind fun t => (c.graph.classOf t).map (t, ·) with
  | none => throw (.cause (.navigationWithoutClass q.name))
  | some (t, target) => do
    let p := c.policy
    let type ← refType c t
    let name := p.memberName q.name
    blank
    lines (comment p name q.documentation)
    block s!"func (m *{p.typeName cls.name}) {name}() {type} \x7b" "\x7d" do
      let create ← constructorOf target
      let paths := ownField? p (cls.propertyOfKind .pathParameters)
      let adapter := ownField? p (cls.propertyOfKind .requestAdapter)
      line s!"return {create}({paths}, {adapter})"

/-! ### Methods -/

/-- The function of a method. -/
def functionName (s : Site) : Script String :=
  match s.method.kind with
  | .constructor => constructorOf s.host
  | .clientConstructor | .rawUrlConstructor => pure ("New" ++ s.policy.typeName s.host.name)
  | .factory => factoryOf (some s.host)
  | _ => pure (methodName s s.method)

/-- The parameters that are declared, besides the context of requests. -/
def declaredParameters (m : Method) : List Parameter := m.signature.filter (·.kind != .cancellation)

/-- The declaration of a parameter. -/
def parameterText (s : Site) (q : Parameter) : Script String := do
  let type ← parameterType s.context q
  let type := if q.kind == .setterValue then pointer type else type
  pure (parameter s q ++ " " ++ type)

/-- What a method gives back. -/
def resultType (s : Site) : Script String := do
  let m := s.method
  let type ← typeOf s.context m.returnType
  pure (if !type.isEmpty && (m.kind == .getter || m.kind == .requestExecutor) then pointer type else type)

/-- The header of a function, and the statement that ends it with an error. -/
structure Header where
  text : String
  giveUp : String

def header (s : Site) : Script Header := do
  let m := s.method
  only m.isRequest (need "context")
  let parameters ← collect (declaredParameters m) (parameterText s)
  let arguments := commaList ((if m.isRequest then ["ctx context.Context"] else []) ++ parameters)
  let host := s.policy.typeName s.host.name
  let method := s!"func (m *{host}) {methodName s m}({arguments})"
  match m.kind with
  | .constructor | .clientConstructor | .rawUrlConstructor => do
    let name ← functionName s
    pure ⟨s!"func {name}({arguments}) *{host}", ""⟩
  | .factory => do
    need serializationPath
    let name ← functionName s
    pure ⟨s!"func {name}({arguments}) (serialization.Parsable, error)", "return nil, err"⟩
  | .serializer => pure ⟨method ++ " error", "return err"⟩
  | .deserializer => do
    need serializationPath
    pure ⟨method ++ " map[string]func(serialization.ParseNode) error", "return err"⟩
  | .setter => pure ⟨method, "panic(err)"⟩
  | .requestGenerator => do
    need abstractionsPath
    pure ⟨method ++ " (*abstractions.RequestInformation, error)", "return nil, err"⟩
  | .requestExecutor => do
    let result ← resultType s
    pure <|
      if result.isEmpty then ⟨method ++ " error", "return err"⟩
      else ⟨method ++ " (" ++ result ++ ", error)", "return nil, err"⟩
  | _ => do
    let result ← resultType s
    pure ⟨if result.isEmpty then method else method ++ " " ++ result, "panic(err)"⟩

/-- What comes before the operations of a body: constructors create the object. -/
def prologue (s : Site) (base : Option String) : Script Unit :=
  let host := s.policy.typeName s.host.name
  only s.method.kind.isConstructor <|
    match base with
    | none => line s!"m := &{host}\x7b\x7d"
    | some base =>
      if base == "abstractions.ApiError" then
        line s!"m := &{host}\x7bApiError: *abstractions.NewApiError()\x7d"
      else
        let name := (Text.splitLast '.' base).2
        let create := affixed "New" base ""
        line s!"m := &{host}\x7b{name}: *{create}()\x7d"

/-- What comes after the operations of a body. -/
def epilogue (s : Site) : Script Unit :=
  match s.method.kind with
  | .constructor | .clientConstructor | .rawUrlConstructor => line "return m"
  | .serializer => line "return nil"
  | .requestGenerator => line s!"return {requestInfo}, nil"
  | _ => pure ()

def methodScript (c : Context) (base : Option String) (m : Method) : Script Unit :=
  atSite c m fun s => do
    let context := "method " ++ m.name
    let header ← (header s).within context
    blank
    let name ← functionName s
    lines (comment c.policy name m.documentation)
    block s!"{header.text} \x7b" "\x7d" do
      prologue s base
      (operations ⟨s, header.giveUp⟩ none s.body.operations).within context
      epilogue s

/-! ### Classes -/

def classScript (c : Context) (cls : ClassDef) : Script Unit := do
  let p := c.policy
  let name := p.typeName cls.name
  let base ← embedded c cls
  let texts ← collect (fields cls) (fieldText c)
  lines (comment p name cls.documentation)
  block s!"type {name} struct \x7b" "\x7d" do
    lines base.toList
    each ((fields cls).zip texts) fun (q, text) => do
      lines (comment p (field p q) q.documentation)
      line text
  each (cls.propertiesOfKind .requestBuilder) (navigation c cls)
  each (cls.methods.filter (isEmitted false)) (methodScript c base)

/-! ### Files -/

/-- The import path of the package for a namespace. -/
def packagePath (importPath : String) (root space : NamespaceRef) : String :=
  let base := if importPath.isEmpty then packageName root.name else importPath
  let dir := directory root (some space)
  if dir.isEmpty then base else base ++ "/" ++ dir

/-- The import of a package under its own name, which is spelled out where the path does not end in it. -/
def packageImport (importPath : String) (root space : NamespaceRef) : String × String :=
  let path := packagePath importPath root space
  let name := packageName space.name
  (path, if name == Text.Path.base path then Text.quoted path else name ++ " " ++ Text.quoted path)

/-- The imports of a page by path. Of two with the same path the last counts. -/
def pageImports (importPath : String) (root : NamespaceRef) (place : Option NamespaceRef) (page : Page) :
    List (String × String) :=
  let foreign := page.scope.imports.filter fun n => some n.id != place.map (·.id)
  page.needs.map (fun path => (path, Text.quoted path)) ++ foreign.map (packageImport importPath root)

/-- The lines of the imports of a page, ordered by path. -/
def importLines (imports : List (String × String)) : List String :=
  let paths := (imports.map (·.1)).eraseDups.mergeSort fun a b => decide (a ≤ b)
  paths.filterMap fun path => (imports.reverse.lookup path).map fun spec => "\t" ++ spec ++ "\n"

/-- The text of the file for a page in a namespace, before it is formatted. -/
def fileText (importPath : String) (root : NamespaceRef) (place : Option NamespaceRef) (page : Page) :
    String :=
  let imports := importLines (pageImports importPath root place page)
  String.join <|
    ["// Code generated by apigen. DO NOT EDIT.\n\n",
      "package " ++ packageName ((place.map (·.name)).getD "") ++ "\n\n"] ++
      (if imports.isEmpty then [] else ["import (\n"] ++ imports ++ [")\n\n"]) ++ [page.writer.text]

end ClientForge.Render.Go
