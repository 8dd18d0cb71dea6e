import ClientForge.Render.GoText

/-!
# Method bodies in Go

Each operation of a body as Go statements. Calls that can fail are followed by a check; what a check does
depends on the function around it.
-/

namespace ClientForge.Render.Go

open ClientForge.Graph ClientForge.Plan ClientForge.Convention

def requestInfo : String := "requestInfo"

def errorMapping : String := "errorMapping"

def pathParams : String := "urlTplParams"

/-- A site, and the statement that ends its function with an error. -/
structure Func extends Site where
  giveUp : String

variable (f : Func)

/-! ### Checks -/

def unlessNil (value : String) (body : Script Unit) : Script Unit :=
  block s!"if {value} != nil \x7b" "\x7d" body

/-- Makes a call that gives nothing but an error. -/
def checked (call : String) : Script Unit :=
  block s!"if err := {call}; err != nil \x7b" "\x7d" (line f.giveUp)

def checkError : Script Unit := unlessNil "err" (line f.giveUp)

/-! ### Values -/

/-- What accessors of a primitive are called, where that is not its own name. -/
def accessorNames : List (String × String) :=
  [("uuid.UUID", "UUID"), ("time.Time", "Time"), ("serialization.DateOnly", "DateOnly"),
    ("serialization.TimeOnly", "TimeOnly"), ("serialization.ISODuration", "ISODuration"),
    ("[]byte", "ByteArray")]

/-- What an accessor of a primitive is called. -/
def accessor (c : Context) (t : Option TypeExpr) : Script String := do
  let name ← match t.bind TypeExpr.ref? with
    | some r => scalar c r.element.name
    | none => pure "string"
  pure ((accessorNames.lookup name).getD (Text.Casing.pascal.apply name) ++ "Value")

def elementName (t : Option TypeExpr) : Script String :=
  match t.bind TypeExpr.ref? with
  | some r => definitionName f.context r
  | none => pure ""

def elementClass (t : Option TypeExpr) : Option ClassDef := (t.bind TypeExpr.ref?).bind f.graph.classOf

/-- The failure for a composed type, which the language cannot express. -/
def composedFailure (t : Option TypeExpr) : Failure :=
  unsupportedType f.graph Language.go.name (t.getD (.scalar ⟨"", none, .none, false⟩))

def writeValue (slot : ValueSlot) : Script Unit := do
  let w := writer f.toSite
  let value := property f.toSite slot.property
  let type := slot.property.type
  let key := Text.quoted slot.key
  match slot.variant with
  | .enumeration =>
    unlessNil value do
      line s!"cast := (*{value}).String()"
      checked f s!"{w}.WriteStringValue({key}, &cast)"
  | .collectionOfEnum => do
    let name ← elementName f type
    let serialize := affixed "Serialize" name ""
    unlessNil value (checked f s!"{w}.WriteCollectionOfStringValues({key}, {serialize}({value}))")
  | .collectionOfObject => do
    need serializationPath
    unlessNil value do
      line s!"cast := make([]serialization.Parsable, len({value}))"
      block s!"for i, v := range {value} \x7b" "\x7d" (unlessNil "v" (line "cast[i] = v"))
      checked f s!"{w}.WriteCollectionOfObjectValues({key}, cast)"
  | .collectionOfPrimitive => do
    let accessor ← accessor f.context type
    checked f s!"{w}.WriteCollectionOf{accessor}s({key}, {value})"
  | .object => checked f s!"{w}.WriteObjectValue({key}, {value})"
  | .composed => throw (composedFailure f type)
  | .primitive | .byteArray => do
    let accessor ← accessor f.context type
    checked f s!"{w}.Write{accessor}({key}, {value})"

/-- Reads a single value and assigns it. -/
def readSingle (value read assigned : String) : Script Unit := do
  line s!"val, err := {read}"
  checkError f
  unlessNil "val" (line s!"{value} = {assigned}")

/-- Reads a collection and assigns it, element by element. -/
def readItems (value element read item : String) : Script Unit := do
  line s!"val, err := {read}"
  checkError f
  unlessNil "val" do
    line s!"items := make([]{element}, len(val))"
    block "for i, v := range val \x7b" "\x7d" (unlessNil "v" (line s!"items[i] = {item}"))
    line s!"{value} = items"

/-- Assigns the value read from a node. -/
def readValue (slot : ValueSlot) : Script Unit := do
  let value := property f.toSite slot.property
  let type := slot.property.type
  match slot.variant with
  | .enumeration => do
    let name ← elementName f type
    let parse := affixed "Parse" name ""
    readSingle f value s!"n.GetEnumValue({parse})" s!"val.(*{name})"
  | .object => do
    let target ← typeOf f.context type
    let factory ← factoryOf (elementClass f type)
    readSingle f value s!"n.GetObjectValue({factory})" s!"val.({target})"
  | .collectionOfPrimitive => do
    let element ← elementType f.context type
    let bare := Text.dropFront element "*"
    readItems f value element s!"n.GetCollectionOfPrimitiveValues({Text.quoted bare})" s!"*(v.(*{bare}))"
  | .collectionOfEnum => do
    let element ← elementType f.context type
    let name ← elementName f type
    let parse := affixed "Parse" name ""
    readItems f value element s!"n.GetCollectionOfEnumValues({parse})" s!"*(v.(*{element}))"
  | .collectionOfObject => do
    let element ← elementType f.context type
    let factory ← factoryOf (elementClass f type)
    readItems f value element s!"n.GetCollectionOfObjectValues({factory})" s!"v.({element})"
  | .composed => throw (composedFailure f type)
  | .primitive | .byteArray => do
    let accessor ← accessor f.context type
    readSingle f value s!"n.Get{accessor}()" "val"

def fieldMap (base : Option ClassDef) (slots : List ValueSlot) : Script Unit := do
  need serializationPath
  match base with
  | some base =>
    line s!"res := m.{f.policy.typeName base.name}.{methodName f.toSite f.method}()"
  | none => line "res := make(map[string]func(serialization.ParseNode) error)"
  each slots fun slot => do
    let key := Text.quoted slot.key
    block s!"res[{key}] = func(n serialization.ParseNode) error \x7b" "\x7d" do
      readValue f slot
      line "return nil"
  line "return res"

/-! ### Requests -/

/-- The content type of a body. The caller's choice wins over the fixed one. -/
def contentType (content : Content) : String :=
  match content.contentTypeParameter with
  | some p => parameter f.toSite p
  | none => Text.quoted content.contentType

def configureRequest (config : Parameter) (type : Option ClassDef) (queries options headers : Bool) :
    Script Unit := do
  let config := parameter f.toSite config
  let member (kind : PropertyKind) (fallback : String) : String :=
    config ++ "." ++ ((type.bind (·.propertyOfKind kind)).map (field f.policy)).getD fallback
  unlessNil config do
    let query := member .queryParameters "QueryParameters"
    only queries (unlessNil query (line s!"{requestInfo}.AddQueryParameters(*({query}))"))
    let header := member .headers "Headers"
    only headers (line s!"{requestInfo}.Headers.AddAll({header})")
    let option := member .options "Options"
    only options (line s!"{requestInfo}.AddRequestOptions({option})")

/-- The arguments of a call of the generator. A missing content type is an empty text. -/
def generatorArguments (call : GeneratorCall) : List String :=
  let signature := call.generator.signature
  let rendered := renderArguments signature call.arguments (parameter f.toSite) "nil" false
  "ctx" :: rendered.zipIdx.map fun (text, i) =>
    let missing := (call.arguments[i]?.getD none).isNone
    if missing && signature[i]?.any (·.kind == .requestBodyContentType) then "\"\"" else text

def errorTable (entries : List ErrorEntry) : Script Unit := do
  need abstractionsPath
  block s!"{errorMapping} := abstractions.ErrorMappings\x7b" "\x7d" <|
    each entries fun e => do
      let pattern := Text.quoted e.pattern
      let factory ← factoryOf (f.graph.classOf e.type)
      line s!"{pattern}: {factory},"

/-- Gives back a response element by element. -/
def returnItems (element item : String) : Script Unit := do
  line s!"val := make([]{element}, len(res))"
  block "for i, v := range res \x7b" "\x7d" (unlessNil "v" (line s!"val[i] = {item}"))
  line "return val, nil"

/-- Gives back a response, or nothing where there is none. -/
def returnSingle (type : String) : Script Unit := do
  block "if res == nil \x7b" "\x7d" (line "return nil, nil")
  line s!"return res.({type}), nil"

def send (x : Send) : Script Unit := do
  let mapping := if x.errorMapping then errorMapping else "nil"
  let call := adapter f.toSite ++ "." ++ sendMethod x.variant
  match x.variant, x.type with
  | .object, some t | .objectCollection, some t => do
    let type ← refType f.context t
    let factory ← factoryOf (f.graph.classOf t)
    line s!"res, err := {call}(ctx, {requestInfo}, {factory}, {mapping})"
    checkError f
    if x.variant == .object then returnSingle type else returnItems type s!"v.({type})"
  | .primitive, some t | .primitiveCollection, some t => do
    let name ← scalar f.context t.name
    let name := if (f.graph.enumOf t).isSome then "string" else name
    line s!"res, err := {call}(ctx, {requestInfo}, {Text.quoted name}, {mapping})"
    checkError f
    if x.variant == .primitive then returnSingle (pointer name) else returnItems name s!"*(v.(*{name}))"
  | _, _ => do
    checked f s!"{call}(ctx, {requestInfo}, {mapping})"
    line "return nil"

/-! ### Construction -/

/-- Assigns a default. A pointer is assigned by way of a variable. -/
def assignDefault (q : Property) (value : String) (enum : Option Enum) : Script Unit := do
  let type ← fieldType f.context q
  let value ← match enum with
    | some e => do
      let name ← nameOf (.ofEnum e)
      pure (affixed "" name (f.policy.identifier .pascal value))
    | none => pure value
  let target := property f.toSite q
  if !Text.startsWith type "*" then line s!"{target} = {value}"
  else do
    let spare := f.policy.identifier .camel q.name
    let bare := Text.dropFront type "*"
    line (if enum.isSome then s!"{spare} := {value}" else s!"{spare} := {bare}({value})")
    line s!"{target} = &{spare}"

/-- Copies path parameters into a fresh map. -/
def copyPaths (source : String) : Script Unit :=
  block s!"for k, v := range {source} \x7b" "\x7d" (line s!"{pathParams}[k] = v")

/-- Sets path parameters under their keys. -/
def setEntries (entries : List PathEntry) : Script Unit :=
  each entries fun e => do
    let key := Text.quoted e.key
    line s!"{pathParams}[{key}] = {parameter f.toSite e.parameter}"

def seedPathParameters (q : Property) (source : Option Parameter) (entries : List PathEntry) :
    Script Unit := do
  line s!"{pathParams} := make(map[string]string)"
  each source.toList fun p => copyPaths (parameter f.toSite p)
  setEntries f entries
  line s!"{property f.toSite q} = {pathParams}"

/-- Registers a module by a function that creates its factory. -/
def register (function type module : String) : Script Unit := do
  needAll [abstractionsPath, serializationPath]
  let create := affixed "New" module ""
  block s!"abstractions.{function}(func() serialization.{type} \x7b" "\x7d)" (line s!"return {create}()")

/-! ### Discriminators -/

/-- Returns a fresh object. -/
def returnNew (c : ClassDef) : Script Unit := do
  let create ← constructorOf c
  line s!"return {create}(), nil"

/-- Chooses a class by the discriminator that was read before. -/
def discriminatorSwitch (read : Option (Parameter × String)) (cases : List DiscriminatorCase)
    (fallback : ClassDef) : Script Unit := do
  match read with
  | some (node, name) =>
    only (!cases.isEmpty) do
      let node := parameter f.toSite node
      let name := Text.quoted name
      unlessNil node do
        line s!"mappingValueNode, err := {node}.GetChildNode({name})"
        checkError f
        unlessNil "mappingValueNode" do
          line "mappingValue, err := mappingValueNode.GetStringValue()"
          checkError f
          unlessNil "mappingValue" do
            block "switch *mappingValue \x7b" "\x7d" <|
              each cases fun c => do
                line s!"case {Text.quoted c.key}:"
                indented (returnNew c.type)
  | none => pure ()
  returnNew fallback

/-! ### Navigation and access -/

def constructBuilder (target : TypeRef) (paths adapter : Option Property) (extra : List PathEntry) :
    Script Unit := do
  let create ← match f.graph.classOf target with
    | some cls => constructorOf cls
    | none => pure ""
  let paths := property? f.toSite paths
  let adapter := property? f.toSite adapter
  if extra.isEmpty then line s!"return {create}({paths}, {adapter})"
  else do
    line s!"{pathParams} := make(map[string]string)"
    copyPaths paths
    setEntries f extra
    line s!"return {create}({pathParams}, {adapter})"

def readProperty (q : Property) (backing : Option Property) (key : String) : Script Unit :=
  match backing with
  | none => line s!"return {property f.toSite q}"
  | some backing => do
    let type ← fieldType f.context q
    let key := Text.quoted key
    line s!"val, err := {property f.toSite backing}.Get({key})"
    checkError f
    unlessNil "val" (line s!"return val.({type})")
    if isNilable type then line "return nil"
    else do
      line s!"var zero {type}"
      line "return zero"

def mapQueryName (input : Parameter) (cases : List QueryNameCase) : Script Unit := do
  let input := parameter f.toSite input
  only (!cases.isEmpty) do
    need "strings"
    block s!"switch strings.ToLower({input}) \x7b" "\x7d" <|
      each cases fun c => do
        let name := Text.quoted (Text.lower c.name)
        let wire := Text.quoted c.serializationName
        line s!"case {name}:"
        indented (line s!"return {wire}")
  line s!"return {input}"

/-- An operation, with the discriminator that was read before it. -/
def operation (read : Option (Parameter × String)) : Operation → Script Unit
  | .callBaseSerializer base =>
    checked f s!"m.{f.policy.typeName base.name}.{methodName f.toSite f.method}({writer f.toSite})"
  | .writeValue slot => writeValue f slot
  | .writeAdditionalData q =>
    checked f s!"{writer f.toSite}.WriteAdditionalData({property f.toSite q})"
  | .fieldMap base slots => fieldMap f base slots
  | .newRequestInfo http template paths => do
    need abstractionsPath
    let http := Text.upper http
    let template := (template.map (property f.toSite)).getD "\"\""
    let paths := (paths.map (property f.toSite)).getD "map[string]string\x7b\x7d"
    line (s!"{requestInfo} := abstractions.NewRequestInformationWithMethodAndUrlTemplateAndPathParameters(" ++
      s!"abstractions.{http}, {template}, {paths})")
  | .addHeader name value => do
    let name := Text.quoted name
    let value := Text.quoted value
    line s!"{requestInfo}.Headers.TryAdd({name}, {value})"
  | .setStreamContent content =>
    line (s!"{requestInfo}.SetStreamContentAndContentType({parameter f.toSite content.body}, " ++
      s!"{contentType f content})")
  | .setStructuredContent content _ =>
    checked f (s!"{requestInfo}.SetContentFromParsable(ctx, {adapter f.toSite}, {contentType f content}, " ++
      s!"{parameter f.toSite content.body})")
  | .setScalarContent content _ =>
    checked f (s!"{requestInfo}.SetContentFromScalar(ctx, {adapter f.toSite}, {contentType f content}, " ++
      s!"{parameter f.toSite content.body})")
  | .configureRequest config type queries options headers =>
    configureRequest f config type queries options headers
  | .callGenerator call => do
    let arguments := commaList (generatorArguments f call)
    line s!"{requestInfo}, err := m.{methodName f.toSite call.generator}({arguments})"
    checkError f
  | .errorMappingTable entries => errorTable f entries
  | .send x => send f x
  | .assignDefault q value enum => assignDefault f q value enum
  | .seedPathParameters q source entries => seedPathParameters f q source entries
  | .seedRawUrl q url key => do
    let key := Text.quoted key
    line s!"{property f.toSite q} = map[string]string\x7b{key}: {parameter f.toSite url}\x7d"
  | .forwardParameter q p => line s!"{property f.toSite q} = {parameter f.toSite p}"
  | .registerSerializer module => register "RegisterDefaultSerializer" "SerializationWriterFactory" module
  | .registerDeserializer module => register "RegisterDefaultDeserializer" "ParseNodeFactory" module
  | .setBaseUrl adapter url => do
    let adapter := property f.toSite adapter
    let url := Text.quoted url
    block s!"if {adapter}.GetBaseUrl() == \"\" \x7b" "\x7d" (line s!"{adapter}.SetBaseUrl({url})")
  | .addBaseUrlParameter q adapter => do
    let paths := property f.toSite q
    let key := Text.quoted baseUrlKey
    block s!"if {paths} == nil \x7b" "\x7d" (line s!"{paths} = make(map[string]string)")
    line s!"{paths}[{key}] = {property f.toSite adapter}.GetBaseUrl()"
  | .enableBackingStore adapter p =>
    line s!"{property f.toSite adapter}.EnableBackingStore({parameter f.toSite p})"
  | .configureRetry adapter delay retries => do
    need "time"
    line s!"{property f.toSite adapter}.ConfigureRetry({delay}*time.Second, {retries})"
  | .configureRedirect adapter redirects =>
    line s!"{property f.toSite adapter}.ConfigureRedirect({redirects})"
  | .readDiscriminator _ _ => pure ()
  | .discriminatorSwitch cases fallback => discriminatorSwitch f read cases fallback
  | .construct type => returnNew type
  | .constructBuilder target paths adapter extra => constructBuilder f target paths adapter extra
  | .readProperty q backing key => readProperty f q backing key
  | .writeProperty q value backing key => do
    let key := Text.quoted key
    match backing with
    | none => line s!"{property f.toSite q} = {parameter f.toSite value}"
    | some backing => checked f s!"{property f.toSite backing}.Set({key}, {parameter f.toSite value})"
  | .mapQueryName input cases => mapQueryName f input cases
  | .command step => throw (.cause (.unsupportedOperation "golang" step.name))

/-- The operations of a body. A discriminator is read where it is used. -/
def operations : Option (Parameter × String) → List Operation → Script Unit
  | _, [] => pure ()
  | _, .readDiscriminator node name :: rest => operations (some (node, name)) rest
  | read, op :: rest => do
    operation f read op
    operations read rest

end ClientForge.Render.Go
