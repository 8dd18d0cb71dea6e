import ClientForge.Render.Site

/-!
# Method bodies in TypeScript

How TypeScript clients write names and types, and each operation of a body as TypeScript statements.
-/

namespace ClientForge.Render.TypeScript

open ClientForge.Graph ClientForge.Plan ClientForge.Convention

/-! ### Types -/

/-- What the runtime declares under the names of primitives. -/
def runtimeTypes : List String :=
  ["BackingStore", "BackingStoreFactory", "Parsable", "ParseNode", "RequestAdapter", "RequestInformation",
    "RequestOption", "SerializationWriter", "UntypedNode"]

/-- The type of dictionaries. -/
def mapType : String := "Record<string, unknown>"

/-- Whether a reference names a dictionary. -/
def isMap (t : TypeRef) : Bool := Text.foldEq t.name "dictionary" || Text.foldEq t.name "map"

/-- The reference to a single primitive value, if a type is one. -/
def primitive? (t : TypeExpr) : Option TypeRef :=
  t.ref?.filter fun r => r.definition.isNone && !r.isCollection

/-- A type as the file writes it. What it takes from the runtime is imported. -/
def typeOf (c : Context) (t : Option TypeExpr) : Script String :=
  match t.bind primitive? with
  | some r =>
    if isMap r then pure mapType
    else do
      let name ← typeText c t
      let base := Text.dropBack name " | null"
      only (runtimeTypes.contains base) (need base)
      pure name
  | none => typeText c t

def typeOfRef (c : Context) (t : TypeRef) : Script String := typeOf c (some (.scalar t))

/-- A name of the runtime, which is imported. -/
def runtime (name : String) : Script String := do
  need name
  pure name

/-- The type of a property. What belongs to the runtime has a fixed type. -/
def propertyType (c : Context) (p : Property) : Script String :=
  match p.kind with
  | .pathParameters | .additionalData => pure mapType
  | .headers => pure "Record<string, string[]>"
  | .options => do
    let name ← runtime "RequestOption"
    pure (name ++ "[]")
  | .requestAdapter => runtime "RequestAdapter"
  | .backingStore => runtime "BackingStore"
  | .urlTemplate => pure "string"
  | _ => typeOf c p.type

/-- The type of a parameter. A request configuration is a function that configures a fresh one. -/
def parameterType (c : Context) (p : Parameter) : Script String :=
  match p.kind with
  | .pathParameters => pure mapType
  | .requestAdapter => runtime "RequestAdapter"
  | .serializer => runtime "SerializationWriter"
  | .parseNode => runtime "ParseNode"
  | .backingStore => runtime "BackingStoreFactory"
  | .rawUrl => pure "string"
  | .requestConfiguration =>
    match p.type.ref?.bind c.graph.classOf with
    | some config => do
      let config ← className config
      pure s!"(config: {config}) => void"
    | none => typeOf c (some p.type)
  | _ => typeOf c (some p.type)

/-! ### Names -/

def requestInfo : String := "requestInfo"

def errorMapping : String := "errorMapping"

def pathParams : String := "urlTplParams"

def mappingValue : String := "mappingValue"

def configValue : String := "config"

/-- The adapter in requests. -/
def adapter : String := "this.requestAdapter"

variable (s : Site)

/-- The object whose members operations apply to. Construction from a raw URL has no object of its own. -/
def receiver : String := if s.method.kind == .rawUrlConstructor then "builder" else "this"

def property (q : Property) : String := receiver s ++ "." ++ s.policy.memberName q.name

def property? (q : Option Property) : String := (q.map (property s)).getD "undefined"

def parameter (q : Parameter) : String := s.policy.memberName (s.body.nameOf q)

def methodName (m : Method) : String := s.policy.memberName m.name

/-- The variable that values are written to. -/
def writer : String :=
  match s.method.parameterOfKind .serializer with
  | some p => parameter s p
  | none => "writer"

/-- The factory of a class, which may be missing. -/
def factory (c : Option ClassDef) : Script String :=
  match c with
  | some c => do
    let name ← className c
    pure (name ++ "." ++ s.policy.memberName factoryMethod)
  | none => pure "undefined"

/-! ### Operations -/

/-- The content type of a body. The caller's choice wins over the fixed one. -/
def contentType (content : Content) : String :=
  match content.contentTypeParameter with
  | some p =>
    if content.contentType.isEmpty then parameter s p
    else parameter s p ++ " ?? " ++ Text.quoted content.contentType
  | none => Text.quoted content.contentType

/-- Reads the value of a slot from a node. -/
def readValue (slot : ValueSlot) : Script String := do
  let get := "n.get" ++ valueMethod slot.variant slot.property.type
  match slot.property.ref?, slot.variant with
  | some t, .object | some t, .collectionOfObject => do
    let factory ← factory s (s.graph.classOf t)
    pure s!"{get}({factory})"
  | some t, .enumeration | some t, .collectionOfEnum => do
    let name ← definitionName s.context t
    pure s!"{get}({name})"
  | some t, .collectionOfPrimitive => do
    let name ← typeOfRef s.context t.element
    pure s!"{get}<{name}>()"
  | _, .composed => do
    let name ← typeOf s.context slot.property.type
    pure s!"{get}() as {name}"
  | _, _ => pure s!"{get}()"

def fieldMap (base : Option ClassDef) (slots : List ValueSlot) : Script Unit := do
  need "ParseNode"
  block "return \x7b" "\x7d;" do
    only base.isSome (line s!"...super.{methodName s s.method}(),")
    each slots fun slot => do
      let read ← readValue s slot
      let key := Text.quoted slot.key
      line s!"{key}: n => \x7b {property s slot.property} = {read}; \x7d,"

def configureRequest (config : Parameter) (type : Option ClassDef) (queries options headers : Bool) :
    Script Unit := do
  let config := parameter s config
  block s!"if ({config}) \x7b" "\x7d" do
    let source ← match type with
      | some cls => do
        let name ← className cls
        line s!"const {configValue} = new {name}();"
        line s!"{config}({configValue});"
        pure configValue
      | none => pure config
    only headers (line s!"{requestInfo}.addRequestHeaders({source}.headers);")
    only queries (line s!"{requestInfo}.setQueryStringParametersFromRawObject({source}.queryParameters);")
    only options (line s!"{requestInfo}.addRequestOptions({source}.options);")

def errorTable (entries : List ErrorEntry) : Script Unit := do
  need "ErrorMappings"
  block s!"const {errorMapping} = \x7b" "\x7d as ErrorMappings;" <|
    each entries fun e => do
      let pattern := Text.quoted e.pattern
      let factory ← factory s (s.graph.classOf e.type)
      line s!"{pattern}: {factory},"

/-- What the adapter makes of a response: an object of a class, or a value of a type. -/
def resultArgument (t : TypeRef) : Script String :=
  match s.graph.classOf t with
  | some cls => factory s (some cls)
  | none => do
    let name ← typeOfRef s.context t
    pure (Text.quoted name)

def send (x : Send) : Script Unit := do
  let result ← collect x.type.toList (resultArgument s)
  let mapping := if x.errorMapping then errorMapping else "undefined"
  let arguments := commaList ([requestInfo] ++ result ++ [mapping])
  let call := adapter ++ "." ++ s.policy.memberName (sendMethod x.variant) ++ "(" ++ arguments ++ ")"
  line (if x.variant == .noContent then s!"await {call};" else s!"return await {call};")

/-- Sets path parameters under their keys. -/
def setEntries (entries : List PathEntry) : Script Unit :=
  each entries fun e => do
    let key := Text.quoted e.key
    line s!"{pathParams}[{key}] = {parameter s e.parameter};"

def constructBuilder (target : TypeRef) (paths adapter : Option Property) (extra : List PathEntry) :
    Script Unit := do
  let target ← definitionName s.context target
  let paths := property? s paths
  let adapter := property? s adapter
  if extra.isEmpty then line s!"return new {target}({paths}, {adapter});"
  else do
    line s!"const {pathParams}: {mapType} = \x7b...{paths}\x7d;"
    setEntries s extra
    line s!"return new {target}({pathParams}, {adapter});"

def discriminatorSwitch (cases : List DiscriminatorCase) (fallback : ClassDef) : Script Unit := do
  block s!"switch ({mappingValue}) \x7b" "\x7d" <|
    each cases fun c => do
      let key := Text.quoted c.key
      line s!"case {key}:"
      indented do
        let name ← className c.type
        line s!"return new {name}();"
  let name ← className fallback
  line s!"return new {name}();"

def mapQueryName (input : Parameter) (cases : List QueryNameCase) : Script Unit := do
  let input := parameter s input
  only (!cases.isEmpty) <|
    block s!"switch ({input}.toLowerCase()) \x7b" "\x7d" <|
      each cases fun c => do
        let name := Text.quoted (Text.lower c.name)
        let wire := Text.quoted c.serializationName
        line s!"case {name}: return {wire};"
  line s!"return {input};"

def operation : Operation → Script Unit
  | .callBaseSerializer _ => line s!"super.{methodName s s.method}({writer s});"
  | .writeValue slot => do
    let method := valueMethod slot.variant slot.property.type
    let key := Text.quoted slot.key
    line s!"{writer s}.write{method}({key}, {property s slot.property});"
  | .writeAdditionalData q => line s!"{writer s}.writeAdditionalData({property s q});"
  | .fieldMap base slots => fieldMap s base slots
  | .newRequestInfo http template paths => do
    needAll ["RequestInformation", "HttpMethod"]
    let http := Text.upper http
    let template := (template.map (property s)).getD "\"\""
    let paths := (paths.map (property s)).getD "\x7b\x7d"
    line s!"const {requestInfo} = new RequestInformation(HttpMethod.{http}, {template}, {paths});"
  | .addHeader name value => do
    let name := Text.quoted name
    let value := Text.quoted value
    line s!"{requestInfo}.headers.tryAdd({name}, {value});"
  | .setStreamContent content =>
    line s!"{requestInfo}.setStreamContent({parameter s content.body}, {contentType s content});"
  | .setStructuredContent content type => do
    let factory ← factory s (s.graph.classOf type)
    line (s!"{requestInfo}.setContentFromParsable({adapter}, {contentType s content}, " ++
      s!"{parameter s content.body}, {factory});")
  | .setScalarContent content _ =>
    line (s!"{requestInfo}.setContentFromScalar({adapter}, {contentType s content}, " ++
      s!"{parameter s content.body});")
  | .configureRequest config type queries options headers =>
    configureRequest s config type queries options headers
  | .callGenerator call => do
    let arguments := commaList
      (renderArguments call.generator.signature call.arguments (parameter s) "undefined" true)
    line s!"const {requestInfo} = this.{methodName s call.generator}({arguments});"
  | .errorMappingTable entries => errorTable s entries
  | .send x => send s x
  | .assignDefault q value enum => do
    let value ← match enum with
      | some e => do
        let name ← nameOf (.ofEnum e)
        pure (name ++ "." ++ s.policy.identifier s.policy.typeCase value)
      | none => pure value
    line s!"{property s q} = {value};"
  | .seedPathParameters q source entries => do
    let source := match source with
      | some p => "\x7b..." ++ parameter s p ++ "\x7d"
      | none => "\x7b\x7d"
    line s!"const {pathParams}: {mapType} = {source};"
    setEntries s entries
    line s!"{property s q} = {pathParams};"
  | .seedRawUrl q url key => do
    let key := Text.quoted key
    line s!"{property s q} = \x7b {key}: {parameter s url} \x7d;"
  | .forwardParameter q p => line s!"{property s q} = {parameter s p};"
  | .registerSerializer module => do
    let register ← runtime "registerDefaultSerializer"
    line s!"{register}({module});"
  | .registerDeserializer module => do
    let register ← runtime "registerDefaultDeserializer"
    line s!"{register}({module});"
  | .setBaseUrl adapter url => do
    let adapter := property s adapter
    let url := Text.quoted url
    block s!"if (!{adapter}.baseUrl) \x7b" "\x7d" (line s!"{adapter}.baseUrl = {url};")
  | .addBaseUrlParameter q adapter => do
    let key := Text.quoted baseUrlKey
    line s!"{property s q} ??= \x7b\x7d;"
    line s!"{property s q}[{key}] = {property s adapter}.baseUrl;"
  | .enableBackingStore adapter p => line s!"{property s adapter}.enableBackingStore({parameter s p});"
  | .configureRetry adapter delay retries =>
    line s!"{property s adapter}.configureRetry(\x7b delay: {delay}, maxRetries: {retries} \x7d);"
  | .configureRedirect adapter redirects =>
    line s!"{property s adapter}.configureRedirect(\x7b maxRedirects: {redirects} \x7d);"
  | .readDiscriminator node name => do
    let name := Text.quoted name
    line s!"const {mappingValue} = {parameter s node}?.getChildNode({name})?.getStringValue();"
  | .discriminatorSwitch cases fallback => discriminatorSwitch cases fallback
  | .construct type => do
    let name ← className type
    line s!"return new {name}();"
  | .constructBuilder target paths adapter extra => constructBuilder s target paths adapter extra
  | .readProperty q backing key => do
    let key := Text.quoted key
    match backing with
    | some backing => line s!"return {property s backing}.get({key});"
    | none => line s!"return {property s q};"
  | .writeProperty q value backing key => do
    let key := Text.quoted key
    match backing with
    | some backing => line s!"{property s backing}.set({key}, {parameter s value});"
    | none => line s!"{property s q} = {parameter s value};"
  | .mapQueryName input cases => mapQueryName s input cases
  | .command step => throw (.cause (.unsupportedOperation "typescript" step.name))

end ClientForge.Render.TypeScript
