import ClientForge.Render.CSharpText

/-!
# Method bodies in C#

Each operation of a body as C# statements.
-/

namespace ClientForge.Render.CSharp

open ClientForge.Graph ClientForge.Plan

variable (s : Site)

/-- The content type of a body. The caller's choice wins over the fixed one. -/
def contentType (content : Content) : String :=
  match content.contentTypeParameter with
  | some p =>
    if content.contentType.isEmpty then parameter s p
    else parameter s p ++ " ?? " ++ Text.quoted content.contentType
  | none => Text.quoted content.contentType

/-- The type argument of an accessor. -/
def typeArgument (slot : ValueSlot) : Script String :=
  match slot.property.ref?, slot.variant with
  | some t, .enumeration | some t, .object => do
    let name ← definitionName s.context t
    pure s!"<{name}>"
  | some t, .collectionOfEnum | some t, .collectionOfObject | some t, .collectionOfPrimitive => do
    let name ← refText s.context t.element
    pure s!"<{name}>"
  | _, _ => pure ""

/-- Reads the value of a slot from a node. -/
def readValue (slot : ValueSlot) : Script String := do
  let argument ← typeArgument s slot
  let get := "n.Get" ++ valueMethod slot.variant slot.property.type ++ argument
  let target := slot.property.ref?.bind s.graph.classOf
  match slot.variant with
  | .object => do
    let factory ← factory s target
    pure s!"{get}({factory})"
  | .collectionOfObject => do
    let factory ← factory s target
    pure s!"{get}({factory})?.ToList()"
  | .collectionOfEnum | .collectionOfPrimitive => pure s!"{get}()?.ToList()"
  | _ => pure s!"{get}()"

def errorTable (entries : List ErrorEntry) : Script Unit :=
  block s!"var {errorMapping} = new Dictionary<string, ParsableFactory<IParsable>> \x7b" "\x7d;" <|
    each entries fun e => do
      let pattern := Text.quoted e.pattern
      let factory ← factory s (s.graph.classOf e.type)
      line s!"\x7b {pattern}, {factory} \x7d,"

/-- The error table in a call, where there is one. -/
def mappingArgument (mapped : Bool) : String := if mapped then errorMapping else "default"

def send (x : Send) : Script Unit := do
  let mapping := mappingArgument x.errorMapping
  let cancel := (x.cancellation.map (parameter s)).getD "default"
  let call := adapter s ++ "." ++ sendMethod x.variant ++ "Async"
  match x.variant, x.type with
  | .noContent, _ => line s!"await {call}({requestInfo}, {mapping}, {cancel}).ConfigureAwait(false);"
  | .object, some t => do
    let cls := s.graph.classOf t
    let factory ← factory s cls
    let name ← definitionName s.context t
    line s!"return await {call}<{name}>({requestInfo}, {factory}, {mapping}, {cancel}).ConfigureAwait(false);"
  | .objectCollection, some t => do
    let cls := s.graph.classOf t
    let factory ← factory s cls
    let name ← definitionName s.context t
    line (s!"var collectionResult = await {call}<{name}>({requestInfo}, {factory}, {mapping}, {cancel})" ++
      ".ConfigureAwait(false);")
    line "return collectionResult?.ToList();"
  | .primitiveCollection, t => do
    let name ← typeText s.context (t.map .scalar)
    line s!"var collectionResult = await {call}<{name}>({requestInfo}, {mapping}, {cancel}).ConfigureAwait(false);"
    line "return collectionResult?.ToList();"
  | _, t => do
    let name ← typeText s.context (t.map .scalar)
    line s!"return await {call}<{name}>({requestInfo}, {mapping}, {cancel}).ConfigureAwait(false);"

/-- Adds path parameters under their keys. -/
def addEntries (entries : List PathEntry) : Script Unit :=
  each entries fun e => do
    let key := Text.quoted e.key
    let value := parameter s e.parameter
    line s!"{pathParams}.Add({key}, {value});"

def constructBuilder (target : TypeRef) (paths adapter : Option Property) (extra : List PathEntry) :
    Script Unit := do
  let target ← definitionName s.context target
  let paths := property? s paths
  let adapter := property? s adapter
  if extra.isEmpty then line s!"return new {target}({paths}, {adapter});"
  else do
    line s!"var {pathParams} = new Dictionary<string, object>({paths});"
    addEntries s extra
    line s!"return new {target}({pathParams}, {adapter});"

def configureRequest (config : Parameter) (type : Option ClassDef) (queries options headers : Bool) :
    Script Unit := do
  let config := parameter s config
  block s!"if ({config} != null) \x7b" "\x7d" do
    let source ← match type with
      | some cls => do
        let name ← className cls
        line s!"var {requestConfig} = new {name}();"
        line s!"{config}.Invoke({requestConfig});"
        pure requestConfig
      | none => pure config
    only headers (line s!"{requestInfo}.AddHeaders({source}.Headers);")
    only queries (line s!"{requestInfo}.AddQueryParameters({source}.QueryParameters);")
    only options (line s!"{requestInfo}.AddRequestOptions({source}.Options);")

def fieldMap (base : Option ClassDef) (slots : List ValueSlot) : Script Unit := do
  let map := "Dictionary<string, Action<IParseNode>>"
  let name := methodName s s.method
  let opening := match base with
    | some _ => s!"return new {map}(base.{name}()) \x7b"
    | none => s!"return new {map} \x7b"
  block opening "\x7d;" <|
    each slots fun slot => do
      let read ← readValue s slot
      let key := Text.quoted slot.key
      let member := property s slot.property
      line s!"\x7b {key}, n => \x7b {member} = {read}; \x7d \x7d,"

def discriminatorSwitch (cases : List DiscriminatorCase) (fallback : ClassDef) : Script Unit :=
  block s!"return {mappingValue} switch \x7b" "\x7d;" do
    each cases fun c => do
      let key := Text.quoted c.key
      let name ← className c.type
      line s!"{key} => new {name}(),"
    let name ← className fallback
    line s!"_ => new {name}(),"

def mapQueryName (input : Parameter) (cases : List QueryNameCase) : Script Unit := do
  let input := parameter s input
  block s!"return {input} switch \x7b" "\x7d;" do
    each cases fun c => do
      let name := Text.quoted (s.policy.memberName c.name)
      let wire := Text.quoted c.serializationName
      line s!"{name} => {wire},"
    line s!"_ => {input},"

/-- An operation that does not build commands. -/
def operation : Operation → Script Unit
  | .callBaseSerializer _ => line s!"base.{methodName s s.method}({writer s});"
  | .writeValue slot => do
    let argument ← typeArgument s slot
    let method := valueMethod slot.variant slot.property.type
    let key := Text.quoted slot.key
    line s!"{writer s}.Write{method}{argument}({key}, {property s slot.property});"
  | .writeAdditionalData q => line s!"{writer s}.WriteAdditionalData({property s q});"
  | .fieldMap base slots => fieldMap s base slots
  | .newRequestInfo http template paths => do
    let http := Text.upper http
    let template := (template.map (property s)).getD "\"\""
    let paths := (paths.map (property s)).getD "new Dictionary<string, object>()"
    line s!"var {requestInfo} = new RequestInformation(Method.{http}, {template}, {paths});"
  | .addHeader name value => do
    let name := Text.quoted name
    let value := Text.quoted value
    line s!"{requestInfo}.Headers.TryAdd({name}, {value});"
  | .setStreamContent content =>
    line s!"{requestInfo}.SetStreamContent({parameter s content.body}, {contentType s content});"
  | .setStructuredContent content _ =>
    line (s!"{requestInfo}.SetContentFromParsable({adapter s}, {contentType s content}, " ++
      s!"{parameter s content.body});")
  | .setScalarContent content _ =>
    line (s!"{requestInfo}.SetContentFromScalar({adapter s}, {contentType s content}, " ++
      s!"{parameter s content.body});")
  | .configureRequest config type queries options headers =>
    configureRequest s config type queries options headers
  | .callGenerator call => do
    let arguments := commaList
      (renderArguments call.generator.signature call.arguments (parameter s) "default" true)
    line s!"var {requestInfo} = {methodName s call.generator}({arguments});"
  | .errorMappingTable entries => errorTable s entries
  | .send x => send s x
  | .assignDefault q value enum => do
    let value ← match enum with
      | some e => do
        let name ← nameOf (.ofEnum e)
        pure (name ++ "." ++ s.policy.identifier s.policy.typeCase value)
      | none => pure value
    line s!"{property s q} = {value};"
  | .seedPathParameters q source entries => do
    let source := (source.map (parameter s)).getD ""
    line s!"var {pathParams} = new Dictionary<string, object>({source});"
    addEntries s entries
    line s!"{property s q} = {pathParams};"
  | .seedRawUrl q url key => do
    let key := Text.quoted key
    line s!"{property s q} = new Dictionary<string, object> \x7b \x7b {key}, {parameter s url} \x7d \x7d;"
  | .forwardParameter q p => do
    let name := parameter s p
    line s!"{property s q} = {name} ?? throw new ArgumentNullException(nameof({name}));"
  | .registerSerializer module => line s!"ApiClientBuilder.RegisterDefaultSerializer<{module}>();"
  | .registerDeserializer module => line s!"ApiClientBuilder.RegisterDefaultDeserializer<{module}>();"
  | .setBaseUrl adapter url => do
    let adapter := property s adapter
    let url := Text.quoted url
    block s!"if (string.IsNullOrEmpty({adapter}.BaseUrl)) \x7b" "\x7d" (line s!"{adapter}.BaseUrl = {url};")
  | .addBaseUrlParameter q adapter => do
    let key := Text.quoted baseUrlKey
    line s!"{property s q} ??= new Dictionary<string, object>();"
    line s!"{property s q}.TryAdd({key}, {property s adapter}.BaseUrl);"
  | .enableBackingStore adapter p =>
    line s!"{property s adapter}.EnableBackingStore({parameter s p});"
  | .configureRetry adapter delay retries =>
    line s!"{property s adapter}.ConfigureRetry(TimeSpan.FromSeconds({delay}), {retries});"
  | .configureRedirect adapter redirects =>
    line s!"{property s adapter}.ConfigureRedirect({redirects});"
  | .readDiscriminator node name => do
    let name := Text.quoted name
    line s!"var {mappingValue} = {parameter s node}.GetChildNode({name})?.GetStringValue();"
  | .discriminatorSwitch cases fallback => discriminatorSwitch cases fallback
  | .construct type => do
    let name ← className type
    line s!"return new {name}();"
  | .constructBuilder target paths adapter extra => constructBuilder s target paths adapter extra
  | .readProperty q backing key =>
    match backing with
    | none => line s!"return {property s q};"
    | some backing => do
      let type ← typeText s.context q.type
      let key := Text.quoted key
      line s!"return {property s backing}?.Get<{type}>({key});"
  | .writeProperty q value backing key => do
    let key := Text.quoted key
    match backing with
    | none => line s!"{property s q} = {parameter s value};"
    | some backing => line s!"{property s backing}?.Set({key}, {parameter s value});"
  | .mapQueryName input cases => mapQueryName s input cases
  | .command step => throw (.cause (.unsupportedOperation "csharp" step.name))

end ClientForge.Render.CSharp
