import ClientForge.Render.CSharpBody

/-!
# Command builders in C#

The steps of a command builder as C# statements. Sub-commands are attached by statements that are data first
(`Attachment`), so that the order in which they end up can be read off.
-/

namespace ClientForge.Render.CSharp

open ClientForge.Graph ClientForge.Plan

def command : String := "command"

def execCommands : String := "execCommands"

def nonExecCommands : String := "nonExecCommands"

def response : String := "response"

def cancellationToken : String := "cancellationToken"

/-! ### Local variables -/

/-- The local variables of a command builder. -/
structure Locals where
  /-- The options so far, in order. -/
  options : List CommandOption := []
  /-- The variable that holds a request builder for a class. -/
  builders : List (ClassId × String) := []
  /-- How many temporary variables there are. -/
  temporaries : Nat := 0

/-- The name of the next temporary variable. All but the first carry their number. -/
def temporary (base : String) (taken : Nat) : String :=
  if taken = 0 then base else base ++ toString (taken + 1)

variable (s : Site)

/-- The variable for the value of an option. -/
def optionVariable (o : CommandOption) : String := s.policy.identifier .camel o.name

/-- The variable for the option that a parameter is bound to. -/
def boundVariable (options : List CommandOption) (p : Parameter) : String :=
  match options.find? fun o => o.parameter.map (·.id) == some p.id with
  | some o => optionVariable s o
  | none => s.policy.identifier .camel p.name

/-- The variable for the first option of a kind. -/
def sourceVariable (options : List CommandOption) (source : OptionSource) (fallback : String) : String :=
  match options.find? (·.source == source) with
  | some o => optionVariable s o
  | none => fallback

/-- A call of a command builder, on a variable or on the class itself. -/
def builderCall (builder : Option String) (m : Method) : String :=
  let name := methodName s m ++ "()"
  match builder with
  | some variableName => variableName ++ "." ++ name
  | none => name

/-! ### Attaching sub-commands -/

/-- A statement about sub-commands. Lists of commands come in pairs: those that run requests and those that
contain others. -/
inductive Attachment where
  /-- Adds the command that a call gives. -/
  | add (call : SubCommand)
  /-- Keeps the pair of lists that a call gives in a variable. -/
  | bind (items : String) (call : SubCommand)
  /-- Adds the commands of a pair of lists. -/
  | addItems (items : String)
  /-- Starts with a pair of empty lists. -/
  | startLists
  | keepExecutable (call : SubCommand)
  | keepContainer (call : SubCommand)
  /-- Appends a pair of lists to those at hand. -/
  | keepItems (items : String)
  | addExecutables
  | addContainers (sorted : Bool)
deriving Repr

/-- The call of a sub-command's builder. -/
def subCommandCall (c : SubCommand) : String := builderCall s c.builder c.method

def Attachment.script : Attachment → Script Unit
  | add c => line s!"{command}.AddCommand({subCommandCall s c});"
  | bind items c => line s!"var {items} = {subCommandCall s c};"
  | addItems items => line s!"foreach (var cmd in {items}.Item1.Concat({items}.Item2)) {command}.AddCommand(cmd);"
  | startLists => do
    line s!"var {execCommands} = new List<Command>();"
    line s!"var {nonExecCommands} = new List<Command>();"
  | keepExecutable c => line s!"{execCommands}.Add({subCommandCall s c});"
  | keepContainer c => line s!"{nonExecCommands}.Add({subCommandCall s c});"
  | keepItems items => do
    line s!"{execCommands}.AddRange({items}.Item1);"
    line s!"{nonExecCommands}.AddRange({items}.Item2);"
  | addExecutables =>
    block s!"foreach (var cmd in {execCommands}) \x7b" "\x7d" (line s!"{command}.AddCommand(cmd);")
  | addContainers sorted => do
    let order := if sorted then ".OrderBy(static c => c.Name, StringComparer.Ordinal)" else ""
    block s!"foreach (var cmd in {nonExecCommands}{order}) \x7b" "\x7d" (line s!"{command}.AddCommand(cmd);")

/-- The statements for sub-commands, one after the other, when some temporary variables are taken. -/
def attachEach (direct : Bool) : (taken : Nat) → List SubCommand → List Attachment
  | _, [] => []
  | taken, c :: cs =>
    if c.items then
      let items := temporary "cmds" taken
      [.bind items c, if direct then .addItems items else .keepItems items] ++
        attachEach direct (taken + 1) cs
    else
      (if direct then .add c
        else if c.method.http.isSome then .keepExecutable c
        else .keepContainer c) :: attachEach direct taken cs

/-- The statements that attach sub-commands. -/
def attachments (taken : Nat) (add : AddSubCommands) : List Attachment :=
  if add.direct then attachEach true taken add.commands
  else
    [.startLists] ++ attachEach false taken add.commands ++
      [.addExecutables, .addContainers add.sortContainers]

/-! ### Giving back items -/

/-- A statement about the commands of items. -/
inductive ItemStatement where
  /-- Starts with a pair of empty lists. -/
  | start
  /-- Adds the command that a call gives to one of them. -/
  | list (executable : Bool) (m : Method)
  /-- Returns the pair of lists. -/
  | giveBack
deriving Repr

def ItemStatement.script (builder : String) : ItemStatement → Script Unit
  | start => do
    line "var executables = new List<Command>();"
    line "var commands = new List<Command>();"
  | list executable m => do
    let commands := if executable then "executables" else "commands"
    line s!"{commands}.Add({builderCall s (some builder) m});"
  | giveBack => line "return new(executables, commands);"

/-- The statements that give back the commands of items. -/
def itemStatements (items : ItemCommands) : List ItemStatement :=
  [.start] ++ items.executables.map (.list true) ++ items.containers.map (.list false) ++ [.giveBack]

def returnItemCommands (items : ItemCommands) : Script Unit :=
  each (itemStatements items) (ItemStatement.script s items.builder)

/-! ### Commands and options -/

def initCommand (l : Locals) (init : InitCommand) : Script Unit := do
  let reused := (init.reused.map (methodName s)).getD ""
  match init.source with
  | .root => line s!"var {command} = new RootCommand();"
  | .fresh => do
    let name := Text.quoted init.name
    line s!"var {command} = new Command({name});"
  | .fromIndexer => do
    let builder := (init.builder.bind fun c => l.builders.lookup c.id).getD ""
    line s!"var {command} = {builder}.{reused}();"
  | .fromNavigation => line s!"var {command} = {reused}();"
  let description := Text.quoted init.description
  only (!init.description.isEmpty) (line s!"{command}.Description = {description};")

def instantiateBuilder (l : Locals) (b : BuilderLocal) : Script Unit := do
  let paths := (b.pathParameters.map (property s)).getD "new Dictionary<string, object>()"
  let paths ←
    if b.path.isEmpty then pure paths
    else do
      let items := temporary pathParams l.temporaries
      line s!"var {items} = new Dictionary<string, object>({paths});"
      each b.path fun p => do
        let key := Text.quoted p.wireName
        line s!"{items}.Add({key}, {parameter s p});"
      pure items
  let target ← className b.target
  line s!"var {b.name} = new {target}({paths}, {adapter s});"

/-- The type of the values of an option. -/
def optionType (o : CommandOption) : Script String :=
  match o.source, o.type with
  | .bodyFile, _ | .outputFile, _ => pure "FileInfo"
  | .header, _ => pure "string[]"
  | _, none => pure "string"
  | _, some t => do
    if o.collection then
      let element ← refText s.context t.element
      pure (Text.dropBack element "?" ++ "[]")
    else
      let name ← refText s.context t
      pure (if !o.required && name != "string" && !Text.endsWith name "?" then name ++ "?" else name)

/-- The default of an option. Defaults of parameters are source text already. -/
def optionDefault (o : CommandOption) : String :=
  match o.source with
  | .outputFormat | .contentType => Text.quoted o.defaultValue
  | _ => o.defaultValue

def addOption (o : CommandOption) : Script Unit := do
  let type ← optionType s o
  let name := optionVariable s o ++ "Option"
  let arguments := commaList <|
    [Text.quoted ("--" ++ o.name)] ++
      (if o.defaultValue.isEmpty then [] else ["getDefaultValue: () => " ++ optionDefault o]) ++
      ["description: " ++ Text.quoted o.description]
  let required := if o.required then "true" else "false"
  block s!"var {name} = new Option<{type}>({arguments}) \x7b" "\x7d;" do
    line s!"IsRequired = {required},"
    only o.collection (line s!"Arity = ArgumentArity.{o.arity.name},")
  line s!"{command}.AddOption({name});"

/-! ### Handlers -/

variable (options : List CommandOption)

/-- What a handler takes from the invocation for a step. -/
def service : HandlerStep → Script Unit
  | .sendPaged .. =>
    line "var pagingService = invocationContext.BindingContext.GetRequiredService<IPagingService>();"
  | .writeOutput mode filter _ => do
    only (mode == .formatted || mode == .text) <|
      line ("var outputFormatterFactory = " ++
        "invocationContext.BindingContext.GetRequiredService<IOutputFormatterFactory>();")
    only filter <|
      line "var outputFilter = invocationContext.BindingContext.GetRequiredService<IOutputFilter>();"
  | _ => pure ()

def parseBody (p : Parameter) (type : TypeRef) (contentType : String) : Script Unit := do
  let text := boundVariable s options p
  let contentType := Text.quoted (if contentType.isEmpty then "application/json" else contentType)
  line s!"using var stream = new MemoryStream(Encoding.UTF8.GetBytes({text}));"
  line s!"var parseNode = ParseNodeFactoryRegistry.DefaultInstance.GetRootParseNode({contentType}, stream);"
  let name ← definitionName s.context type
  let factory ← factory s (s.graph.classOf type)
  line s!"var {parameter s p} = parseNode.GetObjectValue<{name}>({factory});"
  block s!"if ({parameter s p} is null) \x7b" "\x7d" do
    line "Console.Error.WriteLine(\"No model data to send.\");"
    line "return;"

def openInputFile (p : Parameter) : Script Unit := do
  let file := boundVariable s options p
  block s!"if ({file} is null || !{file}.Exists) \x7b" "\x7d" do
    line "Console.Error.WriteLine(\"No available file to send.\");"
    line "return;"
  line s!"using var {parameter s p} = {file}.OpenRead();"

/-- What a handler passes to the generator for each of its parameters. -/
def requestArguments (r : BuildRequest) : List (Option Parameter) :=
  r.generator.signature.map fun p =>
    match p.kind with
    | .requestBody => r.body
    | .requestBodyContentType => r.contentType
    | _ => none

/-- The variable for an argument: the parsed body, or else the value of an option. -/
def argumentVariable (p : Parameter) : String :=
  if p.kind == .requestBody then parameter s p else boundVariable s options p

def buildRequest (r : BuildRequest) : Script Unit := do
  let arguments := commaList <|
    renderArguments r.generator.signature (requestArguments r) (argumentVariable s options) "default" true
  line s!"var {requestInfo} = {methodName s r.generator}({arguments});"
  each r.path fun p => do
    let value := boundVariable s options p
    let key := Text.quoted p.wireName
    line s!"if ({value} is not null) {requestInfo}.PathParameters.Add({key}, {value});"
  each r.query fun p => do
    let value := boundVariable s options p
    let key := Text.quoted p.wireName
    line s!"if ({value} is not null) {requestInfo}.QueryParameters.Add({key}, {value});"
  each r.headers fun p => line s!"{requestInfo}.Headers.AddAll({boundVariable s options p});"

def sendCommand (x : Send) : Script Unit := do
  let mapping := mappingArgument x.errorMapping
  match x.variant with
  | .noContent =>
    line (s!"await {adapter s}.SendNoContentAsync({requestInfo}, errorMapping: {mapping}, " ++
      s!"cancellationToken: {cancellationToken});")
  | _ => do
    let type ← typeText s.context (x.type.map .scalar)
    line (s!"var {response} = await {adapter s}.SendPrimitiveAsync<{type}>({requestInfo}, " ++
      s!"errorMapping: {mapping}, cancellationToken: {cancellationToken}) ?? Stream.Null;")

def sendPaged (itemName nextLinkName : String) (mapped : Bool) : Script Unit := do
  let item := Text.quoted itemName
  let link := Text.quoted nextLinkName
  let all := sourceVariable s options .allPages "false"
  line s!"var pagingData = new PageLinkData({requestInfo}, null, itemName: {item}, nextLinkName: {link});"
  line ("var pageResponse = await pagingService.GetPagedDataAsync((info, token) => " ++
    s!"{adapter s}.SendPrimitiveAsync<Stream>(info, {mappingArgument mapped}, cancellationToken: token), " ++
    s!"pagingData, {all}, {cancellationToken});")
  line s!"var {response} = pageResponse?.Response ?? Stream.Null;"

def writeOutput (mode : OutputMode) (filter : Bool) : Script Unit := do
  match mode with
  | .success => line "Console.WriteLine(\"Success\");"
  | .stream => do
    let file := sourceVariable s options .outputFile "null"
    block s!"if ({file} == null) \x7b" "\x7d" do
      line "using var writeStream = Console.OpenStandardOutput();"
      line s!"await {response}.CopyToAsync(writeStream, {cancellationToken});"
    block "else \x7b" "\x7d" do
      line s!"using var writeStream = {file}.OpenWrite();"
      line s!"await {response}.CopyToAsync(writeStream, {cancellationToken});"
      line s!"Console.WriteLine($\"Content written to \x7b{file}.FullName\x7d.\");"
  | .text => do
    line "var formatter = outputFormatterFactory.GetFormatter(FormatterType.TEXT);"
    line s!"await formatter.WriteOutputAsync({response}, null, {cancellationToken});"
  | .formatted => do
    let query := sourceVariable s options .outputFilter "null"
    only filter <|
      line (s!"{response} = ({response} != Stream.Null) ? await outputFilter.FilterOutputAsync({response}, " ++
        s!"{query}, {cancellationToken}) : {response};")
    let format := sourceVariable s options .outputFormat (Text.quoted "json")
    line s!"var formatter = outputFormatterFactory.GetFormatter({format});"
    line s!"await formatter.WriteOutputAsync({response}, null, {cancellationToken});"

def handlerStep : HandlerStep → Script Unit
  | .parseBody p type contentType => parseBody s options p type contentType
  | .openInputFile p => openInputFile s options p
  | .buildRequest r => buildRequest s options r
  | .errorMappingTable entries => errorTable s entries
  | .send x => sendCommand s x
  | .sendPaged item link mapped => sendPaged s options item link mapped
  | .writeOutput mode filter _ => writeOutput s options mode filter

def handler (steps : List HandlerStep) : Script Unit :=
  block s!"{command}.SetHandler(async (invocationContext) => \x7b" "\x7d);" do
    each options fun o => do
      let name := optionVariable s o
      line s!"var {name} = invocationContext.ParseResult.GetValueForOption({name}Option);"
    each steps service
    line s!"var {cancellationToken} = invocationContext.GetCancellationToken();"
    each steps (handlerStep s options)

/-! ### Steps -/

/-- The local variables after a step. -/
def Locals.after (l : Locals) : CommandStep → Locals
  | .instantiateBuilder b =>
    { l with
      builders := (b.target.id, b.name) :: l.builders
      temporaries := if b.path.isEmpty then l.temporaries else l.temporaries + 1 }
  | .addSubCommands add =>
    { l with temporaries := l.temporaries + (add.commands.filter (·.items)).length }
  | .addOption o => { l with options := l.options ++ [o] }
  | _ => l

def commandStep (l : Locals) : CommandStep → Script Unit
  | .initCommand init => initCommand s l init
  | .instantiateBuilder b => instantiateBuilder s l b
  | .addSubCommands add => each (attachments l.temporaries add) (Attachment.script s)
  | .returnItemCommands items => returnItemCommands s items
  | .addOption o => addOption s o
  | .handler steps => handler s l.options steps
  | .returnCommand => line s!"return {command};"

/-- The operations of a body. Only clients with commands have steps that build them. -/
def operations (commands : Bool) : Locals → List Operation → Script Unit
  | _, [] => pure ()
  | l, .command step :: rest => do
    if commands then commandStep s l step else operation s (.command step)
    operations commands (l.after step) rest
  | l, op :: rest => do
    operation s op
    operations commands l rest

end ClientForge.Render.CSharp
