import ClientForge.Command.Help
import ClientForge.Plan.Request

/-!
# Options

An executable command has an option for each value that its request needs, and options for what to do with
the answer. Here are these options, and the steps that run when the command is invoked.
-/

namespace ClientForge.Command

open ClientForge.Graph ClientForge.Plan

/-- The casing of commands and options. -/
def wordCase (o : Options) : Text.Casing := if o.wordSeparator == .snake then .snake else .kebab

def commandName (o : Options) (m : Method) : String := (wordCase o).apply m.simpleName

def optionName (o : Options) (name : String) : String := (wordCase o).apply name

def inputFileOption : String := "input-file"

/-! ### Options for values -/

def primitiveType (name : String) : TypeRef := { name }

/-- The option for the value of a parameter. A body that is an object is given as text, and a stream by the
name of a file. -/
def parameterOption (c : Context) (p : Parameter) : CommandOption :=
  let type := p.type.ref?
  let plain : CommandOption := {
    name := optionName c.options p.name
    source := .path
    parameter := some p
    type
    collection := type.any TypeRef.isCollection
    required := !p.optional
    defaultValue := p.defaultValue
    description := helpText .option p.documentation [] }
  let o : CommandOption := match p.kind with
    | .path => { plain with required := true }
    | .queryParameter => { plain with source := .query }
    | .headers => { plain with source := .header, collection := true }
    | .requestBody =>
      if type.any TypeRef.isStream then { plain with source := .bodyFile, name := inputFileOption }
      else if (type.bind c.graph.classOf).isSome then
        { plain with source := .body, type := some (primitiveType "string"), collection := false }
      else { plain with source := .body }
    | .requestBodyContentType =>
      { plain with
        source := .contentType
        required := false
        defaultValue := p.possibleValues.head?.getD ""
        description := helpText .option p.documentation
          (if p.possibleValues.length > 1 then [allowedValues p.possibleValues] else []) }
    | _ => plain
  { o with
    arity := if o.collection then if o.required then .oneOrMore else .zeroOrMore else .standard }

/-- Keeps the first option of each name. -/
def distinctOptions : (seen : List String) → List CommandOption → List CommandOption
  | _, [] => []
  | seen, o :: os =>
    if seen.contains o.name then distinctOptions seen os
    else o :: distinctOptions (o.name :: seen) os

/-- The parameters that have an option: those of the URL and the headers, and then the body. -/
def optionParameters (generator executor : Method) : List Parameter :=
  generator.parametersOfKinds [.path, .queryParameter, .headers] ++
    (executor.parameterOfKind .requestBody).toList ++
    (executor.parameterOfKind .requestBodyContentType).toList

/-! ### Options for the answer -/

/-- What a request brings back. -/
inductive Answer where
  | nothing
  | stream
  | primitive
  | data
deriving DecidableEq, Repr

def answerOf (executor : Method) : Answer :=
  match executor.returnRef? with
  | none => .nothing
  | some t =>
    if t.isVoid then .nothing
    else if t.isStream then .stream
    else if t.definition.isNone then .primitive
    else .data

def outputOptions (executor : Method) : List CommandOption :=
  match answerOf executor with
  | .stream => [{ name := "output-file", source := .outputFile, type := some (primitiveType "stream") }]
  | .nothing | .primitive => []
  | .data =>
    [{ name := "output", source := .outputFormat, type := some (primitiveType "string"),
        defaultValue := "json" },
      { name := "query", source := .outputFilter, type := some (primitiveType "string") }] ++
      (if executor.paging.isSome then
        [{ name := "all", source := .allPages, type := some (primitiveType "boolean") }]
      else [])

/-- The options of the command that sends the request of a generator and an executor. -/
def options (c : Context) (generator executor : Method) : List CommandOption :=
  let named := (optionParameters generator executor).filter (!Text.isBlankText ·.name)
  distinctOptions [] (named.map (parameterOption c)) ++ outputOptions executor

/-! ### Running a command -/

/-- How a command gets the body of its request: the steps, and the local name for it. -/
def bodySteps (g : Graph) (generator : Method) (body : Parameter) :
    List HandlerStep × List (ParameterId × String) :=
  match body.type.ref? with
  | some t =>
    if (g.classOf t).isSome then
      ([.parseBody body t generator.bodyContentType], [(body.id, "model")])
    else if t.isStream then ([.openInputFile body], [(body.id, "stream")])
    else ([], [])
  | none => ([], [])

def sendSteps (executor : Method) : List HandlerStep :=
  let errorMapping := !executor.errorMappings.isEmpty
  let paged := executor.paging.isSome
  match answerOf executor with
  | .nothing =>
    [.send { variant := .noContent, errorMapping }, .writeOutput .success false paged]
  | .stream =>
    [.send { variant := .primitive, type := some (primitiveType "stream"), errorMapping },
      .writeOutput .stream false paged]
  | .primitive =>
    [.send { variant := .primitive, type := some (primitiveType "stream"), errorMapping },
      .writeOutput .text false paged]
  | .data =>
    match executor.paging with
    | some p => [.sendPaged p.itemName p.nextLinkName errorMapping, .writeOutput .formatted true paged]
    | none =>
      [.send { variant := .primitive, type := some (primitiveType "stream"), errorMapping },
        .writeOutput .formatted true paged]

/-- The steps that run when a command is invoked, and the local names they use. -/
def handlerSteps (g : Graph) (generator executor : Method) :
    Except Failure (List HandlerStep × List (ParameterId × String)) := do
  let body := executor.parameterOfKind .requestBody
  let stream := body.any (isStreamType ·.type)
  if body.isSome && !stream then checkContentType g generator
  let (steps, aliases) := (body.map (bodySteps g generator)).getD ([], [])
  let request : BuildRequest := {
    generator
    body
    contentType := executor.parameterOfKind .requestBodyContentType
    query := generator.parametersOfKinds [.queryParameter]
    path := generator.parametersOfKinds [.path]
    headers := generator.parametersOfKinds [.headers]
    stream }
  pure (steps ++ [.buildRequest request] ++
    (if executor.errorMappings.isEmpty then [] else [.errorMappingTable (errorTable executor)]) ++
    sendSteps executor, aliases)

end ClientForge.Command
