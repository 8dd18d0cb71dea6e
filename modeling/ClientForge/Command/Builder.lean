import ClientForge.Command.Option
import ClientForge.Plan.Engine

/-!
# Command builders

A command builder is the root of the client, gives the commands of an indexer's items, navigates to another
request builder, or runs a request. Before it creates a command it looks for one to use again: first among
the builders of the indexer's target, then among its siblings that navigate, so that names stay unique.
-/

namespace ClientForge.Command

open ClientForge.Graph ClientForge.Plan

/-! ### Kinds of builders -/

/-- Whether a builder's command runs a request. -/
def isExecutable (g : Graph) (m : Method) : Bool :=
  m.http.isSome || (g.representedMethod m).any (·.http.isSome)

/-- Whether a builder gives lists of commands and not a single one. -/
def returnsItems (m : Method) : Bool :=
  m.representedIndexer.isSome || m.returnRef?.any TypeRef.isCollection

def isRootBuilder (g : Graph) (m : Method) : Bool :=
  m.isCommandBuilder && (g.representedMethod m).any (·.kind == .clientConstructor)

def hasName (m : Method) : Bool := !Text.isBlankText m.simpleName

/-- Whether two builders have the same name but for case. -/
def sameName (m n : Method) : Bool := Text.foldEq m.simpleName n.simpleName

def subCommand (builder : Option String) (m : Method) : SubCommand := ⟨builder, m, returnsItems m⟩

/-- Creates the builder for a class from the path parameters at hand. -/
def builderLocal (cls : ClassDef) (m : Method) (name : String) (target : ClassDef) : Operation :=
  .command (.instantiateBuilder
    ⟨name, target, cls.propertyOfKind .pathParameters, m.parametersOfKinds [.path]⟩)

/-- Adds sub-commands, a builder's own before those of items. Containers are sorted where items join. -/
def addCommands (subs : List SubCommand) : List Operation :=
  if subs.isEmpty then []
  else [.command (.addSubCommands {
    commands := subs.filter (!·.items) ++ subs.filter (·.items)
    sortContainers := subs.any (·.items) })]

/-! ### Using commands again -/

/-- The container of the indexer's target that has the name of a builder. -/
def indexerMatch (m : Method) (target : ClassDef) : Option Method :=
  target.methods.find? fun t => t.isCommandBuilder && !returnsItems t && t.http.isNone && sameName t m

/-- The sibling that navigates under the name of a builder. One that navigates itself looks only at those
declared before it, so that no two use each other's command. -/
def navigationMatch (cls : ClassDef) (m : Method) : Option Method :=
  if !hasName m then none
  else
    let siblings :=
      if m.accessedProperty.isSome then cls.methods.takeWhile (·.id != m.id)
      else cls.methods.filter (·.id != m.id)
    siblings.find? fun o => o.isCommandBuilder && o.accessedProperty.isSome && sameName o m

/-- How a builder shares commands with the target of its class's indexer. -/
structure Sharing where
  /-- What establishes the command. -/
  operations : List Operation
  /-- The commands of the target that go under the same name. -/
  included : List SubCommand

def indexerVariable (x : Indexer) : String := Text.Casing.camel.apply x.name ++ "Builder"

/-- The command of a builder that uses none again. -/
def freshCommand (c : Context) (m : Method) : InitCommand := {
  source := .fresh
  name := commandName c.options m
  description := helpText .command m.documentation [] }

/-- The command of a builder inside its class: that of a sibling that navigates under its name, or a new
one. -/
def ownCommand (c : Context) (cls : ClassDef) (m : Method) : InitCommand :=
  match navigationMatch cls m with
  | some n => { freshCommand c m with source := .fromNavigation, reused := some n }
  | none => freshCommand c m

/-- Establishes the command of a builder, with what the indexer's target has under its name. -/
def shared (c : Context) (cls : ClassDef) (m : Method) : Except Failure Sharing := do
  let x ← ofViolation (c.graph.indexerOf cls)
  match x.bind fun x => (c.graph.indexerTarget x).map (x, ·) with
  | none => pure ⟨[.command (.initCommand (ownCommand c cls m))], []⟩
  | some (x, target) =>
    if !hasName m then pure ⟨[.command (.initCommand (ownCommand c cls m))], []⟩
    else
      let name := indexerVariable x
      let matched := indexerMatch m target
      let included := (target.methods.filter fun t =>
        some t.id != matched.map (·.id) && t.isCommandBuilder && sameName t m).map (subCommand (some name))
      let init : InitCommand := match matched with
        | some t =>
          { freshCommand c m with
            source := .fromIndexer, indexer := some x, builder := some target, reused := some t }
        | none => ownCommand c cls m
      let builders := if matched.isSome || !included.isEmpty then [builderLocal cls m name target] else []
      pure ⟨builders ++ [.command (.initCommand init)], included⟩

/-! ### Bodies -/

def rootBody (cls : ClassDef) (m : Method) : Body :=
  let others := cls.methods.filter fun o => o.id != m.id && o.isCommandBuilder
  { method := m
    operations :=
      [.command (.initCommand { source := .root, description := helpText .command m.documentation [] })] ++
        (if others.isEmpty then []
          else [.command (.addSubCommands { commands := others.map (subCommand none), direct := true })]) ++
        [.command .returnCommand] }

/-- The builders of the indexer's target whose name no builder of the class has. -/
def itemBuilders (cls target : ClassDef) : List Method :=
  let taken := (cls.commandBuilders.filter hasName).map fun o => Text.lower o.simpleName
  target.commandBuilders.filter fun t => !taken.contains (Text.lower t.simpleName)

def itemsBody (c : Context) (cls : ClassDef) (m : Method) (x : Indexer) : Except Failure Body :=
  match c.graph.indexerTarget x with
  | none => structural .indexerWithoutBuilder (c.graph.methodName m)
  | some target =>
    let builders := itemBuilders cls target
    .ok {
      method := m
      operations :=
        (if builders.isEmpty then [] else [builderLocal cls m "builder" target]) ++
          [.command (.returnItemCommands {
            builder := "builder"
            executables := builders.filter (·.http.isSome)
            containers := builders.filter (·.http.isNone) })] }

/-- The name by which builders are grouped. -/
def groupKey (m : Method) : String := Text.lower m.simpleName

/-- Builders by name, in the order in which the names first occur. -/
def groupByName (ms : List Method) : List (String × List Method) :=
  (ms.map groupKey).eraseDups.map fun key => (key, ms.filter (groupKey · == key))

/-- Of builders with one name those that do not navigate, or else the first. -/
def keptOf (group : List Method) : List Method :=
  match group with
  | [m] => [m]
  | group =>
    match group.filter (·.accessedProperty.isNone) with
    | [] => group.take 1
    | kept => kept

/-- The builders that a navigation leads to. -/
def childBuilders (target : ClassDef) : List Method :=
  (groupByName (target.methodsOfKind .commandBuilder)).flatMap fun group => keptOf group.2

/-- The class that a builder navigates to. -/
def navigationTarget (g : Graph) (m : Method) : Option ClassDef :=
  let type := match g.accessedProperty m with
    | some p => p.ref?
    | none => (g.representedMethod m).bind Method.returnRef?
  type.bind g.classOf

def navigationBody (c : Context) (cls : ClassDef) (m : Method) : Except Failure Body := do
  let target := navigationTarget c.graph m
  let children := (target.map childBuilders).getD []
  let sharing ← shared c cls m
  let builders := match target with
    | some target => if children.isEmpty then [] else [builderLocal cls m "builder" target]
    | none => []
  pure {
    method := m
    operations :=
      sharing.operations ++ builders ++
        addCommands (children.map (subCommand (some "builder")) ++ sharing.included) ++
        [.command .returnCommand] }

def executableBody (c : Context) (cls : ClassDef) (m : Method) : Except Failure Body := do
  match (c.graph.representedMethod m).filter (·.kind == .requestExecutor) with
  | none => structural .missingExecutor (c.graph.methodName m)
  | some executor =>
    let generator ← ofViolation (c.graph.generatorOf m)
    let sharing ← shared c cls m
    let (steps, aliases) ← handlerSteps c.graph generator executor
    pure {
      method := m
      operations :=
        sharing.operations ++ addCommands sharing.included ++
          (options c generator executor).map (.command <| .addOption ·) ++
          [.command (.handler steps), .command .returnCommand]
      aliases }

/-- Plans the body of a command builder. -/
def commandBuilder (c : Context) (cls : ClassDef) (m : Method) : Except Failure Body :=
  if !m.isCommandBuilder then structural .notCommandBuilder (c.graph.methodName m)
  else if m.http.isSome then executableBody c cls m
  else if isRootBuilder c.graph m then .ok (rootBody cls m)
  else match c.graph.representedIndexer m with
    | some x => itemsBody c cls m x
    | none => navigationBody c cls m

/-- Remarks on the groups of builders under one name that a navigation leads to. -/
def skippedBuilders (c : Context) (_ : ClassDef) (m : Method) : List Warning :=
  if m.http.isSome || isRootBuilder c.graph m || (c.graph.representedIndexer m).isSome then []
  else match navigationTarget c.graph m with
    | none => []
    | some target =>
      ((groupByName (target.methodsOfKind .commandBuilder)).filter (·.2.length > 1)).map fun (name, group) =>
        ⟨"skipping ambiguous sub-commands",
          [("command", .text (commandName c.options m)), ("name", .text name),
            ("skipped", .number (group.length - (keptOf group).length : Nat))]⟩

/-- The handlers for the command-line target. -/
def commandHandlers : Handlers :=
  Handlers.set defaultHandlers .commandBuilder (some { body := commandBuilder, warnings := skippedBuilders })

end ClientForge.Command
