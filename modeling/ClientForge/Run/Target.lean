import ClientForge.Command.Tree
import ClientForge.Document.Decode
import ClientForge.Render.Emission
import ClientForge.Run.Lock
import ClientForge.Run.Log
import ClientForge.Run.Metrics
import ClientForge.Settings.Basic

/-!
# Targets

A run has a target for every language that is asked for. First the files of a target are drafted, and only
if that succeeds is anything done to its sink: it is cleaned if that is asked for, then it gets the files,
and at last the lock file. A step that fails is the last one.
-/

namespace ClientForge.Run

open ClientForge.Graph ClientForge.Plan ClientForge.Convention ClientForge.Output

/-- What all targets of a run have in common. -/
structure Job where
  settings : Settings
  source : Document.Source
  /-- What lays out Go files. -/
  format : Render.Formatter := Render.asWritten
  /-- The version of the generator that lock files name. -/
  version : String := "devel"
  /-- Whether the run was cancelled before it began. -/
  cancelled : Bool := false
  /-- Whether files are written, and not only drafted. -/
  writes : Bool := true

structure Target where
  language : String
  /-- The directory below the output path. -/
  directory : String
deriving DecidableEq, Repr

/-- The targets that settings ask for. Several of them get a directory each. -/
def targetsOf (s : Settings) : List Target :=
  match s.targets with
  | [language] => [⟨language, ""⟩]
  | languages => languages.map fun language => ⟨language, language⟩

def Job.targets (job : Job) : List Target := targetsOf job.settings

/-! ### Drafting -/

/-- What became of drafting: the methods whose bodies were planned, in order, the number of commands, and the
files. -/
structure Draft where
  planned : List Method := []
  commands : Nat := 0
  files : Except Failure (List Render.SourceFile)

/-- The form in which a target is rendered. Only the exact name of a language selects its own. -/
def formOf (t : Target) : Language := (Language.spelled? t.language).getD .csharp

def handlersOf (form : Language) : Handlers :=
  if Render.hasCommands form then Command.commandHandlers else defaultHandlers

/-- The engine of a target. -/
def Job.engine (job : Job) (t : Target) : Except Failure Engine := do
  let language ← Language.named t.language
  Engine.create (some ⟨job.source.graph, language.policy, job.settings.options⟩) (handlersOf (formOf t))

/-- How many commands a target has, if it has any, with the methods planned to find out. -/
def commandsOf (form : Language) (e : Engine) : Except Failure Nat × List Method :=
  if Render.hasCommands form then
    let (tree, planned) := (Command.assemble e).run.run []
    (inContext "assemble command tree" (tree.map Command.Node.count), planned.reverse)
  else (.ok 0, [])

/-- How the files of a target are written. -/
def Job.renderer (job : Job) (t : Target) : Render.Renderer :=
  .forLanguage job.settings.importPath job.format (formOf t)

/-- Drafts the files of a target. -/
def Job.draft (job : Job) (t : Target) (e : Engine) : Draft :=
  let (commands, assembled) := commandsOf (formOf t) e
  match commands with
  | .error failure => { planned := assembled, files := .error failure }
  | .ok commands =>
    let (files, emitted) := (Render.emit (job.renderer t) e job.cancelled).run.run []
    { planned := assembled ++ emitted.reverse, commands, files }

/-- Remembers a method, unless one of its identity is remembered. -/
def remember (seen : List Method) (m : Method) : List Method :=
  if seen.any (·.id == m.id) then seen else seen ++ [m]

/-- The methods whose bodies could be planned, each once. -/
def countedMethods (e : Engine) (planned : List Method) : List Method :=
  (planned.filter fun m => (e.synthesize m).isOk).foldl remember []

/-! ### Writing -/

/-- What is done to the sink of a target. -/
inductive Action where
  | clean
  | write (path content : String)
deriving DecidableEq, Repr

def Job.lock (job : Job) (language : String) : Lock where
  version := job.version
  language := language
  className := job.settings.className
  namespaceName := job.settings.namespaceName
  hash := job.source.hash
  usesBackingStore := job.settings.usesBackingStore
  serializers := job.settings.serializers
  deserializers := job.settings.deserializers

/-- Everything that is done for the files of a target, in order. -/
def Job.actions (job : Job) (t : Target) (files : List Render.SourceFile) : List Action :=
  if job.writes then
    (if job.settings.cleanOutput then [.clean] else []) ++
      files.map (fun f => .write f.path f.content) ++ [.write Lock.path (job.lock t.language).text]
  else []

section Perform

variable {σ : Type} (s : Sink σ) (cancelled : Bool)

/-- A sink that cannot be cleaned stays as it is. -/
def Action.perform : Action → Deed σ
  | .clean =>
    match s.clean with
    | none => fun state => (.ok (), state)
    | some discard => fun state =>
      let (outcome, state) := discard cancelled state
      (inContext "clean output" outcome, state)
  | .write path content => s.write cancelled path content

/-- Performs actions up to the first that fails. -/
def performAll : List Action → Deed σ
  | [], state => (.ok (), state)
  | a :: rest, state =>
    match a.perform s cancelled state with
    | (.ok (), state) => performAll rest state
    | (.error failure, state) => (.error failure, state)

end Perform

/-! ### Results -/

/-- The result of one target. -/
structure TargetResult where
  language : String
  directory : String
  units : Nat := 0
  methods : Nat := 0
  commands : Nat := 0
  /-- How long it took, where that is measured. -/
  milliseconds : Nat := 0
  failure : Option Failure := none
deriving Repr

/-- The result of a target with what there is to log and the methods that were counted. -/
structure TargetRun where
  result : TargetResult
  log : List LogEntry
  methods : List Method

/-- The failure of a computation. -/
def failureOf {α : Type} : Except Failure α → Option Failure
  | .ok _ => none
  | .error failure => some failure

/-- What there is to count. -/
def TargetRun.events (r : TargetRun) : List Event :=
  let language := r.result.language
  r.methods.map (fun m => .method language m.kind.name) ++
    [.duration language r.result.milliseconds,
      if r.result.failure.isSome then .failure language else .units language r.result.units]

/-- The entry for the end of a target. -/
def TargetResult.closing (r : TargetResult) : LogEntry :=
  match r.failure with
  | some failure => .error "target failed" [("error", .text failure.message)]
  | none => .info "target done" [("units", .number r.units), ("methods", .number r.methods)]

def Job.openingEntry (job : Job) : LogEntry := .info "generating target" [("write", .truth job.writes)]

/-- The entries for planning bodies. -/
def planningLog (e : Engine) (planned : List Method) : List LogEntry :=
  (planned.flatMap e.warnings).map fun w => .warn w.message w.fields

/-- A target once it is drafted: its result so far, and what is still to be done. -/
structure Prepared where
  result : TargetResult
  log : List LogEntry := []
  methods : List Method := []
  actions : List Action := []

/-- Drafts a target. One that cannot be drafted leaves nothing to be done. -/
def Job.prepare (job : Job) (t : Target) : Prepared :=
  let blank : TargetResult := { language := t.language, directory := t.directory }
  match job.engine t with
  | .error failure => { result := { blank with failure := some failure }, log := [job.openingEntry] }
  | .ok e =>
    let draft := job.draft t e
    let methods := countedMethods e draft.planned
    let log := job.openingEntry :: planningLog e draft.planned
    let counted := { blank with methods := methods.length, commands := draft.commands }
    match draft.files with
    | .error failure => { result := { counted with failure := some failure }, log, methods }
    | .ok files =>
      { result := { counted with units := files.length }, log, methods, actions := job.actions t files }

/-- The entry for a sink that cannot be cleaned. -/
def Prepared.cleaningLog (p : Prepared) (cleanable : Bool) : List LogEntry :=
  if p.actions.contains .clean && !cleanable then [.warn "sink cannot be cleaned; stale files are kept" []]
  else []

/-- What becomes of a target by what became of its actions. -/
def Prepared.conclude (p : Prepared) (cleanable : Bool) (outcome : Except Failure Unit) : TargetRun :=
  let r := { p.result with failure := p.result.failure.or (failureOf outcome) }
  let log := p.log ++ p.cleaningLog cleanable ++ [r.closing]
  ⟨r, log.map (.withField "language" (.text r.language)), p.methods⟩

/-- Generates a target. -/
def Job.runTarget {σ : Type} (job : Job) (s : Sink σ) (t : Target) (state : σ) : TargetRun × σ :=
  let p := job.prepare t
  let (outcome, state) := performAll s job.cancelled p.actions state
  (p.conclude s.clean.isSome outcome, state)

end ClientForge.Run
