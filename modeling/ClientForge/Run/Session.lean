import ClientForge.Run.Generation
import ClientForge.Settings.Load

/-!
# Sessions

A session is a run as it is started from a command line: flags name the settings file and the document and
override settings, every target gets a line in the end, and metrics go to a file if one is named.
-/

namespace ClientForge.Run

open ClientForge.Output

/-- What is given on the command line. -/
structure Flags where
  settingsFile : String := ""
  document : String := ""
  languages : List String := []
  output : String := ""
  /-- Overrides in the form of a key, an equals sign and a value. -/
  set : List String := []
  clean : Bool := false
  metricsFile : String := ""
  /-- Whether files are written, and not only drafted. -/
  writes : Bool := true
deriving DecidableEq, Repr

/-- An override, unless its value is empty. -/
def overrideFor (key value : String) : List String := if value.isEmpty then [] else [key ++ "=" ++ value]

/-- All overrides that the flags stand for. -/
def Flags.overrides (f : Flags) : List String :=
  overrideFor "document" f.document ++ f.languages.map ("languages=" ++ ·) ++
    overrideFor "output_path" f.output ++ f.set ++ if f.clean then ["clean_output=true"] else []

/-- Loads the settings of a session, which have to name a document. -/
def Flags.settings (f : Flags) (env : Settings.Environment) (text : Option String) :
    Except Failure Settings := do
  let file := if f.settingsFile.isEmpty then none else some ⟨f.settingsFile, text⟩
  let s ← Settings.load file env f.overrides
  if s.document.isEmpty then
    throw (.hinted "pass --document or set document in the config file" (.cause .noDocument))
  pure s

/-- Decodes the document at a path, if there is one. -/
def documentOf (path : String) : Option String → Except Failure Document.Source
  | some text => inContext ("decode " ++ path) (Document.decode text)
  | none =>
    .error (.within "read IR document"
      (.cause (.system ("open " ++ path ++ ": " ++ Obstacle.missing.message))))

/-- The line for a target. -/
def TargetResult.summary (r : TargetResult) : String :=
  match r.failure with
  | some failure => "✗ " ++ r.language ++ ": " ++ failure.message
  | none =>
    "✓ " ++ r.language ++ ": " ++ toString r.units ++ " files, " ++ toString r.methods ++ " methods" ++
      if r.commands > 0 then ", " ++ toString r.commands ++ " commands" else ""

/-- The root of the sink for a directory below the output path. -/
def rootOf (s : Settings) (directory : String) : String := Text.Path.append s.outputPath directory

/-- The roots of the sinks of all targets. -/
def rootsOf (s : Settings) : List String := (targetsOf s).map fun t => rootOf s t.directory

/-! ### On a disk -/

/-- What a session finds besides files. -/
structure Host where
  env : Settings.Environment
  /-- What lays out Go files. -/
  format : Render.Formatter := Render.asWritten
  version : String
  /-- The directory that relative paths start from. -/
  directory : String := "/"

/-- Where a path leads. -/
def Host.place (h : Host) (path : String) : Place := placeOf (Text.Path.absolute h.directory path)

/-- The text of a file. -/
def Host.textAt (h : Host) (d : Disk) (path : String) : Option String :=
  match d.get? (h.place path) with
  | some (.file content _) => some content
  | _ => none

/-- The sink for a directory below the output path. -/
def Host.sink (h : Host) (s : Settings) (directory : String) : FileSink where
  root := rootOf s directory
  workingDirectory := h.directory

/-- What a session leaves behind besides files. -/
structure Session where
  /-- The lines for the targets. -/
  lines : List String := []
  log : List LogEntry := []
  failure : Option Failure := none

/-- Settles what a session works on. -/
def Flags.job (f : Flags) (h : Host) (d : Disk) : Except Failure Job := do
  let s ← f.settings h.env (h.textAt d f.settingsFile)
  let source ← documentOf s.document (h.textAt d s.document)
  Job.create (some s) (some source) h.format h.version false f.writes

/-- Writes the metrics of a session, if that is asked for. -/
def Flags.saveMetrics (f : Flags) (h : Host) (g : Generation) : TrailAction Unit :=
  if f.metricsFile.isEmpty then pure () else Recorder.save ⟨g.events⟩ f.metricsFile (h.place f.metricsFile)

/-- A whole session on a disk, whose changes are noted. -/
def Flags.run (f : Flags) (h : Host) (d : Disk) : Session × Trail :=
  match f.job h d with
  | .error failure => ({ failure := some failure }, ⟨d, []⟩)
  | .ok job =>
    let (g, t) := job.run (fun dir => (h.sink job.settings dir).notedSink) ⟨d, []⟩
    let (saved, t) := (f.saveMetrics h g).run.run t
    ({ lines := g.report.targets.map (·.summary)
       log := g.log
       failure := (failureOf saved).or g.report.failure }, t)

end ClientForge.Run
