import ClientForge.Graph.Validation
import ClientForge.Run.Target

/-!
# Generation

A run generates all of its targets, each into a sink of its own. A target that fails does not keep the others
from being generated.
-/

namespace ClientForge.Run

open ClientForge.Output

structure Report where
  /-- The results in the order in which the targets are asked for. -/
  targets : List TargetResult
deriving Repr

/-- The failures of all targets together. -/
def Report.failure (r : Report) : Option Failure :=
  let failures := r.targets.filterMap fun t => t.failure.map (.within ("target " ++ t.language))
  if failures.isEmpty then none else some (.joined failures)

/-- A job for settings and a document, if both are there and the graph follows the rules. -/
def Job.create (settings : Option Settings) (source : Option Document.Source) (format : Render.Formatter)
    (version : String) (cancelled writes : Bool) : Except Failure Job :=
  match settings, source with
  | none, _ => .error (.cause .noSettings)
  | some _, none => .error (.cause .noGraph)
  | some settings, some source =>
    match source.graph.violations with
    | [] =>
      .ok { settings, source, format, cancelled, writes, version := if version.isEmpty then "devel" else version }
    | vs =>
      .error (.hinted "the graph must be fixed upstream before generation"
        (.within ("element graph has " ++ toString vs.length ++ " structural errors")
          (.joined (vs.map fun v => .cause (.structural v)))))

/-- What there is to remark on before the first target. -/
def Job.remarks (job : Job) : List LogEntry :=
  let root := job.source.graph.root.name
  let expected := job.settings.namespaceName
  if root = expected then []
  else [.warn "root namespace differs from the configured client namespace"
    [("root", .text root), ("client_namespace_name", .text expected)]]

/-- Everything that comes out of a run. -/
structure Generation where
  report : Report
  /-- A cancelled run is a failure, whatever its targets did. -/
  failure : Option Failure
  log : List LogEntry
  events : List Event

/-- What comes out of a job whose targets are done. -/
def Generation.ofRuns (job : Job) (runs : List TargetRun) : Generation where
  report := ⟨runs.map (·.result)⟩
  failure := if job.cancelled then some (.cause .cancelled) else none
  log := job.remarks ++ runs.flatMap (·.log)
  events := runs.flatMap (·.events)

section Run

variable {σ : Type} (job : Job) (sinks : (directory : String) → Sink σ)

/-- Generates targets one after the other. -/
def Job.runTargets : List Target → σ → List TargetRun × σ
  | [], state => ([], state)
  | t :: ts, state =>
    let (r, state) := job.runTarget (sinks t.directory) t state
    let (rs, state) := runTargets ts state
    (r :: rs, state)

/-- Generates all targets of a job. -/
def Job.run (state : σ) : Generation × σ :=
  let (runs, state) := job.runTargets sinks job.targets state
  (.ofRuns job runs, state)

end Run

end ClientForge.Run
