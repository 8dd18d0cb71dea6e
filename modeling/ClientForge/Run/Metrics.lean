import ClientForge.Number.Double
import ClientForge.Output.FileSink

/-!
# Metrics

Counters of what a run did, by target language, and the text in which they are published. Each counter is a
metric with labels; a duration counts into the buckets whose limit it does not exceed.
-/

namespace ClientForge.Run

open ClientForge.Number

inductive Metric where
  | methods
  | duration
  | failures
  | units
deriving DecidableEq, Repr

namespace Metric

/-- All metrics in the order of their names. -/
def all : List Metric := [.methods, .duration, .failures, .units]

def name : Metric → String
  | methods => "apigen_methods_synthesized_total"
  | duration => "apigen_target_duration_seconds"
  | failures => "apigen_target_failures_total"
  | units => "apigen_units_total"

def help : Metric → String
  | methods => "Synthesized method bodies by target language and method kind."
  | duration => "Wall time of one target generation."
  | failures => "Targets whose generation failed."
  | units => "Generated files by target language."

def type : Metric → String
  | duration => "histogram"
  | _ => "counter"

end Metric

/-- A label and its value. -/
abbrev Label := String × String

/-- One thing that happened. -/
inductive Event where
  | units (language : String) (count : Nat)
  | method (language kind : String)
  | failure (language : String)
  | duration (language : String) (milliseconds : Nat)
deriving DecidableEq, Repr

namespace Event

def metric : Event → Metric
  | units .. => .units
  | method .. => .methods
  | failure .. => .failures
  | duration .. => .duration

/-- The labels in the order of their names. -/
def labels : Event → List Label
  | method language kind => [("kind", kind), ("language", language)]
  | units language _ | failure language | duration language _ => [("language", language)]

/-- How much an event counts. -/
def amount : Event → Nat
  | units _ count => count
  | method .. | failure _ | duration .. => 1

end Event

/-- The events of a run in the order in which they happened. -/
structure Recorder where
  events : List Event := []
deriving DecidableEq, Repr

/-- A counter with its value. -/
structure Sample where
  metric : Metric
  labels : List Label
  value : Nat
deriving DecidableEq, Repr

namespace Recorder

def add (r : Recorder) (e : Event) : Recorder := ⟨r.events ++ [e]⟩

def addAll (r : Recorder) (es : List Event) : Recorder := ⟨r.events ++ es⟩

/-- The events that a metric counts under some labels. -/
def eventsOf (r : Recorder) (metric : Metric) (labels : List Label) : List Event :=
  r.events.filter fun e => e.metric == metric && e.labels == labels

def count (r : Recorder) (metric : Metric) (labels : List Label) : Nat :=
  ((r.eventsOf metric labels).map Event.amount).foldl (· + ·) 0

/-- The values of labels, which decide their order. -/
def valuesLe (a b : List Label) : Bool :=
  !(List.lex (b.map (·.2)) (a.map (·.2)) fun s t => decide (s < t))

/-- The labels that a metric was counted under, in order, each once. -/
def labelsOf (r : Recorder) (metric : Metric) : List (List Label) :=
  let found := (r.events.filter (·.metric == metric)).map Event.labels
  found.eraseDups.mergeSort valuesLe

/-- All counters, by metric and then by labels. -/
def samples (r : Recorder) : List Sample :=
  Metric.all.flatMap fun m => (r.labelsOf m).map fun labels => ⟨m, labels, r.count m labels⟩

/-! ### Text -/

def labelChar (c : Char) : List Char :=
  if c = '"' then ['\\', '"'] else if c = '\\' then ['\\', '\\'] else if c = '\n' then ['\\', 'n'] else [c]

def labelText (l : Label) : String :=
  l.1 ++ "=\"" ++ String.ofList (l.2.toList.flatMap labelChar) ++ "\""

def sampleLine (name : String) (labels : List Label) (value : String) : String :=
  name ++ "\x7b" ++ ",".intercalate (labels.map labelText) ++ "\x7d " ++ value

/-- A number with double precision. -/
def numberText (d : Decimal) : String := ((Double.ofDecimal d).map fun x => x.shortest.general).getD "+Inf"

def countText (n : Nat) : String := numberText ⟨false, n, 0⟩

/-- A number of milliseconds in seconds. -/
def seconds (milliseconds : Nat) : String := numberText ⟨false, milliseconds, -3⟩

/-- The limits of the buckets for durations, in milliseconds. -/
def limits : List Nat := [5, 10, 25, 50, 100, 250, 500, 1000, 2500, 5000, 10000]

def durationOf : Event → Nat
  | .duration _ milliseconds => milliseconds
  | _ => 0

/-- The lines for the durations under some labels: how many are within each limit, their sum and number. -/
def durationLines (r : Recorder) (labels : List Label) : List String :=
  let name := Metric.duration.name
  let found := (r.eventsOf .duration labels).map durationOf
  let bucket (limit : String) (count : Nat) :=
    sampleLine (name ++ "_bucket") (labels ++ [("le", limit)]) (countText count)
  limits.map (fun limit => bucket (seconds limit) (found.filter (· ≤ limit)).length) ++
    [bucket "+Inf" found.length, sampleLine (name ++ "_sum") labels (seconds (found.foldl (· + ·) 0)),
      sampleLine (name ++ "_count") labels (countText found.length)]

def metricLines (r : Recorder) (m : Metric) : List String :=
  match r.labelsOf m with
  | [] => []
  | found =>
    ["# HELP " ++ m.name ++ " " ++ m.help, "# TYPE " ++ m.name ++ " " ++ m.type] ++
      found.flatMap fun labels =>
        if m = .duration then r.durationLines labels
        else [sampleLine m.name labels (countText (r.count m labels))]

/-- The metrics as a text. -/
def text (r : Recorder) : String :=
  String.join ((Metric.all.flatMap r.metricLines).map (· ++ "\n"))

open Output in
/-- Writes the metrics to the place of a path, in a directory that is there. -/
def save (r : Recorder) (path : String) (place : Place) : TrailAction Unit := do
  let d := (← get).disk
  let failure (why : Obstacle) : Failure :=
    .within ("write metrics " ++ path) (.cause (.system ("open " ++ path ++ ": " ++ why.message)))
  match d.get? place.dropLast, d.get? place with
  | some .directory, some .directory => throw (failure .taken)
  | some .directory, _ => TrailAction.change [.fill place r.text 0o644]
  | some (.file ..), _ => throw (failure .notDirectory)
  | none, _ => throw (failure .missing)

end Recorder

end ClientForge.Run
