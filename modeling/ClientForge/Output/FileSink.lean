import ClientForge.Output.Disk
import ClientForge.Output.Sink

/-!
# File sinks

A file sink writes below a root directory of a disk. A file is first written beside its destination under a
name of its own and then put in its place at one stroke, so that its destination holds either what it held
before or all of the new content. What can go wrong on the way is given from outside: any step may fail, and
the run may be cancelled before the first or before the last step.
-/

namespace ClientForge.Output

structure FileSink where
  root : String
  /-- The permissions of files. Zero stands for reading by all and writing by the owner. -/
  mode : Nat := 0o644
  /-- Whether files that exist are replaced. -/
  overwrite : Bool := true
  /-- The directory that a relative root starts from. -/
  workingDirectory : String := "/"

/-- The steps at which the system may fail. -/
inductive Step where
  | makeDirectories
  | createTemporary
  | write
  | close
  | setMode
  | rename
  | link
deriving DecidableEq, Repr

/-- How a step fails. -/
structure Fault where
  /-- What the system says. -/
  why : String
  /-- How many directories were made by then, or how many characters written. -/
  progress : Nat := 0

/-- What happens around a write. -/
structure Circumstances where
  /-- The steps that fail. -/
  fault : Step → Option Fault := fun _ => none
  cancelled : Bool := false
  /-- Whether the run is cancelled by the time the temporary file is complete. -/
  cancelledLater : Bool := false
  /-- The number from which on a free name for the temporary file is sought. -/
  draw : Nat := 0

namespace FileSink

variable (s : FileSink)

/-- The root as an absolute path in its shortest form. -/
def absoluteRoot : String := Text.Path.absolute s.workingDirectory s.root

/-- The absolute path for a path below the root. -/
def resolve (root path : String) : Except Failure String :=
  let full := Text.Path.append root path
  if full != root && !Text.startsWith full (root ++ "/") then .error (.cause (.escapingPath path))
  else .ok full

def fileMode : Nat := if s.mode = 0 then 0o644 else s.mode

/-- A name for a temporary file. -/
def temporaryName (n : Nat) : String := ".apigen-" ++ toString n ++ ".tmp"

/-- A place in a directory where nothing is, from some number on. One of the next names is free. -/
def freshPlace (d : Disk) (dir : Place) (draw : Nat) : Place :=
  let numbers := (List.range (d.entries.length + 1)).map (draw + ·)
  let free := numbers.find? fun n => (d.get? (dir ++ [temporaryName n])).isNone
  dir ++ [temporaryName (free.getD draw)]

/-- A number whose name is longer than a path, so that the path does not ask for it. -/
def drawFor (path : String) : Nat := Nat.pow 10 path.length

end FileSink

/-! ### Steps -/

/-- Steps on a disk. A failure leaves the disk as it is by then. -/
abbrev DiskAction := ExceptT Failure (StateM Disk)

/-- A disk, and the changes that led to it. -/
structure Trail where
  disk : Disk
  changes : List Change := []

def Trail.after (t : Trail) (changes : List Change) : Trail :=
  ⟨t.disk.applyAll changes, t.changes ++ changes⟩

/-- Steps on a disk whose changes are noted. -/
abbrev TrailAction := ExceptT Failure (StateM Trail)

/-- A step that fails if the system does, or if something is in its way. -/
structure Stage where
  step : Step
  /-- What is said in front of a failure. -/
  context : String
  call : String
  /-- The changes that the step makes, unless something is in its way. -/
  changes : Disk → Except Obstacle (List Change)
  /-- The changes that are made by the time the system fails. -/
  begun : Disk → (progress : Nat) → List Change := fun _ _ => []

def Stage.failure (g : Stage) (why : String) : Failure :=
  .within g.context (.cause (.system (g.call ++ ": " ++ why)))

namespace TrailAction

def change (changes : List Change) : TrailAction Unit := modify (·.after changes)

def attempt (c : Circumstances) (g : Stage) : TrailAction Unit := do
  let d := (← get).disk
  match c.fault g.step with
  | some fault =>
    change (g.begun d fault.progress)
    throw (g.failure fault.why)
  | none =>
    match g.changes d with
    | .ok changes => change changes
    | .error obstacle => throw (g.failure obstacle.message)

/-- Does something, and removes a file if that fails. -/
def orDiscard (at_ : Place) (x : TrailAction Unit) : TrailAction Unit :=
  tryCatch x fun failure => do
    change [.remove at_]
    throw failure

/-- Does something to a disk without noting the changes. -/
def unnoted (x : TrailAction Unit) : DiskAction Unit := ExceptT.mk fun d =>
  let (outcome, t) := x.run.run ⟨d, []⟩
  (outcome, t.disk)

end TrailAction

/-! ### Writing -/

namespace FileSink

open TrailAction

variable (s : FileSink) (c : Circumstances)

/-- Makes the directories on the way to a place and the place itself one, from the top down. -/
def directoryStage (dir : Place) : Stage where
  step := .makeDirectories
  context := "create directories"
  call := "mkdir " ++ pathOf dir
  changes d := d.makingDirectories dir
  begun d progress := ((d.missing dir).take progress).map .makeDirectory

def creationStage (dir temporary : Place) : Stage where
  step := .createTemporary
  context := "create temp file"
  call := "open " ++ pathOf temporary
  changes d := d.creating dir temporary

/-- Fills a temporary file. A part of the content may be in it when that fails. -/
def contentStage (temporary : Place) (content : String) : Stage where
  step := .write
  context := "write temp file"
  call := "write " ++ pathOf temporary
  changes _ := .ok [.fill temporary content 0o600]
  begun _ progress := [.fill temporary (String.ofList (content.toList.take progress)) 0o600]

def closingStage (temporary : Place) : Stage where
  step := .close
  context := "close temp file"
  call := "close " ++ pathOf temporary
  changes _ := .ok []

def modeStage (temporary : Place) (content : String) : Stage where
  step := .setMode
  context := "set file mode"
  call := "chmod " ++ pathOf temporary
  changes _ := .ok [.fill temporary content s.fileMode]

def renamingStage (temporary full : Place) : Stage where
  step := .rename
  context := "rename temp file"
  call := "rename " ++ pathOf temporary ++ " " ++ pathOf full
  changes d := d.moving temporary full

def linkingStage (temporary full : Place) : Stage where
  step := .link
  context := "create file"
  call := "link " ++ pathOf temporary ++ " " ++ pathOf full
  changes d := d.linking temporary full

/-- Completes a temporary file. -/
def fillTemporary (temporary : Place) (content : String) : TrailAction Unit := do
  attempt c (contentStage temporary content)
  attempt c (closingStage temporary)
  attempt c (modeStage s temporary content)
  if c.cancelledLater then throw (.cause .cancelled)

/-- Puts a temporary file in its place. A file that is there is only replaced if it may be. -/
def publish (path : String) (temporary full : Place) : TrailAction Unit := do
  if s.overwrite then attempt c (renamingStage temporary full)
  else if ((← get).disk.get? full).isSome && (c.fault .link).isNone then
    throw (.cause (.existingFile path))
  else do
    attempt c (linkingStage temporary full)
    change [.remove temporary]

/-- Writes a file to a place: beside it first, and then at one stroke. -/
def writeTo (path content : String) (place : Place) : TrailAction Unit := do
  let dir := place.dropLast
  attempt c (directoryStage dir)
  let temporary := freshPlace (← get).disk dir c.draw
  attempt c (creationStage dir temporary)
  orDiscard temporary do
    fillTemporary s c temporary content
    publish s c path temporary place

/-- Writes a file below the root. -/
def writing (path content : String) : TrailAction Unit := do
  ExceptT.mk (pure (checkWrite c.cancelled path))
  let full ← ExceptT.mk (pure (resolve s.absoluteRoot path))
  writeTo s c path content (placeOf full)

def writeFile (path content : String) : DiskAction Unit := unnoted (writing s c path content)

/-! ### Cleaning -/

/-- Removes everything below the root, but not the root. -/
def cleaning (cancelled : Bool) : TrailAction Unit := do
  if Text.isBlankText s.root then throw (.cause .emptyRoot)
  let root := placeOf s.absoluteRoot
  let d := (← get).disk
  match d.get? root with
  | none => pure ()
  | some (.file _ _) =>
    throw (.within "clean" (.cause (.system ("fdopendir " ++ s.root ++ ": " ++ Obstacle.notDirectory.message))))
  | some .directory =>
    let names := d.names root
    if cancelled && !names.isEmpty then throw (.cause .cancelled)
    change (names.flatMap fun name => d.clearing (root ++ [name]))

def cleanRoot (cancelled : Bool) : DiskAction Unit := unnoted (cleaning s cancelled)

/-! ### Sinks -/

/-- What happens around a write of a run, where no step fails. -/
def circumstances (cancelled : Bool) (path : String) : Circumstances where
  cancelled := cancelled
  cancelledLater := cancelled
  draw := drawFor path

def sink : Sink Disk where
  write cancelled path content d := (writeFile s (circumstances cancelled path) path content).run.run d
  clean := some fun cancelled d => (cleanRoot s cancelled).run.run d

/-- The same sink on a disk whose changes are noted. -/
def notedSink : Sink Trail where
  write cancelled path content t := (writing s (circumstances cancelled path) path content).run.run t
  clean := some fun cancelled t => (cleaning s cancelled).run.run t

end FileSink

end ClientForge.Output
