import ClientForge.Run.Arguments

/-!
# The command line

Reads the files that a session works on and the environment, runs the session on what was read, and then makes the
changes to the files of the system that the session made to its disk, in the same order. Durations are not measured.
-/

namespace ClientForge.CommandLine

open ClientForge.Output ClientForge.Run

/-! ### Reading -/

/-- The variables that settings are looked up in. -/
def readEnvironment : IO Settings.Environment := do
  let paths := Settings.keys.map (·.path) ++ Settings.groups.map (·.1)
  let found ← paths.mapM fun path => do
    let name := Settings.variableName path
    return (name, ← IO.getEnv name)
  return fun name => (found.lookup name).join

def readHost : IO Host :=
  return { env := ← readEnvironment, version := generatorVersion, directory := toString (← IO.currentDir) }

/-- What is at a place. A file that cannot be read is taken for missing. -/
def readEntry (place : Place) : IO (Option Entry) := do
  let path := (← IO.currentDir) / pathOf place
  if ← path.isDir then return some .directory
  match ← (IO.FS.readFile path).toBaseIO with
  | .ok content => return some (.file content 0o644)
  | .error _ => return none

/-- Adds what is on the way to a place and at the place itself. -/
def addWay (d : Disk) (place : Place) : IO Disk :=
  (Disk.way place).tail.foldlM (fun d place => return ((← readEntry place).map (d.put place)).getD d) d

/-- Adds what is below a place as well. What is in files there makes no difference to a session, and a link to a
directory is not followed, since it is the link that is removed with the directory it is in. -/
def addTree (d : Disk) (place : Place) : IO Disk := do
  let root := (← IO.currentDir) / pathOf place
  let d ← addWay d place
  if !(← root.isDir) then return d
  let found ← root.walkDir fun path => return path == root || (← path.symlinkMetadata).type != .symlink
  found.foldlM (fun d path => do
    let isDirectory ← path.isDir
    return d.put (placeOf path.toString) (if isDirectory then .directory else .file "" 0o644)) d

/-- The part of the disk that a session has to do with. -/
def readDisk (f : Flags) (h : Host) : IO Disk := do
  let d ← addWay {} (h.place f.settingsFile)
  match f.settings h.env (h.textAt d f.settingsFile) with
  | .error _ => return d
  | .ok s =>
    let d ← (rootsOf s).foldlM (fun d root => addTree d (h.place root)) d
    [f.settingsFile, s.document, f.metricsFile].foldlM (fun d path => addWay d (h.place path)) d

/-! ### Writing -/

/-- Permissions by their bits. -/
def rightsOf (mode : Nat) : IO.FileRight :=
  let access (shift : Nat) : IO.AccessRight :=
    ⟨mode.testBit (shift + 2), mode.testBit (shift + 1), mode.testBit shift⟩
  ⟨access 6, access 3, access 0⟩

/-- Makes a change to the files of the system. -/
def perform : Change → IO Unit
  | .makeDirectory at_ => IO.FS.createDir (pathOf at_)
  | .fill at_ content mode => do
    IO.FS.writeFile (pathOf at_) content
    IO.setAccessRights (pathOf at_) (rightsOf mode)
  | .move source target => IO.FS.rename (pathOf source) (pathOf target)
  | .link source target => IO.FS.hardLink (pathOf source) (pathOf target)
  | .remove at_ => do
    let path := (← IO.currentDir) / pathOf at_
    if (← path.symlinkMetadata).type == .dir then IO.FS.removeDir path else IO.FS.removeFile path

def writeLog (verbose : Bool) (entries : List LogEntry) : IO Unit :=
  (entries.filter (·.isWritten verbose)).forM fun e => IO.eprintln e.line

/-! ### Sessions -/

/-- Runs a session, and makes its changes. -/
def runSession (f : Flags) : IO Session := do
  let h ← readHost
  let (session, t) := f.run h (← readDisk f h)
  t.changes.forM perform
  return session

def fail (message : String) : IO UInt32 := do
  IO.eprintln ("apigen: error: " ++ message)
  return 1

def run (words : List String) : IO UInt32 := do
  match Invocation.ofWords words with
  | .error message => fail message
  | .ok .version =>
    IO.println generatorVersion
    return 0
  | .ok (.run request) =>
    match ← (runSession request.flags).toBaseIO with
    | .error e => fail (toString e)
    | .ok session =>
      writeLog request.verbose session.log
      session.lines.forM fun line => IO.println line
      match session.failure with
      | some failure => fail failure.message
      | none => return 0

end ClientForge.CommandLine

def main (words : List String) : IO UInt32 := ClientForge.CommandLine.run words
