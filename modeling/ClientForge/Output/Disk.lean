import ClientForge.Text.Path

/-!
# Disks

A disk holds directories and files at places. A place is the list of the names on the way from the top
directory, which is always there. Each operation either succeeds or tells what is in its way; what the system
does on its own account is up to `ClientForge.Output.FileSink`.
-/

namespace ClientForge.Output

abbrev Place := List String

inductive Entry where
  | directory
  | file (content : String) (mode : Nat)
deriving DecidableEq, Repr

/-- The kind and the permissions of an entry, as listings show them. -/
def Entry.listing (e : Entry) : String :=
  let (kind, mode) := match e with
    | .directory => ('d', 0o755)
    | .file _ mode => ('-', mode)
  String.ofList (kind :: "rwxrwxrwx".toList.zipIdx.map fun (c, i) => if mode.testBit (8 - i) then c else '-')

/-- What is in the way of an operation. -/
inductive Obstacle where
  | missing
  | taken
  | notDirectory
  | isDirectory
deriving DecidableEq, Repr

def Obstacle.message : Obstacle → String
  | missing => "no such file or directory"
  | taken => "file exists"
  | notDirectory => "not a directory"
  | isDirectory => "is a directory"

structure Disk where
  /-- What is at each place but the top, each place once. -/
  entries : List (Place × Entry) := []
deriving DecidableEq, Repr

namespace Disk

def get? (d : Disk) (at_ : Place) : Option Entry :=
  if at_ = [] then some .directory else d.entries.lookup at_

def put (d : Disk) (at_ : Place) (e : Entry) : Disk := ⟨(at_, e) :: d.entries.filter (·.1 != at_)⟩

def erase (d : Disk) (at_ : Place) : Disk := ⟨d.entries.filter (·.1 != at_)⟩

def isDirectory (d : Disk) (at_ : Place) : Bool := d.get? at_ == some .directory

/-- The names in a directory, in order. -/
def names (d : Disk) (dir : Place) : List String :=
  (d.entries.filterMap fun e =>
    match e.1.getLast? with
    | some name => if e.1.dropLast = dir then some name else none
    | none => none).mergeSort fun a b => decide (a ≤ b)

/-- The files at and below a place, with the path from there, in the order of the paths. -/
def filesBelow (d : Disk) (at_ : Place) : List (String × String) :=
  (d.entries.filterMap fun e =>
    match e.2 with
    | .directory => none
    | .file content _ =>
      if at_.isPrefixOf e.1 then
        let rest := e.1.drop at_.length
        some (if rest.isEmpty then "." else "/".intercalate rest, content)
      else none).mergeSort fun a b => decide (a.1 ≤ b.1)

end Disk

/-! ### Changes -/

/-- A change to a disk that happens at one stroke. -/
inductive Change where
  | makeDirectory (at_ : Place)
  /-- Creates a file, or replaces what is in it. -/
  | fill (at_ : Place) (content : String) (mode : Nat)
  | move (source target : Place)
  /-- Makes a file available at a second place. -/
  | link (source target : Place)
  | remove (at_ : Place)
deriving DecidableEq, Repr

namespace Disk

/-- The disk after a change. -/
def apply (d : Disk) : Change → Disk
  | .makeDirectory at_ => d.put at_ .directory
  | .fill at_ content mode => d.put at_ (.file content mode)
  | .move source target =>
    match d.get? source with
    | some e => (d.erase source).put target e
    | none => d
  | .link source target =>
    match d.get? source with
    | some e => d.put target e
    | none => d
  | .remove at_ => d.erase at_

def applyAll (d : Disk) (changes : List Change) : Disk := changes.foldl apply d

def isFile (d : Disk) (at_ : Place) : Bool :=
  match d.get? at_ with
  | some (.file ..) => true
  | _ => false

/-- The directories on the way to a place, from the top down to the place itself. -/
def way (at_ : Place) : List Place := (List.range (at_.length + 1)).map at_.take

/-- The directories on the way to a place that are not there. -/
def missing (d : Disk) (at_ : Place) : List Place := (way at_).filter fun place => (d.get? place).isNone

/-- Makes a directory, and those on the way to it that are missing. -/
def makingDirectories (d : Disk) (at_ : Place) : Except Obstacle (List Change) :=
  if (way at_).any d.isFile then .error .notDirectory else .ok ((d.missing at_).map .makeDirectory)

/-- Creates an empty file in a directory. -/
def creating (d : Disk) (dir at_ : Place) : Except Obstacle (List Change) :=
  if d.isDirectory dir then .ok [.fill at_ "" 0o600] else .error .missing

/-- Moves a file. It replaces a file, but no directory. -/
def moving (d : Disk) (source target : Place) : Except Obstacle (List Change) :=
  match d.get? source, d.get? target with
  | none, _ => .error .missing
  | some _, some .directory => .error .taken
  | some _, _ => .ok [.move source target]

/-- Links a file to a place where nothing is. -/
def linking (d : Disk) (source target : Place) : Except Obstacle (List Change) :=
  match d.get? source, d.get? target with
  | none, _ => .error .missing
  | some _, some _ => .error .taken
  | some _, none => .ok [.link source target]

/-- Removes what is at a place and everything below it, from the bottom up. -/
def clearing (d : Disk) (at_ : Place) : List Change :=
  let places := (d.entries.map (·.1)).filter at_.isPrefixOf
  (places.mergeSort fun a b => decide (b.length ≤ a.length)).map .remove

def makeDirectories (d : Disk) (at_ : Place) : Except Obstacle Disk := (d.makingDirectories at_).map d.applyAll

end Disk

/-- The place of an absolute path. -/
def placeOf (path : String) : Place := (Text.split '/' path).filter (!·.isEmpty)

/-- The path of a place. -/
def pathOf (at_ : Place) : String := "/" ++ "/".intercalate at_

end ClientForge.Output
