import ClientForge.Output.Sink

/-!
# Memory sinks

Files that are kept by path.
-/

namespace ClientForge.Output

structure Memory where
  /-- The content of each file by path, each path once. -/
  files : List (String × String) := []
deriving DecidableEq, Repr

namespace Memory

def get? (m : Memory) (path : String) : Option String := m.files.lookup path

def put (m : Memory) (path content : String) : Memory :=
  ⟨(path, content) :: m.files.filter (·.1 != path)⟩

/-- The paths in order. -/
def paths (m : Memory) : List String := (m.files.map (·.1)).mergeSort fun a b => decide (a ≤ b)

/-- The files in the order of their paths. -/
def sorted (m : Memory) : List (String × String) := m.files.mergeSort fun a b => decide (a.1 ≤ b.1)

def write (cancelled : Bool) (path content : String) : Deed Memory := fun m =>
  match checkWrite cancelled path with
  | .ok () => (.ok (), m.put path content)
  | .error failure => (.error failure, m)

/-- Memory can be cleaned at any time. -/
def clean (_ : Bool) : Deed Memory := fun _ => (.ok (), {})

def sink : Sink Memory where
  write := write
  clean := some clean

end Memory

/-! ### Families -/

/-- A memory for every directory. -/
abbrev Memories := String → Memory

/-- Does something to the memory of a directory. -/
def Memories.on (dir : String) (deed : Deed Memory) : Deed Memories := fun ms =>
  let (outcome, m) := deed (ms dir)
  (outcome, fun d => if d = dir then m else ms d)

/-- The memory of a directory as a sink. -/
def Memories.sink (dir : String) : Sink Memories where
  write cancelled path content := on dir (Memory.write cancelled path content)
  clean := some fun cancelled => on dir (Memory.clean cancelled)

end ClientForge.Output
