import ClientForge.Plan.Context
import ClientForge.Text.Escaped

/-!
# Logs

What a run tells about itself while it goes on.
-/

namespace ClientForge.Run

inductive Level where
  | debug
  | info
  | warn
  | error
deriving DecidableEq, Repr

def Level.all : List Level := [.debug, .info, .warn, .error]

def Level.name : Level → String
  | debug => "debug"
  | info => "info"
  | warn => "warn"
  | error => "error"

structure LogEntry where
  level : Level
  message : String
  fields : List (String × Plan.Detail) := []
deriving DecidableEq, Repr

namespace LogEntry

def debug (message : String) (fields : List (String × Plan.Detail)) : LogEntry := ⟨.debug, message, fields⟩

def info (message : String) (fields : List (String × Plan.Detail)) : LogEntry := ⟨.info, message, fields⟩

def warn (message : String) (fields : List (String × Plan.Detail)) : LogEntry := ⟨.warn, message, fields⟩

def error (message : String) (fields : List (String × Plan.Detail)) : LogEntry := ⟨.error, message, fields⟩

/-- Whether an entry is written. Details are only for those who ask for them. -/
def isWritten (verbose : Bool) (e : LogEntry) : Bool := verbose || e.level != .debug

/-- Whether an entry points to a problem. -/
def isProblem (e : LogEntry) : Bool := e.level == .warn || e.level == .error

/-- The entry with one field in front of the others. -/
def withField (name : String) (value : Plan.Detail) (e : LogEntry) : LogEntry :=
  { e with fields := (name, value) :: e.fields }

def detailText : Plan.Detail → String
  | .text s => Text.escaped false s
  | .number n => toString n
  | .truth b => if b then "true" else "false"

/-- An entry on one line. -/
def line (e : LogEntry) : String :=
  let fields := [("level", .text e.level.name), ("msg", .text e.message)] ++ e.fields
  "\x7b" ++ ",".intercalate (fields.map fun f => Text.escaped false f.1 ++ ":" ++ detailText f.2) ++ "\x7d"

end LogEntry

end ClientForge.Run
