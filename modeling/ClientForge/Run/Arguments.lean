import ClientForge.Run.Session

/-!
# Command lines

What the words on a command line ask for.
-/

namespace ClientForge.Run

/-- What is asked for besides the flags of a session. -/
structure Request where
  flags : Flags := {}
  /-- Whether details are logged as well. -/
  verbose : Bool := false
deriving DecidableEq, Repr

/-- The version of the generator. -/
def generatorVersion : String := "devel-0.1.0"

inductive Invocation where
  | version
  | run (request : Request)
deriving DecidableEq, Repr

/-- An option that takes a value. -/
structure ValueOption where
  names : List String
  set : String → Flags → Flags

def valueOptions : List ValueOption := [
  ⟨["--config", "-c"], fun v f => { f with settingsFile := v }⟩,
  ⟨["--document", "-d"], fun v f => { f with document := v }⟩,
  ⟨["--language", "-l"], fun v f => { f with languages := f.languages ++ Text.split ',' v }⟩,
  ⟨["--output", "-o"], fun v f => { f with output := v }⟩,
  ⟨["--set"], fun v f => { f with set := f.set ++ [v] }⟩,
  ⟨["--metrics-file"], fun v f => { f with metricsFile := v }⟩]

def valueOption? (name : String) : Option ValueOption := valueOptions.find? (·.names.contains name)

/-- A word without a value of its own that changes a request. -/
def switch? (word : String) (r : Request) : Option Request :=
  if word = "--json" then some r
  else if word = "--verbose" || word = "-v" then some { r with verbose := true }
  else if word = "--clean" && r.flags.writes then some { r with flags := { r.flags with clean := true } }
  else none

/-- Splits a word at its first equals sign. -/
def splitWord (word : String) : String × Option String :=
  match word.toList.span (· != '=') with
  | (name, _ :: value) => (String.ofList name, some (String.ofList value))
  | (name, []) => (String.ofList name, none)

/-- Reads the words behind the name of a command. -/
def readWords : List String → Request → Except String Request
  | [], r => .ok r
  | word :: rest, r =>
    match switch? word r with
    | some r => readWords rest r
    | none =>
      let (name, inline) := splitWord word
      match valueOption? name with
      | none => .error ("unexpected argument " ++ word)
      | some option =>
        match inline with
        | some v => readWords rest { r with flags := option.set v r.flags }
        | none =>
          match rest with
          | v :: rest => readWords rest { r with flags := option.set v r.flags }
          | [] => .error ("expected a value for " ++ word)

/-- Reads a command line. -/
def Invocation.ofWords : List String → Except String Invocation
  | ["version"] => .ok .version
  | "gen" :: rest => .run <$> readWords rest {}
  | "check" :: rest => .run <$> readWords rest { flags := { writes := false } }
  | _ => .error "expected one of \"version\", \"gen\", \"check\""

end ClientForge.Run
