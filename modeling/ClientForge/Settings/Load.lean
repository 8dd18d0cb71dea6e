import ClientForge.Convention.Language
import ClientForge.Settings.Format
import ClientForge.Settings.Override

/-!
# Loading settings

Settings come from the defaults, a file, the environment and overrides, each of which goes before those
named earlier. What comes out of that is checked, and all that is wrong with it is told at once.
-/

namespace ClientForge.Settings

/-! ### Checks -/

def breaches (field : String) (checks : List (Bool × Breach)) : List Fault :=
  match checks.find? fun c => !c.1 with
  | some (_, breach) => [⟨field, breach⟩]
  | none => []

def isOneOf (allowed : List String) (value : String) : Bool × Breach := (allowed.contains value, .oneOf allowed)

def isGiven (value : String) : Bool × Breach := (!value.isEmpty, .required)

def isAtLeast (bound value : Int) : Bool × Breach := (bound ≤ value, .atLeast bound)

def isAtMost (bound value : Int) : Bool × Breach := (value ≤ bound, .atMost bound)

def languageNames : List String := Convention.Language.all.map (·.name)

/-- Everything that is wrong with settings. Of each setting only the first breach counts. -/
def faults (s : Settings) : List Fault :=
  breaches "Language" [isGiven s.language, isOneOf languageNames s.language] ++
  s.languages.zipIdx.flatMap (fun (l, i) =>
    breaches ("Languages[" ++ toString i ++ "]") [isOneOf languageNames l]) ++
  breaches "ClientNamespaceName" [isGiven s.namespaceName] ++
  breaches "ClientClassName" [isGiven s.className] ++
  breaches "WordSeparator" [isOneOf ["kebab", "snake"] s.wordSeparator] ++
  breaches "OutputPath" [isGiven s.outputPath] ++
  breaches "MaxDegreeOfParallelism" [isAtLeast (-1) s.parallelism] ++
  breaches "Retry.DelaySeconds" [isAtLeast 0 s.delaySeconds, isAtMost 180 s.delaySeconds] ++
  breaches "Retry.MaxRetries" [isAtLeast 0 s.maxRetries, isAtMost 10 s.maxRetries] ++
  breaches "Redirect.MaxRedirects" [isAtLeast 0 s.maxRedirects, isAtMost 20 s.maxRedirects]

/-- Settings that nothing is wrong with. -/
def check (s : Settings) : Except Failure Settings :=
  match s.faults.map fun f => Failure.cause (.setting f) with
  | [] => .ok s
  | [f] => .error f
  | fs => .error (.joined fs)

/-! ### Sources -/

/-- Loads the settings of a run. -/
def load (file : Option File) (env : Environment) (overrides : List String) : Except Failure Settings := do
  let found ← match file with
    | some f => f.read env
    | none => .ok (.group [])
  let s ← ofSources env found
  check (← override s overrides)

end ClientForge.Settings
