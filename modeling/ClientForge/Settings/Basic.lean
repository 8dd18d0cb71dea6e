import ClientForge.Plan.Context

/-!
# Settings

The settings of a run, and the keys by which files, the environment and overrides refer to them.
-/

namespace ClientForge

structure Settings where
  /-- The target language where no list of them is given. -/
  language : String := "csharp"
  languages : List String := []
  /-- The path of the document. -/
  document : String := ""
  namespaceName : String := "ApiSdk"
  className : String := "ApiClient"
  usesBackingStore : Bool := false
  /-- The casing of commands and options. -/
  wordSeparator : String := "kebab"
  outputPath : String := "./output"
  cleanOutput : Bool := false
  /-- How many targets are generated at a time. Without a positive number, all of them are. -/
  parallelism : Int := -1
  /-- The import path of the package for the root namespace. -/
  importPath : String := ""
  serializers : List String := []
  deserializers : List String := []
  delaySeconds : Int := 0
  maxRetries : Int := 0
  maxRedirects : Int := 0
deriving DecidableEq, Repr

namespace Settings

/-- A list without what occurred earlier in it. -/
def distinct (xs : List String) : List String :=
  xs.foldl (fun seen x => if seen.contains x then seen else seen ++ [x]) []

/-- The target languages in the order in which they are asked for, each once. -/
def targets (s : Settings) : List String := if s.languages.isEmpty then [s.language] else distinct s.languages

def separator (s : Settings) : Text.Casing := if s.wordSeparator = "snake" then .snake else .kebab

def options (s : Settings) : Plan.Options where
  usesBackingStore := s.usesBackingStore
  serializers := s.serializers
  deserializers := s.deserializers
  delaySeconds := s.delaySeconds
  maxRetries := s.maxRetries
  maxRedirects := s.maxRedirects
  wordSeparator := s.separator

/-! ### Keys -/

/-- A setting by its type, with how it is set. -/
inductive Slot where
  | text (set : String → Settings → Settings)
  | texts (set : List String → Settings → Settings)
  | truth (set : Bool → Settings → Settings)
  | number (set : Int → Settings → Settings)

structure Key where
  /-- The group that the setting belongs to. -/
  group : Option String := none
  name : String
  slot : Slot

/-- The key as it is written in one piece. -/
def Key.path (k : Key) : String :=
  match k.group with
  | none => k.name
  | some group => group ++ "." ++ k.name

/-- The key of every setting. -/
def keys : List Key := [
  { name := "language", slot := .text fun v s => { s with language := v } },
  { name := "languages", slot := .texts fun v s => { s with languages := v } },
  { name := "document", slot := .text fun v s => { s with document := v } },
  { name := "client_namespace_name", slot := .text fun v s => { s with namespaceName := v } },
  { name := "client_class_name", slot := .text fun v s => { s with className := v } },
  { name := "uses_backing_store", slot := .truth fun v s => { s with usesBackingStore := v } },
  { name := "word_separator", slot := .text fun v s => { s with wordSeparator := v } },
  { name := "output_path", slot := .text fun v s => { s with outputPath := v } },
  { name := "clean_output", slot := .truth fun v s => { s with cleanOutput := v } },
  { name := "max_degree_of_parallelism", slot := .number fun v s => { s with parallelism := v } },
  { name := "go_import_path", slot := .text fun v s => { s with importPath := v } },
  { name := "serializers", slot := .texts fun v s => { s with serializers := v } },
  { name := "deserializers", slot := .texts fun v s => { s with deserializers := v } },
  { group := some "retry", name := "delay_seconds", slot := .number fun v s => { s with delaySeconds := v } },
  { group := some "retry", name := "max_retries", slot := .number fun v s => { s with maxRetries := v } },
  { group := some "redirect", name := "max_redirects",
    slot := .number fun v s => { s with maxRedirects := v } }]

/-- The groups, with what an override of a whole group calls them. -/
def groups : List (String × String) := [("retry", "Retry"), ("redirect", "Redirect")]

end Settings

end ClientForge
