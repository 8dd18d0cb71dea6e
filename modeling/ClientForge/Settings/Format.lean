import ClientForge.Document.Reading
import ClientForge.Failure
import ClientForge.Settings.Toml
import ClientForge.Settings.Variables

/-!
# Settings files

A settings file is read by the format that its extension names. Whatever the format, it holds a group of
settings, or nothing.
-/

namespace ClientForge.Settings

/-! ### YAML -/

open Document (Reading follow repeatedKeys)

/-- What a scalar is as a setting. -/
def Value.ofMeaning (text : String) : Yaml.Meaning → Value
  | .null => .null
  | .truth b => .truth b
  | .whole n => .whole n
  | .decimal d => .decimal d
  | .special =>
    if (Text.lower text).toList.contains 'a' then .notNumber else .infinity (Text.startsWith text "-")
  | .timestamp => .moment
  | .text value => .text value

/-- The text of a scalar key. Other keys are refused, and null ones are left out. -/
def keyText (key : Yaml.Node) : Reading (Option String) :=
  follow key fun target => do
    let .scalar _ tag style text := target | failure
    match ← Yaml.scalarMeaning tag style text with
    | .null => pure none
    | .text value => pure (some value)
    | _ => pure (some text)

/-- The entries that a merge brings in. -/
def Value.merged (direct : Bool) : Value → Option (List (String × Value))
  | .group entries => some entries
  | .list items =>
    if direct then
      (items.mapM fun (v : Value) =>
        match v with
        | .group entries => some entries
        | _ => none).map List.flatten
    else none
  | _ => none

/-- A node as a value. Keys given twice are refused. What a mapping merges yields to its own entries. -/
def valueOfNode : (bound : Nat) → Yaml.Node → Reading Value
  | 0, _ => failure
  | bound + 1, n => follow n fun target => do
    match target with
    | .scalar _ tag style text => return .ofMeaning text (← Yaml.scalarMeaning tag style text)
    | .sequence _ _ items => return .list (← items.mapM (valueOfNode bound))
    | .mapping _ _ entries =>
      if !(repeatedKeys entries).isEmpty then failure
      let own ← (entries.filter (!·.1.isMerge)).mapM fun (key, n) => do
        let name ← keyText key
        let v ← valueOfNode bound n
        pure (name.map (·, v))
      let merged ← match (entries.filter (·.1.isMerge)).getLast? with
        | none => pure []
        | some (_, n) => (← valueOfNode bound n).merged (n matches .sequence ..)
      pure (.group (own.filterMap id ++ merged))
    | .reference .. => failure

/-- Reads a YAML text. An empty one has no settings. No node is nested deeper than the text is long. -/
def readYaml (text : String) : Option Value := do
  match ← Yaml.document text with
  | none => some (.group [])
  | some tree =>
    let reading := (valueOfNode (text.length + 1) tree.root).run { anchored := tree.anchored }
    match ← reading.run' { visits := 1 } with
    | .group entries => some (.group entries)
    | .null => some (.group [])
    | _ => none

/-! ### Formats -/

inductive Format where
  | yaml
  | json
  | toml
  | variables
deriving DecidableEq, Repr

/-- The format of an extension. -/
def Format.ofExtension : String → Option Format
  | "yaml" | "yml" => some .yaml
  | "json" => some .json
  | "toml" => some .toml
  | "env" | "dotenv" => some .variables
  | _ => none

/-- The settings in a text. -/
def Format.read (env : Environment) : Format → String → Option Value
  | .yaml => readYaml
  | .json => Json.read
  | .toml => Toml.read
  | .variables => Variables.read env

/-- A settings file: its path, and its text if there is one. -/
structure File where
  path : String
  text : Option String

/-- The part of the last name of a path behind its last dot. -/
def extensionOf (path : String) : String :=
  match Text.splitLast '.' (Text.splitLast '/' path).2 with
  | (none, _) => ""
  | (some _, last) => last

/-- The settings in a file, with all keys in lower case. -/
def File.read (f : File) (env : Environment) : Except Failure Value :=
  match (Format.ofExtension (extensionOf f.path)).bind fun format => f.text.bind (format.read env) with
  | some v => .ok v.lowered
  | none => .error (.within ("read config " ++ f.path) (.cause .unreadableSettings))

end ClientForge.Settings
