import ClientForge.Settings.Basic
import ClientForge.Settings.Value
import ClientForge.Text.Blank

/-!
# Fitting values into settings

Values from files and from the environment need not have the type of their setting. Numbers, truth values
and texts stand for each other as far as that makes sense, and a text stands for a list with commas in it.
-/

namespace ClientForge.Settings

open ClientForge.Number

/-! ### Spellings -/

def truthOfText? (s : String) : Option Bool :=
  if ["1", "t", "T", "TRUE", "true", "True"].contains s then some true
  else if ["0", "f", "F", "FALSE", "false", "False"].contains s then some false
  else none

/-- A whole number of 64 bits. -/
def inRange (n : Int) : Option Int := if -signedBound ≤ n && n < signedBound then some n else none

/-- Reads decimal digits with an optional sign. -/
def plainNumber? (s : String) : Option Int := do
  let (negative, digits) := splitSign s.toList
  if !digits.all Char.isDigit then none
  let n ← natOfBase 10 digits
  inRange (if negative then -(n : Int) else n)

/-- Whether underscores stand only between digits. -/
def underscoresFit (afterDigit : Bool) : List Char → Bool
  | [] => true
  | ['_'] => false
  | '_' :: c :: cs => afterDigit && c != '_' && underscoresFit false (c :: cs)
  | _ :: cs => underscoresFit true cs

/-- Reads digits behind the mark of their base, which counts as a digit. A zero in front marks base eight. -/
def natOfMarked? (cs : List Char) : Option Nat :=
  let (base, digits) := match cs with
    | '0' :: c :: rest =>
      if c == 'x' || c == 'X' then (16, rest)
      else if c == 'o' || c == 'O' then (8, rest)
      else if c == 'b' || c == 'B' then (2, rest)
      else (8, c :: rest)
    | cs => (10, cs)
  if underscoresFit (base != 10) digits then natOfBase base (digits.filter (· != '_')) else none

/-- Reads a whole number that may name its base. -/
def markedNumber? (s : String) : Option Int := do
  let (negative, digits) := splitSign s.toList
  let n ← natOfMarked? digits
  inRange (if negative then -(n : Int) else n)

/-! ### Fitting -/

namespace Value

/-- The lowest number of 64 bits, which stands for all that have no other place. -/
def lowest : Int := -signedBound

/-- The double nearest to a decimal number. -/
def doubleOf (d : Decimal) : Double := (Double.ofDecimal d).getD ⟨false, 0, 0⟩

def asText? : Value → Option String
  | text s => some s
  | truth b => some (if b then "1" else "0")
  | whole n => some (toString n)
  | decimal d => some (doubleOf d).shortest.positional
  | notNumber => some "NaN"
  | infinity negative => some (if negative then "-Inf" else "+Inf")
  | null | moment | list _ | group _ => none

def asNumber? : Value → Option Int
  | text s => if s.isEmpty then some 0 else markedNumber? s
  | truth b => some (if b then 1 else 0)
  | whole n => some (if n ≥ signedBound then n - unsignedBound else n)
  | decimal d => some ((inRange (doubleOf d).truncate).getD lowest)
  | notNumber | infinity _ => some lowest
  | null | moment | list _ | group _ => none

def asTruth? : Value → Option Bool
  | text s => if s.isEmpty then some false else truthOfText? s
  | truth b => some b
  | whole n => some (n != 0)
  | decimal d => some ((doubleOf d).mantissa != 0)
  | notNumber | infinity _ => some true
  | null | moment | list _ | group _ => none

/-- An item of a list as a text. A null one is empty. -/
def itemText? : Value → Option String
  | null => some ""
  | v => v.asText?

def asTexts? : Value → Option (List String)
  | list items => items.mapM itemText?
  | text s => some (if s.isEmpty then [] else Text.split ',' s)
  | group [] => some []
  | v => v.asText?.map ([·])

end Value

/-- Sets a setting to a value that fits it. -/
def Slot.fit (s : Settings) (v : Value) : Slot → Option Settings
  | .text set => v.asText?.map (set · s)
  | .texts set => v.asTexts?.map (set · s)
  | .truth set => v.asTruth?.map (set · s)
  | .number set => v.asNumber?.map (set · s)

/-! ### Sources -/

/-- The variable for a key. -/
def variableName (path : String) : String := "APIGEN_" ++ Text.upper (Text.replaceChar '.' "_" path)

/-- What the environment says on a key. Empty variables say nothing. -/
def Environment.given? (env : Environment) (path : String) : Option String :=
  (env (variableName path)).filter (!·.isEmpty)

/-- What the environment or else the file says on a setting, and nothing where that makes no sense. A
variable for a whole group hides what the file says on the group's settings. A group that is null in the
file hides their variables. -/
def Key.given? (k : Key) (env : Environment) (file : Value) : Option (Option Value) :=
  let variable_ := (env.given? k.path).map Value.text
  match k.group with
  | none => some (variable_.or (file.given? k.name))
  | some group =>
    match file.entry? group, env.given? group with
    | none, none | some (.group _), none => some (variable_.or (file.member? group k.name))
    | none, some _ | some (.group _), some _ => some variable_
    | some .null, none => some none
    | some _, _ => none

/-- The defaults, changed by a file and by the environment, which goes first. -/
def ofSources (env : Environment) (file : Value) : Except Failure Settings :=
  let step (s : Settings) (k : Key) : Option Settings := do
    match ← k.given? env file with
    | some v => k.slot.fit s v
    | none => pure s
  match keys.foldlM step {} with
  | some s => .ok s
  | none => .error (.within "decode config" (.cause .unfitSettings))

end ClientForge.Settings
