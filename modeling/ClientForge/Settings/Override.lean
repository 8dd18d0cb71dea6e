import ClientForge.Settings.Fit

/-!
# Overrides

An override gives a key and a value. The values for one key are taken together: the last one counts for a
setting, and all of them make up a list.
-/

namespace ClientForge.Settings

structure Override where
  key : String
  value : String
deriving DecidableEq, Repr

/-- Reads an override: a key, an equals sign and a value. -/
def Override.ofText (text : String) : Except Failure Override :=
  let (front, back) := text.toList.span (· != '=')
  let key := Text.trim (String.ofList front)
  match back with
  | '=' :: value => if key.isEmpty then malformed else .ok ⟨key, String.ofList value⟩
  | _ => malformed
where
  malformed : Except Failure Override := .error (.cause (.setting ⟨text, .keyAndValue⟩))

/-- The values for each key, in the order in which they are given. -/
def gathered (os : List Override) : List (String × List String) :=
  (distinct (os.map (·.key))).map fun key => (key, (os.filter (·.key == key)).map (·.value))

def truthOfOverride? (s : String) : Option Bool := if s = "on" then some true else truthOfText? s

/-- Sets a setting to the values for its key. An empty value says nothing, and leaves a list empty. -/
def Slot.override (s : Settings) (values : List String) (slot : Slot) : Option Settings :=
  let last := values.getLast?.getD ""
  match slot with
  | .texts set => some (set (values.filter (!·.isEmpty)) s)
  | .text set => some (if last.isEmpty then s else set last s)
  | .truth set => if last.isEmpty then some s else (truthOfOverride? last).map (set · s)
  | .number set => if last.isEmpty then some s else (plainNumber? last).map (set · s)

/-- Sets what a key refers to, in any case. -/
def applyKey (s : Settings) (key : String) (values : List String) : Except Misplaced Settings :=
  match keys.find? fun k => Text.foldEq k.path key with
  | some k =>
    match k.slot.override s values with
    | some s => .ok s
    | none => .error (.unfitValue key)
  | none =>
    match groups.find? fun g => Text.foldEq g.1 key with
    | some (_, title) => if (values.getLast?.getD "").isEmpty then .ok s else .error (.wholeGroup title)
    | none => .error (.unknownKey key)

/-- Applies overrides. All of them are tried, so that all that are misplaced are known. -/
def override (s : Settings) (texts : List String) : Except Failure Settings := do
  let os ← texts.mapM Override.ofText
  let (s, misplaced) := (gathered os).foldl
    (fun (acc : Settings × List Misplaced) (entry : String × List String) =>
      match applyKey acc.1 entry.1 entry.2 with
      | .ok s => (s, acc.2)
      | .error m => (acc.1, acc.2 ++ [m])) (s, [])
  match misplaced with
  | [] => pure s
  | first :: others => throw (.within "apply overrides" (.cause (.misplaced first others.length)))

end ClientForge.Settings
