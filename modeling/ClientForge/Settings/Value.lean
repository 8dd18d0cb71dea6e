import ClientForge.Number.Double
import ClientForge.Text.Letter

/-!
# Values in settings files

Settings files come in several formats, and all of them hold values of the same kinds. Keys are told apart
without regard to case, and a key with a dot leads into a group.
-/

namespace ClientForge.Settings

open ClientForge.Number

inductive Value where
  | null
  | truth (value : Bool)
  | whole (value : Int)
  | decimal (value : Decimal)
  | notNumber
  | infinity (negative : Bool)
  /-- A date or a time. -/
  | moment
  | text (value : String)
  | list (items : List Value)
  | group (entries : List (String × Value))
deriving Repr, Inhabited

namespace Value

mutual

/-- A value with its keys in lower case. Of two keys that become one, the one that was not in lower case
counts. -/
def lowered : Value → Value
  | list items => list (loweredItems items)
  | group entries => group (loweredEntries entries)
  | v => v

def loweredItems : List Value → List Value
  | [] => []
  | v :: vs => v.lowered :: loweredItems vs

def loweredEntries : List (String × Value) → List (String × Value)
  | [] => []
  | (key, v) :: entries =>
    let rest := loweredEntries entries
    let low := Text.lower key
    if key = low then rest ++ [(low, v.lowered)] else (low, v.lowered) :: rest

end

/-- The value under a key. -/
def entry? (v : Value) (key : String) : Option Value :=
  match v with
  | group entries => entries.lookup key
  | _ => none

/-- A value that is not null. -/
def nonNull : Value → Option Value
  | null => none
  | v => some v

/-- The value under a key, unless it is null. -/
def given? (v : Value) (key : String) : Option Value := (v.entry? key).bind nonNull

/-- The value under a key of a group. A key with a dot stands for both, and goes first. -/
def member? (v : Value) (outer inner : String) : Option Value :=
  (v.given? (outer ++ "." ++ inner)).or ((v.entry? outer).bind (·.given? inner))

end Value

/-- The variables of the environment. -/
abbrev Environment := String → Option String

end ClientForge.Settings
