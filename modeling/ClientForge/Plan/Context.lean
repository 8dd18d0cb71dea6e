import ClientForge.Convention.Policy
import ClientForge.Plan.Operation

/-!
# Planning context

What planning a body depends on besides the method: the graph, the policy of the target and the options of
the run.
-/

namespace ClientForge.Plan

open ClientForge.Graph

structure Options where
  usesBackingStore : Bool := false
  /-- Modules that client constructors register unless their method lists its own. -/
  serializers : List String := []
  deserializers : List String := []
  /-- Zero leaves the defaults of the runtime in place. -/
  delaySeconds : Int := 0
  maxRetries : Int := 0
  maxRedirects : Int := 0
  /-- The casing of commands and options. -/
  wordSeparator : Text.Casing := .kebab
deriving DecidableEq, Repr

structure Context where
  graph : Graph
  policy : Convention.Policy
  options : Options

/-- A detail of a remark. -/
inductive Detail where
  | text (value : String)
  | number (value : Int)
  | truth (value : Bool)
deriving DecidableEq, Repr

/-- A remark on something that was left out. -/
structure Warning where
  message : String
  fields : List (String × Detail)
deriving DecidableEq, Repr

/-- Plans the body of a method of a class, and tells what there is to remark on. -/
structure Handler where
  body : Context → ClassDef → Method → Except Failure Body
  warnings : Context → ClassDef → Method → List Warning := fun _ _ _ => []

def structural {α : Type} (rule : Rule) (element : String) : Except Failure α :=
  .error (.violation rule element)

/-- A violation as the failure of a computation. -/
def ofViolation {α : Type} (x : Except Violation α) : Except Failure α :=
  x.mapError fun v => .cause (.structural v)

end ClientForge.Plan
