/-!
# Faulty settings

What can be wrong with a setting whose value has the right type, and with an override.
-/

namespace ClientForge.Settings

/-- What a setting breaks. -/
inductive Breach where
  | required
  | oneOf (allowed : List String)
  | atLeast (bound : Int)
  | atMost (bound : Int)
  /-- An override that is not a key and a value. -/
  | keyAndValue
deriving DecidableEq, Repr

/-- The class of a breach. -/
def Breach.kind : Breach → String
  | .atMost _ => "MaxLimitExceeded"
  | .atLeast _ => "MinExpectationNotMet"
  | .required | .oneOf _ | .keyAndValue => "InvalidValue"

def Breach.message : Breach → String
  | .required => "required"
  | .oneOf allowed => "must be one of [" ++ " ".intercalate allowed ++ "]"
  | .atLeast bound => "must be at least " ++ toString bound
  | .atMost bound => "must be at most " ++ toString bound
  | .keyAndValue => "override must have the form key=value"

/-- A breach and the setting that it is about. -/
structure Fault where
  field : String
  breach : Breach
deriving DecidableEq, Repr

def Fault.message (f : Fault) : String := f.field ++ ": " ++ f.breach.message ++ " (" ++ f.breach.kind ++ ")"

/-- Why an override cannot be applied. -/
inductive Misplaced where
  | unknownKey (key : String)
  | unfitValue (key : String)
  /-- A value for a group of settings. -/
  | wholeGroup (group : String)
deriving DecidableEq, Repr

end ClientForge.Settings
