import ClientForge.Plan.Context

/-!
# Evaluating bodies

What planned bodies do when they run, as far as it can be told from the plan: the class that a factory
constructs, the name that a query parameter gets, and the keys that are written and read.
-/

namespace ClientForge.Plan

open ClientForge.Graph

/-- The class that operations construct for a discriminator value, if there is one in the data. -/
def constructed (value : Option String) : List Operation → Option ClassDef
  | [] => none
  | .construct type :: _ => some type
  | .discriminatorSwitch cases fallback :: _ =>
    match value.bind fun v => cases.find? (·.key == v) with
    | some found => some found.type
    | none => some fallback
  | _ :: rest => constructed value rest

/-- The class that a factory constructs. -/
def resolveFactory (g : Graph) (b : Body) (value : Option String) : Except Failure ClassDef :=
  match constructed value b.operations with
  | some cls => .ok cls
  | none => .error (.cause (.notFactory (g.methodName b.method)))

/-- The name cases of a body. -/
def Body.queryNames (b : Body) : List QueryNameCase :=
  b.operations.flatMap fun
    | .mapQueryName _ cases => cases
    | _ => []

/-- The name on the wire of a query parameter. -/
def mapQueryParameter (b : Body) (name : String) : String :=
  match b.queryNames.find? fun c => Text.foldEq c.name name with
  | some c => c.serializationName
  | none => name

/-- What a serializer writes. -/
def Body.written (b : Body) : List ValueSlot :=
  b.operations.filterMap fun
    | .writeValue slot => some slot
    | _ => none

/-- What a deserializer reads. -/
def Body.read (b : Body) : List ValueSlot :=
  b.operations.flatMap fun
    | .fieldMap _ slots => slots
    | _ => []

def writtenKeys (b : Body) : List String := b.written.map (·.key)

def readKeys (b : Body) : List String := b.read.map (·.key)

end ClientForge.Plan
