import ClientForge.Plan.Operation
import ClientForge.Text.Casing

/-!
# Calls into the runtime

The names of the runtime's methods for values and requests, before a target cases them, and the arguments of
calls to generators.
-/

namespace ClientForge.Render

open ClientForge.Graph ClientForge.Plan

/-- Whether a target has a method: command builders exist only where there are commands. -/
def isEmitted (commands : Bool) (m : Method) : Bool := commands || m.kind != .commandBuilder

/-- What primitives are called in the names of accessors, where that is not their own name. -/
def valueNames : List (String × String) :=
  [("int64", "Long"), ("integer", "Int"), ("boolean", "Bool"), ("guid", "Guid"),
    ("datetimeoffset", "DateTimeOffset"), ("dateonly", "DateOnly"), ("timeonly", "TimeOnly")]

/-- What an accessor of a primitive is called. -/
def primitiveValueMethod (type : Option TypeExpr) : String :=
  let name := match type.bind TypeExpr.ref? with
    | some t => if t.name.isEmpty then "string" else t.name
    | none => "string"
  if name == "untypednode" then "ObjectValue"
  else Text.Casing.pascal.apply ((valueNames.lookup name).getD name) ++ "Value"

/-- What the accessor of a value is called. -/
def valueMethod (variant : ValueVariant) (type : Option TypeExpr) : String :=
  match variant with
  | .enumeration => "EnumValue"
  | .byteArray => "ByteArrayValue"
  | .collectionOfPrimitive => "CollectionOfPrimitiveValues"
  | .collectionOfEnum => "CollectionOfEnumValues"
  | .collectionOfObject => "CollectionOfObjectValues"
  | .object | .composed => "ObjectValue"
  | .primitive => primitiveValueMethod type

/-- What the adapter's method for sending a request is called. -/
def sendMethod : SendVariant → String
  | .noContent => "SendNoContent"
  | .primitive => "SendPrimitive"
  | .primitiveCollection => "SendPrimitiveCollection"
  | .objectCollection => "SendCollection"
  | .object => "Send"

/-- The static method that chooses a class, before its name is cased. -/
def factoryMethod : String := "CreateFromDiscriminatorValue"

/-- Whether an argument can be left out: there is none, and its parameter is optional. -/
def isDroppable (argument : Option Parameter) (parameter : Option Parameter) : Bool :=
  argument.isNone && parameter.any (·.optional)

/-- How many arguments remain when those at the end that can be left out are. -/
def keptArguments (arguments : List (Option Parameter)) (signature : List Parameter) : Nat :=
  let paired := arguments.zipIdx.map fun (a, i) => isDroppable a signature[i]?
  (paired.reverse.dropWhile id).length

/-- The arguments of a call, with a placeholder where there is none. Where the target allows it, those at the
end that the callee can do without are left out. -/
def renderArguments (signature : List Parameter) (arguments : List (Option Parameter))
    (render : Parameter → String) (placeholder : String) (dropOptional : Bool) : List String :=
  let kept := if dropOptional then keptArguments arguments signature else arguments.length
  (arguments.take kept).map fun a => (a.map render).getD placeholder

end ClientForge.Render
