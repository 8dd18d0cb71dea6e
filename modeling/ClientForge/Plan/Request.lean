import ClientForge.Graph.Validation
import ClientForge.Plan.Context

/-!
# Requests

A generator prepares a request; an executor has its generator prepare one and sends it. The executor's
parameters are matched with the generator's by kind, in order.
-/

namespace ClientForge.Plan

open ClientForge.Graph

/-- The URL template of a class. -/
def urlTemplate (cls : Option ClassDef) : String :=
  match cls.bind (·.propertyOfKind .urlTemplate) with
  | some p => if Text.isBlankText p.defaultValue then "N/A" else p.defaultValue
  | none => "N/A"

def isStreamType (t : TypeExpr) : Bool := t.ref?.any TypeRef.isStream

/-- A body that is no stream needs a content type, given by the method or by a parameter. -/
def checkContentType (g : Graph) (m : Method) : Except Failure Unit :=
  match m.parameterOfKind .requestBody with
  | none => .ok ()
  | some body =>
    if isStreamType body.type || !Text.isBlankText m.bodyContentType ||
        (m.parameterOfKind .requestBodyContentType).isSome then .ok ()
    else .error (.cause (.contentType (g.methodName m) (m.http.getD "") (urlTemplate (g.parentOf m))))

/-- How a generator sets the body of its request. -/
def contentOperation (g : Graph) (m : Method) (body : Parameter) : Operation :=
  let content : Content := ⟨body, m.bodyContentType, m.parameterOfKind .requestBodyContentType⟩
  match body.type.ref? with
  | some t =>
    if t.isStream then .setStreamContent content
    else if (g.classOf t).isSome then .setStructuredContent content t
    else .setScalarContent content body.type
  | none => .setScalarContent content body.type

def configuration (g : Graph) (config : Parameter) : Operation :=
  let type := config.type.ref?.bind g.classOf
  let declares (kind : PropertyKind) : Bool := type.any fun cls => (cls.propertyOfKind kind).isSome
  .configureRequest config type (declares .queryParameters) (declares .options) (declares .headers)

def requestGenerator (c : Context) (cls : ClassDef) (m : Method) : Except Failure Body := do
  match m.http with
  | none => structural (.missingHttpMethod m.kind) (c.graph.methodName m)
  | some http =>
    checkContentType c.graph m
    pure {
      method := m
      operations :=
        [.newRequestInfo http (cls.propertyOfKind .urlTemplate) (cls.propertyOfKind .pathParameters)] ++
          (if m.acceptedResponseTypes.isEmpty then []
            else [.addHeader "Accept" (", ".intercalate m.acceptedResponseTypes)]) ++
          ((m.parameterOfKind .requestBody).map (contentOperation c.graph m)).toList ++
          ((m.parameterOfKind .requestConfiguration).map (configuration c.graph)).toList }

/-- For each wanted parameter the first one of its kind that is not taken yet. -/
def bindArguments : (wanted available : List Parameter) → List (Option Parameter)
  | [], _ => []
  | p :: ps, available =>
    match available.find? (·.kind == p.kind) with
    | some q => some q :: bindArguments ps (available.eraseP (·.kind == p.kind))
    | none => none :: bindArguments ps available

def generatorCall (generator executor : Method) : GeneratorCall :=
  ⟨generator, bindArguments generator.signature executor.signature⟩

/-- The error types by status pattern, in capitals. -/
def errorTable (m : Method) : List ErrorEntry :=
  m.errorMappings.map fun e => ⟨Text.upper e.code, e.type⟩

def sendFor (c : Context) (m : Method) : Except Failure Send :=
  match m.returnType with
  | none => structural .executorWithoutResult (c.graph.methodName m)
  | some (.composed form name members nullable) =>
    .error (Convention.unsupportedType c.graph c.policy.target (.composed form name members nullable))
  | some (.scalar t) =>
    let errorMapping := !m.errorMappings.isEmpty
    .ok <|
      if t.isVoid then { variant := .noContent, errorMapping }
      else {
        variant :=
          if (c.graph.classOf t).isSome then if t.isCollection then .objectCollection else .object
          else if t.isCollection then .primitiveCollection
          else .primitive
        type := some t.element
        unwrapArray := t.collection == .array
        errorMapping }

def requestExecutor (c : Context) (_ : ClassDef) (m : Method) : Except Failure Body := do
  let generator ← ofViolation (c.graph.generatorOf m)
  let send ← sendFor c m
  pure {
    method := m
    operations :=
      [.callGenerator (generatorCall generator m)] ++
        (if m.errorMappings.isEmpty then [] else [.errorMappingTable (errorTable m)]) ++
        [.send { send with cancellation := m.parameterOfKind .cancellation }] }

end ClientForge.Plan
