import ClientForge.Plan.Navigation
import ClientForge.Plan.Request
import ClientForge.Plan.Serialization

/-!
# The engine

Every kind of method has a handler that plans its body. An engine is a context with a complete table of
handlers. Targets without a command line have no use for command builders and say so.
-/

namespace ClientForge.Plan

open ClientForge.Graph

abbrev Handlers := MethodKind → Option Handler

def refuseCommandBuilder (c : Context) (_ : ClassDef) (m : Method) : Except Failure Body :=
  .error (.cause (.unsupported "command builder method" (c.graph.methodName m) c.policy.target))

/-- The handlers for targets without a command line. -/
def defaultHandlers : Handlers
  | .serializer => some { body := serializer }
  | .deserializer => some { body := deserializer }
  | .requestGenerator => some { body := requestGenerator }
  | .requestExecutor => some { body := requestExecutor }
  | .constructor | .clientConstructor | .rawUrlConstructor => some { body := constructor }
  | .requestBuilderWithParameters => some { body := builderWithParameters }
  | .getter => some { body := getter }
  | .setter => some { body := setter }
  | .factory => some { body := factory }
  | .commandBuilder => some { body := refuseCommandBuilder }
  | .queryParametersMapper => some { body := queryParametersMapper }
  | .indexerBackwardCompatibility => some { body := indexerMethod }
  | .unknown _ => none

/-- A table with the handler of one kind replaced. -/
def Handlers.set (h : Handlers) (kind : MethodKind) (handler : Option Handler) : Handlers :=
  fun k => if k = kind then handler else h k

structure Engine where
  context : Context
  handlers : Handlers

namespace Engine

/-- An engine for a context, if there is one, with a handler for every known kind. -/
def create (context : Option Context) (handlers : Handlers) : Except Failure Engine :=
  match context with
  | none => .error (.cause .missingPolicy)
  | some context =>
    match MethodKind.known.find? fun kind => (handlers kind).isNone with
    | some kind => .error (.cause (.missingHandler kind.name))
    | none => .ok ⟨context, handlers⟩

variable (e : Engine)

/-- Plans the body of a method. -/
def synthesize (m : Method) : Except Failure Body :=
  let g := e.context.graph
  match e.handlers m.kind with
  | none => .error (.cause (.unknownMethodKind m.kind.name (g.methodName m)))
  | some handler =>
    match g.parentOf m with
    | none => structural .missingParent (g.methodName m)
    | some cls =>
      inContext ("synthesize " ++ m.kind.name ++ " " ++ g.methodName m) (handler.body e.context cls m)

/-- What there is to remark on when the body of a method is planned. -/
def warnings (m : Method) : List Warning :=
  match e.handlers m.kind, e.context.graph.parentOf m with
  | some handler, some cls => handler.warnings e.context cls m
  | _, _ => []

end Engine

end ClientForge.Plan
