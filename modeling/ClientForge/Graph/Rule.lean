import ClientForge.Graph.Kind
import ClientForge.Text.Blank

/-!
# Structural rules

The rules that a graph has to keep, each named for the way in which it is broken. A violation says which
element breaks which rule; a rule's code groups the rules that forbid the same thing.
-/

namespace ClientForge.Graph

inductive Rule where
  | missingGenerator (http : String)
  | duplicateGenerator (http : String)
  | missingHttpMethod (kind : MethodKind)
  | missingReturnType (kind : MethodKind)
  | executorWithoutResult
  | methodWithoutBuilder
  | indexerWithoutBuilder
  | multipleIndexers
  | misplacedProperty (kind : PropertyKind) (place : ClassKind) (allowed : List ClassKind)
  | misplacedMethod (kind : MethodKind) (place : ClassKind) (allowed : List ClassKind)
  | notCommandBuilder
  | duplicateMapping (key : String)
  | foreignMapping (key target : String)
  | mappingWithoutClass (key : String)
  | ambiguousCommandSource
  | mapperWithoutParameter
  | mapperWithoutInput
  | duplicateCommand (parent name : String)
  | duplicateRoot
  | foreignParent
  | missingParent
  | missingIndexParameter
  | missingAccessedProperty (kind : MethodKind)
  | missingSetterValue
  | commandCycle
  | missingExecutor
deriving DecidableEq, Repr

namespace Rule

def code : Rule → String
  | missingGenerator _ => "missing_generator"
  | duplicateGenerator _ => "duplicate_generator"
  | missingHttpMethod _ => "missing_http_method"
  | missingReturnType _ | executorWithoutResult | methodWithoutBuilder | indexerWithoutBuilder =>
    "missing_return_type"
  | multipleIndexers => "multiple_indexers"
  | misplacedProperty .. | misplacedMethod .. | notCommandBuilder => "wrong_parent_kind"
  | duplicateMapping _ => "duplicate_discriminator"
  | foreignMapping .. | mappingWithoutClass _ => "unreachable_discriminator"
  | ambiguousCommandSource => "ambiguous_command_source"
  | mapperWithoutParameter | mapperWithoutInput => "missing_mapper_parameter"
  | duplicateCommand .. | duplicateRoot => "duplicate_command"
  | foreignParent | missingParent => "missing_parent"
  | missingIndexParameter => "missing_index_parameter"
  | missingAccessedProperty _ | missingSetterValue => "missing_accessed_property"
  | commandCycle => "command_cycle"
  | missingExecutor => "missing_executor"

def inMarks (s : String) : String := "\"" ++ s ++ "\""

def kindList (kinds : List ClassKind) : String := " or ".intercalate (kinds.map ClassKind.name)

def message : Rule → String
  | missingGenerator http => "no " ++ MethodKind.requestGenerator.name ++ " sibling for " ++ http
  | duplicateGenerator http =>
    "more than one " ++ MethodKind.requestGenerator.name ++ " sibling for " ++ http
  | missingHttpMethod kind => kind.name ++ " method has no HTTP method"
  | missingReturnType kind => kind.name ++ " method has no return type"
  | executorWithoutResult => "request executor has no return type"
  | methodWithoutBuilder => "method does not return a request builder"
  | indexerWithoutBuilder => "indexer does not return a request builder"
  | multipleIndexers => "class declares more than one indexer"
  | misplacedProperty kind place allowed =>
    kind.name ++ " property declared on " ++ place.name ++ " class, want " ++ kindList allowed
  | misplacedMethod kind place allowed =>
    kind.name ++ " method declared on " ++ place.name ++ " class, want " ++ kindList allowed
  | notCommandBuilder => "not a command builder method"
  | duplicateMapping key => "duplicate discriminator mapping key " ++ inMarks key
  | foreignMapping key target =>
    "discriminator mapping " ++ inMarks key ++ " targets " ++ target ++
      ", which is not a class in this graph"
  | mappingWithoutClass key => "discriminator mapping " ++ inMarks key ++ " does not target a class"
  | ambiguousCommandSource =>
    "command builder sets more than one of OriginalMethod, OriginalIndexer and AccessedProperty"
  | mapperWithoutParameter =>
    "query parameters mapper has no " ++ ParameterKind.queryParametersMapper.name ++ " parameter"
  | mapperWithoutInput => "query parameters mapper has no input parameter"
  | duplicateCommand parent name =>
    "command " ++ inMarks parent ++ " already has a sub-command named " ++ inMarks name
  | duplicateRoot => "more than one root command builder"
  | foreignParent => "method parent does not point at its declaring class"
  | missingParent => "method has no parent class"
  | missingIndexParameter => "indexer method has no Path parameter"
  | missingAccessedProperty kind => kind.name ++ " method has no accessed property"
  | missingSetterValue => "setter has no value parameter"
  | commandCycle => "command builder reaches itself"
  | missingExecutor => "executable command has no request executor"

end Rule

structure Violation where
  rule : Rule
  /-- The name of the element that breaks the rule. -/
  element : String
deriving DecidableEq, Repr

def Violation.message (v : Violation) : String := v.element ++ ": " ++ v.rule.message

end ClientForge.Graph
