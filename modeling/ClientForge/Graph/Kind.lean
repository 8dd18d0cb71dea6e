/-!
# Kinds of elements

Types, classes, properties, parameters and methods each play one of a few roles. A kind that is none of them is
kept with its code: it has no rules of its own, and messages call it unknown.
-/

namespace ClientForge.Graph

/-! ### Types -/

inductive TypeKind where
  | scalar
  | union
  | intersection
  | unknown (code : Int)
deriving DecidableEq, Repr

namespace TypeKind

def known : List TypeKind := [.scalar, .union, .intersection]

def name : TypeKind → String
  | .scalar => "Scalar"
  | .union => "Union"
  | .intersection => "Intersection"
  | .unknown _ => "Unknown"

end TypeKind

/-! ### Classes -/

inductive ClassKind where
  | model
  | requestBuilder
  | queryParameters
  | requestConfiguration
  | errorDefinition
  | unknown (code : Int)
deriving DecidableEq, Repr

namespace ClassKind

def known : List ClassKind :=
  [.model, .requestBuilder, .queryParameters, .requestConfiguration, .errorDefinition]

def name : ClassKind → String
  | .model => "Model"
  | .requestBuilder => "RequestBuilder"
  | .queryParameters => "QueryParameters"
  | .requestConfiguration => "RequestConfiguration"
  | .errorDefinition => "ErrorDefinition"
  | .unknown _ => "Unknown"

end ClassKind

/-! ### Properties -/

inductive PropertyKind where
  | custom
  | additionalData
  | requestBuilder
  | pathParameters
  | requestAdapter
  | urlTemplate
  | backingStore
  | queryParameter
  | headers
  | options
  | queryParameters
  | unknown (code : Int)
deriving DecidableEq, Repr

namespace PropertyKind

def known : List PropertyKind :=
  [.custom, .additionalData, .requestBuilder, .pathParameters, .requestAdapter, .urlTemplate,
    .backingStore, .queryParameter, .headers, .options, .queryParameters]

def name : PropertyKind → String
  | .custom => "Custom"
  | .additionalData => "AdditionalData"
  | .requestBuilder => "RequestBuilder"
  | .pathParameters => "PathParameters"
  | .requestAdapter => "RequestAdapter"
  | .urlTemplate => "UrlTemplate"
  | .backingStore => "BackingStore"
  | .queryParameter => "QueryParameter"
  | .headers => "Headers"
  | .options => "Options"
  | .queryParameters => "QueryParameters"
  | .unknown _ => "Unknown"

/-- The place of a kind in the order in which constructors assign defaults, counted down. -/
def rank : PropertyKind → Int
  | .custom => 0
  | .additionalData => 1
  | .requestBuilder => 2
  | .pathParameters => 3
  | .requestAdapter => 4
  | .urlTemplate => 5
  | .backingStore => 6
  | .queryParameter => 7
  | .headers => 8
  | .options => 9
  | .queryParameters => 10
  | .unknown code => code

end PropertyKind

/-! ### Parameters -/

inductive ParameterKind where
  | requestBody
  | requestBodyContentType
  | requestConfiguration
  | pathParameters
  | path
  | headers
  | queryParameter
  | responseHandler
  | cancellation
  | backingStore
  | parseNode
  | rawUrl
  | queryParametersMapper
  | requestAdapter
  | serializer
  | setterValue
deriving DecidableEq, Repr

namespace ParameterKind

def known : List ParameterKind :=
  [.requestBody, .requestBodyContentType, .requestConfiguration, .pathParameters, .path, .headers,
    .queryParameter, .responseHandler, .cancellation, .backingStore, .parseNode, .rawUrl,
    .queryParametersMapper, .requestAdapter, .serializer, .setterValue]

def name : ParameterKind → String
  | .requestBody => "RequestBody"
  | .requestBodyContentType => "RequestBodyContentType"
  | .requestConfiguration => "RequestConfiguration"
  | .pathParameters => "PathParameters"
  | .path => "Path"
  | .headers => "Headers"
  | .queryParameter => "QueryParameter"
  | .responseHandler => "ResponseHandler"
  | .cancellation => "Cancellation"
  | .backingStore => "BackingStore"
  | .parseNode => "ParseNode"
  | .rawUrl => "RawUrl"
  | .queryParametersMapper => "QueryParametersMapperParameter"
  | .requestAdapter => "RequestAdapter"
  | .serializer => "Serializer"
  | .setterValue => "SetterValue"

end ParameterKind

/-! ### Methods -/

inductive MethodKind where
  | serializer
  | deserializer
  | requestGenerator
  | requestExecutor
  | constructor
  | clientConstructor
  | rawUrlConstructor
  | requestBuilderWithParameters
  | getter
  | setter
  | factory
  | commandBuilder
  | queryParametersMapper
  | indexerBackwardCompatibility
  | unknown (code : Int)
deriving DecidableEq, Repr

namespace MethodKind

def known : List MethodKind :=
  [.serializer, .deserializer, .requestGenerator, .requestExecutor, .constructor, .clientConstructor,
    .rawUrlConstructor, .requestBuilderWithParameters, .getter, .setter, .factory, .commandBuilder,
    .queryParametersMapper, .indexerBackwardCompatibility]

def name : MethodKind → String
  | .serializer => "Serializer"
  | .deserializer => "Deserializer"
  | .requestGenerator => "RequestGenerator"
  | .requestExecutor => "RequestExecutor"
  | .constructor => "Constructor"
  | .clientConstructor => "ClientConstructor"
  | .rawUrlConstructor => "RawUrlConstructor"
  | .requestBuilderWithParameters => "RequestBuilderWithParameters"
  | .getter => "Getter"
  | .setter => "Setter"
  | .factory => "Factory"
  | .commandBuilder => "CommandBuilder"
  | .queryParametersMapper => "QueryParametersMapper"
  | .indexerBackwardCompatibility => "IndexerBackwardCompatibility"
  | .unknown _ => "Unknown"

def isConstructor : MethodKind → Bool
  | .constructor | .clientConstructor | .rawUrlConstructor => true
  | _ => false

end MethodKind

/-! ### Access -/

/-- Where a member may be used. -/
inductive Access where
  | everywhere
  | inHeirs
  | inClass
  | unknown (code : Int)
deriving DecidableEq, Repr

namespace Access

def known : List Access := [.everywhere, .inHeirs, .inClass]

def name : Access → String
  | .everywhere => "Public"
  | .inHeirs => "Protected"
  | .inClass => "Private"
  | .unknown _ => "Unknown"

end Access

/-! ### Codes -/

/-- The kind with a code: its place among the known kinds, or else an unknown one. -/
def ofCode {K : Type} (known : List K) (unknown : Int → K) (code : Int) : K :=
  if code < 0 then unknown code else known.getD code.toNat (unknown code)

end ClientForge.Graph
