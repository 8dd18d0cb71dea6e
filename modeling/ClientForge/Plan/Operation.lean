import ClientForge.Graph.Element

/-!
# Operations

What a method body does, independent of any target language. A body is a list of operations; command builders
have operations of their own, and so has the code that runs when a command is invoked.
-/

namespace ClientForge.Plan

open ClientForge.Graph

/-- How a value is read or written. -/
inductive ValueVariant where
  | primitive
  | enumeration
  | byteArray
  | collectionOfPrimitive
  | collectionOfEnum
  | collectionOfObject
  | object
  | composed
deriving DecidableEq, Repr

def ValueVariant.name : ValueVariant → String
  | primitive => "Primitive"
  | enumeration => "Enum"
  | byteArray => "ByteArray"
  | collectionOfPrimitive => "CollectionOfPrimitive"
  | collectionOfEnum => "CollectionOfEnum"
  | collectionOfObject => "CollectionOfObject"
  | object => "Object"
  | composed => "Composed"

def ValueVariant.all : List ValueVariant :=
  [.primitive, .enumeration, .byteArray, .collectionOfPrimitive, .collectionOfEnum, .collectionOfObject,
    .object, .composed]

/-- How a request is sent, by what comes back. -/
inductive SendVariant where
  | noContent
  | primitive
  | primitiveCollection
  | object
  | objectCollection
deriving DecidableEq, Repr

def SendVariant.name : SendVariant → String
  | noContent => "NoContent"
  | primitive => "Primitive"
  | primitiveCollection => "PrimitiveCollection"
  | object => "Object"
  | objectCollection => "ObjectCollection"

def SendVariant.all : List SendVariant :=
  [.noContent, .primitive, .primitiveCollection, .object, .objectCollection]

/-- How a command comes to be. -/
inductive CommandSource where
  | fresh
  | root
  /-- The command of a builder of the indexer's target. -/
  | fromIndexer
  /-- The command of a sibling that navigates to a property. -/
  | fromNavigation
deriving DecidableEq, Repr

def CommandSource.name : CommandSource → String
  | fresh => "New"
  | root => "Root"
  | fromIndexer => "FromIndexer"
  | fromNavigation => "FromNavigation"

def CommandSource.all : List CommandSource := [.fresh, .root, .fromIndexer, .fromNavigation]

/-- How many values an option takes. -/
inductive Arity where
  | standard
  | zeroOrMore
  | oneOrMore
deriving DecidableEq, Repr

def Arity.name : Arity → String
  | standard => "Default"
  | zeroOrMore => "ZeroOrMore"
  | oneOrMore => "OneOrMore"

def Arity.all : List Arity := [.standard, .zeroOrMore, .oneOrMore]

/-- What an option of a command is for. -/
inductive OptionSource where
  | path
  | query
  | header
  | body
  | bodyFile
  | contentType
  | outputFormat
  | outputFilter
  | outputFile
  | allPages
deriving DecidableEq, Repr

def OptionSource.name : OptionSource → String
  | path => "Path"
  | query => "Query"
  | header => "Header"
  | body => "Body"
  | bodyFile => "BodyFile"
  | contentType => "ContentType"
  | outputFormat => "OutputFormat"
  | outputFilter => "OutputFilter"
  | outputFile => "OutputFile"
  | allPages => "All"

def OptionSource.all : List OptionSource :=
  [.path, .query, .header, .body, .bodyFile, .contentType, .outputFormat, .outputFilter, .outputFile,
    .allPages]

/-- How a command shows what came back. -/
inductive OutputMode where
  | success
  | stream
  | formatted
  | text
deriving DecidableEq, Repr

def OutputMode.name : OutputMode → String
  | success => "Success"
  | stream => "Stream"
  | formatted => "Formatted"
  | text => "Text"

def OutputMode.all : List OutputMode := [.success, .stream, .formatted, .text]

/-! ### Parts of operations -/

/-- A property under its key in serialized form. -/
structure ValueSlot where
  key : String
  property : Property
  variant : ValueVariant
deriving Repr

/-- A path parameter under its key. -/
structure PathEntry where
  key : String
  parameter : Parameter
deriving Repr

/-- The body of a request and what it is sent as. The parameter, if any, decides when the request is made. -/
structure Content where
  body : Parameter
  contentType : String
  contentTypeParameter : Option Parameter
deriving Repr

/-- The error type for the responses that a pattern matches. -/
structure ErrorEntry where
  pattern : String
  type : TypeRef
deriving Repr

/-- A call of the generator, with an argument for each parameter of its signature, where there is one. -/
structure GeneratorCall where
  generator : Method
  arguments : List (Option Parameter)
deriving Repr

/-- Sends a request. The type is that of one element, and missing where nothing comes back. -/
structure Send where
  variant : SendVariant
  type : Option TypeRef := none
  unwrapArray : Bool := false
  errorMapping : Bool
  cancellation : Option Parameter := none
deriving Repr

/-- One case of the choice of a class by a discriminator value. -/
structure DiscriminatorCase where
  key : String
  type : ClassDef
deriving Repr

structure QueryNameCase where
  name : String
  serializationName : String
deriving DecidableEq, Repr

/-- One option of a command. -/
structure CommandOption where
  /-- The name without dashes in front. -/
  name : String
  source : OptionSource
  parameter : Option Parameter := none
  type : Option TypeRef := none
  required : Bool := false
  collection : Bool := false
  arity : Arity := .standard
  defaultValue : String := ""
  description : String := ""
deriving Repr

/-- A call of a command builder, on a local builder or on the class itself. -/
structure SubCommand where
  builder : Option String := none
  method : Method
  /-- Whether the method gives lists of commands and not a single one. -/
  items : Bool
deriving Repr

/-- Creates a request builder for a class and keeps it in a local variable. -/
structure BuilderLocal where
  name : String
  target : ClassDef
  pathParameters : Option Property
  path : List Parameter
deriving Repr

/-- Establishes the command of a builder. -/
structure InitCommand where
  source : CommandSource
  name : String := ""
  description : String := ""
  indexer : Option Indexer := none
  /-- The indexer's target. -/
  builder : Option ClassDef := none
  /-- The method whose command is used again. -/
  reused : Option Method := none
deriving Repr

/-- Adds sub-commands: executable ones first and then containers, unless they are added directly, in order. -/
structure AddSubCommands where
  commands : List SubCommand
  direct : Bool := false
  sortContainers : Bool := false
deriving Repr

/-- Gives back the commands of an indexer's target as lists. -/
structure ItemCommands where
  builder : String
  executables : List Method
  containers : List Method
deriving Repr

/-- Prepares the request of a command from its options. -/
structure BuildRequest where
  generator : Method
  body : Option Parameter
  contentType : Option Parameter
  query : List Parameter
  path : List Parameter
  headers : List Parameter
  stream : Bool
deriving Repr

/-! ### Operations -/

/-- What is done when a command is invoked. -/
inductive HandlerStep where
  /-- Parses the body option, and gives up when nothing parses. -/
  | parseBody (parameter : Parameter) (type : TypeRef) (contentType : String)
  /-- Opens the body file, and gives up when there is none. -/
  | openInputFile (parameter : Parameter)
  | buildRequest (request : BuildRequest)
  | errorMappingTable (entries : List ErrorEntry)
  | send (send : Send)
  | sendPaged (itemName nextLinkName : String) (errorMapping : Bool)
  | writeOutput (mode : OutputMode) (filter paged : Bool)
deriving Repr

/-- What a command builder does. -/
inductive CommandStep where
  | initCommand (init : InitCommand)
  | instantiateBuilder (builder : BuilderLocal)
  | addSubCommands (add : AddSubCommands)
  | returnItemCommands (items : ItemCommands)
  | addOption (option : CommandOption)
  | handler (steps : List HandlerStep)
  | returnCommand
deriving Repr

/-- The name of a kind of step in messages. -/
def CommandStep.name : CommandStep → String
  | initCommand _ => "InitCommand"
  | instantiateBuilder _ => "InstantiateBuilder"
  | addSubCommands _ => "AddSubCommands"
  | returnItemCommands _ => "ReturnItemCommands"
  | addOption _ => "AddOption"
  | handler _ => "CommandHandler"
  | returnCommand => "ReturnCommand"

inductive Operation where
  -- serializing
  | callBaseSerializer (base : ClassDef)
  | writeValue (slot : ValueSlot)
  | writeAdditionalData (property : Property)
  /-- Maps keys to setters, on top of the map of the base class. -/
  | fieldMap (base : Option ClassDef) (slots : List ValueSlot)
  -- preparing requests
  | newRequestInfo (http : String) (urlTemplate pathParameters : Option Property)
  | addHeader (name value : String)
  | setStreamContent (content : Content)
  | setStructuredContent (content : Content) (type : TypeRef)
  | setScalarContent (content : Content) (type : TypeExpr)
  /-- Lets the caller configure the request, and takes over each part that the configuration declares. -/
  | configureRequest (config : Parameter) (type : Option ClassDef) (queryParameters options headers : Bool)
  -- executing requests
  | callGenerator (call : GeneratorCall)
  | errorMappingTable (entries : List ErrorEntry)
  | send (send : Send)
  -- constructing
  /-- Assigns a default. The enum is there when the value is one of its options. -/
  | assignDefault (property : Property) (value : String) (enum : Option Enum)
  | seedPathParameters (property : Property) (source : Option Parameter) (entries : List PathEntry)
  | seedRawUrl (property : Property) (parameter : Parameter) (key : String)
  | forwardParameter (property : Property) (parameter : Parameter)
  | registerSerializer (module : String)
  | registerDeserializer (module : String)
  /-- Sets the base URL where the adapter has none. -/
  | setBaseUrl (adapter : Property) (url : String)
  | addBaseUrlParameter (property adapter : Property)
  | enableBackingStore (adapter : Property) (parameter : Parameter)
  | configureRetry (adapter : Property) (delaySeconds maxRetries : Int)
  | configureRedirect (adapter : Property) (maxRedirects : Int)
  -- choosing a class
  | readDiscriminator (parseNode : Parameter) (propertyName : String)
  | discriminatorSwitch (cases : List DiscriminatorCase) (fallback : ClassDef)
  | construct (type : ClassDef)
  -- navigating and accessing
  | constructBuilder (target : TypeRef) (pathParameters adapter : Option Property) (extra : List PathEntry)
  | readProperty (property : Property) (backingStore : Option Property) (key : String)
  | writeProperty (property : Property) (value : Parameter) (backingStore : Option Property) (key : String)
  | mapQueryName (input : Parameter) (cases : List QueryNameCase)
  | command (step : CommandStep)
deriving Repr

/-- The key under which path parameters hold a raw URL. -/
def rawUrlKey : String := "request-raw-url"

/-- The key under which path parameters hold the base URL. -/
def baseUrlKey : String := "baseurl"

/-- The body of a method. -/
structure Body where
  method : Method
  operations : List Operation
  /-- The local names of parameters that are rebound. -/
  aliases : List (ParameterId × String) := []
deriving Repr

/-- The name of a parameter inside a body. -/
def Body.nameOf (b : Body) (p : Parameter) : String := (b.aliases.lookup p.id).getD p.name

end ClientForge.Plan
