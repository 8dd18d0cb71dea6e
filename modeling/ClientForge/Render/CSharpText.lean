import ClientForge.Render.Site

/-!
# Names, types and comments in C#

How C# clients write names, types and documentation, and what they import for them.
-/

namespace ClientForge.Render.CSharp

open ClientForge.Graph ClientForge.Plan ClientForge.Convention

/-! ### Imports -/

def abstractions : String := "Microsoft.Kiota.Abstractions"

def serialization : String := "Microsoft.Kiota.Abstractions.Serialization"

def store : String := "Microsoft.Kiota.Abstractions.Store"

/-- What every class imports. -/
def clientUsings : List String :=
  ["System", "System.Collections.Generic", "System.IO", "System.Linq", "System.Threading",
    "System.Threading.Tasks"]

/-- What classes with commands import besides. -/
def commandUsings : List String :=
  ["Microsoft.Extensions.DependencyInjection", "Microsoft.Kiota.Cli.Commons",
    "Microsoft.Kiota.Cli.Commons.Extensions", "Microsoft.Kiota.Cli.Commons.IO", "System.CommandLine",
    "System.Text"]

/-- The C# namespace of a namespace. -/
def namespaceName (p : Policy) (space : Option NamespaceRef) : String :=
  match space with
  | none => ""
  | some n => ".".intercalate ((Text.split '.' n.name).map (p.identifier .pascal))

/-! ### Local variables -/

def requestInfo : String := "requestInfo"

def errorMapping : String := "errorMapping"

def pathParams : String := "urlTplParams"

def mappingValue : String := "mappingValue"

def requestConfig : String := "requestConfig"

/-! ### Comments -/

/-- A text without the characters that mark up comments. -/
def escapedChars (cs : List Char) : List Char :=
  cs.flatMap fun c =>
    if c = '&' then "&amp;".toList
    else if c = '<' then "&lt;".toList
    else if c = '>' then "&gt;".toList
    else [c]

def escaped (text : String) : String := String.ofList (escapedChars text.toList)

/-- The words for a link. -/
def linkLabel (d : Documentation) : String := if d.label.isEmpty then "Find more info here" else d.label

/-- Documentation as a comment. -/
def comment (p : Policy) (d : Documentation) : List String :=
  let text := Text.trim d.description
  if text.isEmpty && d.link.isEmpty then []
  else
    ["/// <summary>"] ++ p.docLines (escaped text) ++
      (if d.link.isEmpty then []
        else ["/// " ++ escaped (linkLabel d) ++ " <see href=" ++ Text.quoted d.link ++ " />"]) ++
      ["/// </summary>"]

/-! ### Types -/

/-- The type of a property. What belongs to the runtime has a fixed type. -/
def propertyType (c : Context) (p : Property) : Script String :=
  match p.kind with
  | .pathParameters => pure "Dictionary<string, object>"
  | .additionalData => pure "IDictionary<string, object>"
  | .headers => pure "RequestHeaders"
  | .options => pure "IList<IRequestOption>"
  | .requestAdapter => pure "IRequestAdapter"
  | .backingStore => do
    need store
    pure "IBackingStore"
  | .urlTemplate => pure "string"
  | _ => typeText c p.type

/-- The type of a parameter. A request configuration is something that configures a fresh one. -/
def parameterType (c : Context) (p : Parameter) : Script String :=
  match p.kind with
  | .pathParameters => pure "Dictionary<string, object>"
  | .requestAdapter => pure "IRequestAdapter"
  | .serializer => do
    need serialization
    pure "ISerializationWriter"
  | .parseNode => do
    need serialization
    pure "IParseNode"
  | .backingStore => do
    need store
    pure "IBackingStoreFactory"
  | .rawUrl => pure "string"
  | .cancellation => pure "CancellationToken"
  | .requestConfiguration =>
    match p.type.ref?.bind c.graph.classOf with
    | some config => do
      let config ← className config
      pure s!"Action<{config}>"
    | none => typeText c (some p.type)
  | _ => typeText c (some p.type)

/-! ### Names -/

/-- The name of a property, which may be missing. -/
def memberOf (p : Policy) (property : Option Property) : String :=
  match property with
  | some q => p.memberName q.name
  | none => "null"

variable (s : Site)

def property (q : Property) : String := s.policy.memberName q.name

def property? (q : Option Property) : String := memberOf s.policy q

def parameter (q : Parameter) : String := s.policy.identifier .camel (s.body.nameOf q)

def adapter : String := property? s s.adapter

/-- The variable that values are written to. -/
def writer : String :=
  match s.method.parameterOfKind .serializer with
  | some p => parameter s p
  | none => "writer"

def methodName (m : Method) : String := s.policy.memberName m.name

/-- The factory of a class, which may be missing. -/
def factory (c : Option ClassDef) : Script String :=
  match c with
  | some c => do
    let name ← className c
    pure (name ++ "." ++ s.policy.memberName factoryMethod)
  | none => pure "null"

end ClientForge.Render.CSharp
