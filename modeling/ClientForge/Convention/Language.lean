import ClientForge.Convention.Policy

/-!
# Languages

The target languages and their policies. The command-line client is written in C# and follows its policy.
-/

namespace ClientForge.Convention

open ClientForge.Graph

inductive Language where
  | csharp
  | typescript
  | go
  | cli
deriving DecidableEq, Repr

namespace Language

def all : List Language := [.csharp, .typescript, .go, .cli]

/-- The identifier that settings and reports use. -/
def name : Language → String
  | csharp => "csharp"
  | typescript => "typescript"
  | go => "go"
  | cli => "cli"

/-- The language with an identifier, in any case. -/
def named (identifier : String) : Except Failure Language :=
  match all.find? (·.name == Text.lower identifier) with
  | some l => .ok l
  | none => .error (.cause (.unknownLanguage identifier (all.map name)))

/-- The language with exactly this identifier. -/
def spelled? (identifier : String) : Option Language := all.find? (·.name == identifier)

end Language

/-! ### C# -/

/-- The keywords for access levels that are spelled out. -/
def accessKeyword : Access → String
  | .everywhere => "public"
  | .inHeirs => "protected"
  | .inClass => "private"
  | .unknown _ => ""

def csharpReserved : List String :=
  ["abstract", "as", "base", "bool", "break", "byte", "case", "catch", "char", "checked", "class", "const",
    "continue", "decimal", "default", "delegate", "do", "double", "else", "enum", "event", "explicit",
    "extern", "false", "finally", "fixed", "float", "for", "foreach", "goto", "if", "implicit", "in", "int",
    "interface", "internal", "is", "lock", "long", "namespace", "new", "null", "object", "operator", "out",
    "override", "params", "private", "protected", "public", "readonly", "ref", "return", "sbyte", "sealed",
    "short", "sizeof", "stackalloc", "static", "string", "struct", "switch", "this", "throw", "true", "try",
    "typeof", "uint", "ulong", "unchecked", "unsafe", "ushort", "using", "virtual", "void", "volatile",
    "while"]

def csharpPolicy : Policy where
  target := "csharp"
  primitives := ["string", "bool", "int", "long", "float", "double", "decimal", "Guid", "DateTimeOffset",
    "Date", "Time", "TimeSpan", "byte[]", "byte", "sbyte", "void", "Stream"]
  scalarNames := [("string", "string"), ("boolean", "bool"), ("integer", "int"), ("int64", "long"),
    ("float", "float"), ("double", "double"), ("decimal", "decimal"), ("guid", "Guid"),
    ("datetimeoffset", "DateTimeOffset"), ("dateonly", "Date"), ("timeonly", "Time"),
    ("duration", "TimeSpan"), ("byte", "byte"), ("sbyte", "sbyte"), ("binary", "byte[]"),
    ("base64", "byte[]"), ("stream", "Stream"), ("void", "void"), ("untypednode", "UntypedNode")]
  access := accessKeyword
  reserved := csharpReserved
  nullable := .question
  array name := name ++ "[]"
  list name := "List<" ++ name ++ ">"
  qualify space name := space ++ "." ++ name
  docMark := "/// "
  streamType := "Stream"
  voidType := "void"
  typeCase := .pascal
  memberCase := .pascal
  fileCase := .pascal
  extension := ".cs"

def cliPolicy : Policy := { csharpPolicy with target := "cli" }

/-! ### TypeScript -/

def typescriptReserved : List String :=
  ["break", "case", "catch", "class", "const", "continue", "debugger", "default", "delete", "do", "else",
    "enum", "export", "extends", "false", "finally", "for", "function", "if", "implements", "import", "in",
    "instanceof", "interface", "let", "new", "null", "package", "private", "protected", "public", "return",
    "static", "super", "switch", "this", "throw", "true", "try", "type", "typeof", "var", "void", "while",
    "with", "yield"]

def typescriptPolicy : Policy where
  target := "typescript"
  primitives := ["string", "boolean", "number", "Guid", "Date", "DateOnly", "TimeOnly", "Duration",
    "ArrayBuffer", "void"]
  scalarNames := [("string", "string"), ("boolean", "boolean"), ("integer", "number"), ("int64", "number"),
    ("float", "number"), ("double", "number"), ("decimal", "number"), ("byte", "number"),
    ("sbyte", "number"), ("guid", "Guid"), ("datetimeoffset", "Date"), ("dateonly", "DateOnly"),
    ("timeonly", "TimeOnly"), ("duration", "Duration"), ("binary", "string"), ("base64", "string"),
    ("stream", "ArrayBuffer"), ("void", "void"), ("untypednode", "UntypedNode")]
  access := accessKeyword
  reserved := typescriptReserved
  nullable := .orNull
  array name := name ++ "[]"
  list name := name ++ "[]"
  qualify space name := Text.replaceChar '.' "_" space ++ "_" ++ name
  docMark := " * "
  streamType := "ArrayBuffer"
  voidType := "void"
  composedTypes := true
  typeCase := .pascal
  memberCase := .camel
  fileCase := .kebab
  extension := ".ts"

/-! ### Go -/

def goReserved : List String :=
  ["break", "case", "chan", "const", "continue", "default", "defer", "else", "fallthrough", "for", "func",
    "go", "goto", "if", "import", "interface", "map", "package", "range", "return", "select", "struct",
    "switch", "type", "var"]

/-- The package of a namespace: its last part, in lower case and without dashes and underscores. -/
def packageName (space : String) : String :=
  let segment := (Text.splitLast '.' space).2
  Text.lower (String.ofList (segment.toList.filter fun c => c != '-' && c != '_'))

def goPolicy : Policy where
  target := "go"
  primitives := ["string", "bool", "int32", "int64", "float32", "float64", "uuid.UUID", "time.Time",
    "serialization.DateOnly", "serialization.TimeOnly", "serialization.ISODuration", "byte", "int8",
    "[]byte"]
  scalarNames := [("string", "string"), ("boolean", "bool"), ("integer", "int32"), ("int64", "int64"),
    ("float", "float32"), ("double", "float64"), ("decimal", "float64"), ("byte", "byte"),
    ("sbyte", "int8"), ("guid", "uuid.UUID"), ("datetimeoffset", "time.Time"),
    ("dateonly", "serialization.DateOnly"), ("timeonly", "serialization.TimeOnly"),
    ("duration", "serialization.ISODuration"), ("binary", "[]byte"), ("base64", "[]byte"),
    ("stream", "[]byte"), ("void", ""), ("untypednode", "serialization.UntypedNodeable")]
  access _ := ""
  reserved := goReserved
  nullable := .pointer
  array name := "[]" ++ name
  list name := "[]" ++ name
  qualify space name := packageName space ++ "." ++ name
  qualifiesForeign := true
  docMark := "// "
  streamType := "[]byte"
  voidType := ""
  typeCase := .pascal
  memberCase := .pascal
  fileCase := .snake
  extension := ".go"

def Language.policy : Language → Policy
  | .csharp => csharpPolicy
  | .typescript => typescriptPolicy
  | .go => goPolicy
  | .cli => cliPolicy

end ClientForge.Convention
