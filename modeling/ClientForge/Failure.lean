import ClientForge.Graph.Rule
import ClientForge.Settings.Fault
import ClientForge.Text.Shown

/-!
# Failures

Everything that can go wrong, as causes. A failure is a cause inside the contexts in which it arose; several
failures can be joined into one. `Failure.message` spells a failure out, outermost context first.
-/

namespace ClientForge

/-- Text inside a message. The single angle quotation marks belong to the message itself, so they are
shown as question marks. -/
def quotedIn (s : String) : String :=
  String.ofList (s.toList.map fun c => if c == '‹' || c == '›' then '?' else c)

inductive Cause where
  | structural (violation : Graph.Violation)
  /-- A kind of type that a target cannot express. -/
  | unsupported (construct type target : String)
  /-- A request body without a content type to send it as. -/
  | contentType (method http template : String)
  -- documents
  | unreadable
  | mismatched (found : List String)
  | emptyDocument
  | unnamedRoot
  | unnamedType
  | composedReference
  | ambiguousName (name : String)
  | unknownCollection (type collection : String)
  | unknownKind (element kind : String)
  | unknownAccess (access : String)
  | missingMember (role name : String)
  -- languages
  | unknownLanguage (identifier : String) (known : List String)
  -- plans
  | missingPolicy
  | missingHandler (kind : String)
  | unknownMethodKind (kind method : String)
  | notFactory (method : String)
  -- commands
  | noRootCommand
  | itemsNotCommand (method : String)
  | noCommand (method : String)
  -- rendering
  | unsupportedOperation (target operation : String)
  | navigationWithoutClass (property : String)
  /-- What a formatter answers. -/
  | unformatted (answer : String)
  | cancelled
  -- output
  | emptyPath
  | absolutePath
  | backslashPath
  | climbingPath
  | uncleanPath (expected path : String)
  | escapingPath (path : String)
  | existingFile (path : String)
  | emptyRoot
  /-- What the system answers. -/
  | system (answer : String)
  -- settings
  | setting (fault : Settings.Fault)
  | unreadableSettings
  | unfitSettings
  | misplaced (first : Settings.Misplaced) (others : Nat)
  -- runs
  | noSettings
  | noGraph
  | noDocument
deriving DecidableEq, Repr

/-- What an override that cannot be applied is answered with. -/
def Settings.Misplaced.message : Settings.Misplaced → String
  | .unknownKey key => "schema: invalid path " ++ Text.shown key
  | .unfitValue key => "schema: error converting value for " ++ Text.shown key
  | .wholeGroup group => "schema: converter not found for config." ++ group

/-- How many more errors there are. -/
def othersText : Nat → String
  | 0 => ""
  | 1 => " (and 1 other error)"
  | n => " (and " ++ toString n ++ " other errors)"

namespace Cause

def message : Cause → String
  | structural v => v.message
  | unsupported construct type target => target ++ " target cannot express " ++ construct ++ " " ++ type
  | contentType method http template =>
    method ++ ": no content type found when generating " ++ http ++ " request for " ++ template
  | unreadable => "yaml"
  | mismatched found => "yaml: unmarshal errors:" ++ String.join (found.map ("\n  " ++ ·))
  | emptyDocument => "empty IR document"
  | unnamedRoot => "root namespace has no name"
  | unnamedType => "type has no name"
  | composedReference => "composed type is not allowed here"
  | ambiguousName name =>
    quotedIn ("ambiguous type name " ++ Text.shown name ++ ": qualify it with its namespace")
  | unknownCollection type collection =>
    quotedIn ("type " ++ type ++ ": unknown collection " ++ Text.shown collection)
  | unknownKind element kind => quotedIn ("unknown " ++ element ++ " kind " ++ Text.shown kind)
  | unknownAccess access => quotedIn ("unknown access " ++ Text.shown access)
  | missingMember role name => quotedIn (role ++ " " ++ Text.shown name ++ " not found")
  | unknownLanguage identifier known =>
    quotedIn ("unknown language " ++ Text.shown identifier ++ " (expected one of " ++ ", ".intercalate known ++ ")")
  | missingPolicy => "synth: context with a policy is required"
  | missingHandler kind => quotedIn ("synth: no handler for method kind " ++ kind)
  | unknownMethodKind kind method => quotedIn ("synth: unknown method kind " ++ kind ++ " on " ++ method)
  | notFactory method => quotedIn ("synth: " ++ method ++ " is not a factory body")
  | noRootCommand => "cmdtree: graph has no root command builder"
  | itemsNotCommand method => quotedIn ("cmdtree: " ++ method ++ " returns item commands, not a command")
  | noCommand method => quotedIn ("cmdtree: " ++ method ++ " does not establish a command")
  | unsupportedOperation target operation => target ++ ": unsupported operation *synth." ++ operation
  | navigationWithoutClass property => quotedIn ("property " ++ property ++ ": navigation target is not a class")
  | unformatted answer => answer
  | cancelled => "context canceled"
  | emptyPath => "path is empty"
  | absolutePath => "absolute paths not allowed"
  | backslashPath => "backslash separators not allowed"
  | climbingPath => "path traversal not allowed"
  | uncleanPath expected path =>
    quotedIn ("path is not clean (expected " ++ Text.shown expected ++ ", got " ++ Text.shown path ++ ")")
  | escapingPath path => quotedIn ("path escapes root directory: " ++ Text.shown path)
  | existingFile path => quotedIn ("file already exists: " ++ Text.shown path)
  | emptyRoot => "clean: empty root directory"
  | system answer => answer
  | setting fault => fault.message
  | unreadableSettings => "not a readable settings file"
  | unfitSettings => "a setting has a value of the wrong type"
  | misplaced first others => first.message ++ othersText others
  | noSettings => "apigen: config is required"
  | noGraph => "apigen: element graph is required"
  | noDocument => "no IR document"

end Cause

inductive Failure where
  | cause (cause : Cause)
  | within (context : String) (inner : Failure)
  | hinted (hint : String) (inner : Failure)
  | joined (failures : List Failure)
deriving Repr, Inhabited

namespace Failure

def violation (rule : Graph.Rule) (element : String) : Failure := .cause (.structural ⟨rule, element⟩)

mutual

def message : Failure → String
  | cause c => c.message
  | within context inner => quotedIn context ++ ": " ++ inner.message
  | hinted _ inner => inner.message
  | joined failures => "\n".intercalate (messages failures)

def messages : List Failure → List String
  | [] => []
  | f :: fs => f.message :: messages fs

end

/-- The hints along the way to the cause, outermost first. Joined failures keep theirs to themselves. -/
def hints : Failure → List String
  | cause _ | joined _ => []
  | within _ inner => inner.hints
  | hinted hint inner => hint :: inner.hints

mutual

/-- All causes, in the order in which they are spelled out. -/
def causes : Failure → List Cause
  | cause c => [c]
  | within _ inner | hinted _ inner => inner.causes
  | joined failures => causesOf failures

def causesOf : List Failure → List Cause
  | [] => []
  | f :: fs => f.causes ++ causesOf fs

end

end Failure

/-- Adds a context to the failure of a computation. -/
def inContext {α : Type} (context : String) (x : Except Failure α) : Except Failure α :=
  x.mapError (.within context)

end ClientForge
