import ClientForge.Render.CSharpFile
import ClientForge.Render.GoFile
import ClientForge.Render.TypeScriptFile

/-!
# Emission

A target renders a graph as source files, one for every enum and one for every class that the namespaces
list, enums first. A file has the text of the page on which the script of its element was followed, as its formatter
lays it out.
-/

namespace ClientForge.Render

open ClientForge.Graph ClientForge.Plan ClientForge.Convention

structure SourceFile where
  path : String
  content : String
deriving DecidableEq, Repr

/-- What lays out the text of the file at a path, or answers why it cannot. -/
abbrev Formatter := (path text : String) → Except String String

/-- Leaves every text as it is. -/
def asWritten : Formatter := fun _ text => .ok text

/-- How the files of a target are written. -/
structure Renderer where
  indentUnit : String := "    "
  /-- The depth at which declarations stand. -/
  depth : Nat := 0
  enumScript : Context → Enum → Script Unit
  classScript : Context → ClassDef → Script Unit
  /-- The text of the file at a path in a namespace. -/
  fileText : Policy → (root : NamespaceRef) → (path : String) → (place : Option NamespaceRef) → Page → String
  /-- What is done to a text before it is written. -/
  format : Formatter := asWritten

namespace Renderer

/-- C# clients, with or without commands. Declarations stand inside the namespace. -/
def csharp (commands : Bool) : Renderer where
  depth := 1
  enumScript := CSharp.enumScript
  classScript := CSharp.classScript commands
  fileText p _ _ place page := CSharp.fileText p place page

def typescript : Renderer where
  enumScript := TypeScript.enumScript
  classScript := TypeScript.classScript
  fileText p root path _ page := TypeScript.fileText p root path page

/-- Go clients, with the import path of the package for the root namespace if it is not the package's name. -/
def go (importPath : String) : Renderer where
  indentUnit := "\t"
  enumScript := Go.enumScript
  classScript := Go.classScript
  fileText _ root _ place page := Go.fileText importPath root place page

/-- The renderer of a language. Only Go has a formatter. -/
def forLanguage (importPath : String) (format : Formatter) : Language → Renderer
  | .csharp => csharp false
  | .cli => csharp true
  | .typescript => typescript
  | .go => { go importPath with format }

/-- A file with its text laid out. -/
def formatted (r : Renderer) (f : SourceFile) : Except Failure SourceFile :=
  match r.format f.path f.content with
  | .ok content => .ok { f with content }
  | .error answer => .error (.within ("format " ++ f.path) (.cause (.unformatted answer)))

end Renderer

/-- Whether a language has commands. -/
def hasCommands (l : Language) : Bool := l == .cli

section Emit

variable (r : Renderer) (e : Engine)

/-- An empty page for an element. -/
def startPage (d : Definition) : Page :=
  let host := match d with
    | .ofClass c => some c.id
    | .ofEnum _ => none
  { writer := { indentUnit := r.indentUnit, depth := r.depth }, host }

def scriptOf : Definition → Script Unit
  | .ofClass c => r.classScript e.context c
  | .ofEnum x => r.enumScript e.context x

/-- The page of an element, as far as its script can be followed. -/
def pageOf (d : Definition) : Except Failure Unit × Page :=
  (scriptOf r e d).follow e (d.home.map (·.id)) (startPage r d)

/-- The file that a page for an element becomes, before it is formatted. -/
def fileOf (d : Definition) (page : Page) : SourceFile :=
  let root := e.context.graph.root.ref
  let path := unitPath e.context.policy root d
  ⟨path, r.fileText e.context.policy root path d.home page⟩

/-- Emitting, with the methods whose bodies were planned so far, latest first. -/
abbrev Emission := ExceptT Failure (StateM (List Method))

def emitElement (d : Definition) : Emission SourceFile := do
  let (outcome, page) := pageOf r e d
  modify (page.planned ++ ·)
  match outcome with
  | .ok () => ExceptT.mk (pure (r.formatted (fileOf r e d page)))
  | .error failure => throw (.within ("emit " ++ d.qualifiedName) failure)

/-- A class is not begun once the run is cancelled. -/
def emitClass (cancelled : Bool) (c : ClassDef) : Emission SourceFile := do
  if cancelled then throw (.cause .cancelled) else emitElement r e (.ofClass c)

/-- All files of a target. -/
def emit (cancelled : Bool) : Emission (List SourceFile) := do
  let enums ← e.context.graph.allEnums.mapM fun x => emitElement r e (.ofEnum x)
  let classes ← e.context.graph.allClasses.mapM (emitClass r e cancelled)
  pure (enums ++ classes)

end Emit

end ClientForge.Render
