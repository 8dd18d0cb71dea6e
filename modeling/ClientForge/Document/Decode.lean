import ClientForge.Document.Members
import ClientForge.Text.Digest

/-!
# Decoding documents

A document becomes a graph in two steps. First every namespace, enum and class is declared, so that types can
refer to any of them whatever the order; namespaces of one name inside the same namespace are one. Then the
classes get their members, in the order in which they were declared.
-/

namespace ClientForge.Document

open ClientForge.Graph

/-! ### Declaring -/

/-- A class entry and the namespace that it stands in. -/
structure PlacedClass where
  place : NamespaceRef
  entry : ClassEntry

/-- What has been declared so far. -/
structure Declared where
  enums : Array Enum := #[]
  classes : Array PlacedClass := #[]
  /-- All declarations, latest first. -/
  all : List Declaration := []
  nextNamespace : Nat := 1

abbrev Declare := StateM Declared

def declareEnum (place : NamespaceRef) (e : EnumEntry) : Declare EnumId := do
  let id : EnumId := ⟨(← get).enums.size⟩
  let declared : Enum := {
    id
    name := e.name
    home := some place
    options := e.options.map fun o => ⟨o.name, o.serializationName, o.text.documentation⟩
    flags := e.flags
    documentation := e.text.documentation }
  modify fun d => { d with enums := d.enums.push declared, all := ⟨.ofEnum id, place, e.name⟩ :: d.all }
  pure id

def declareClass (place : NamespaceRef) (e : ClassEntry) : Declare ClassId := do
  let id : ClassId := ⟨(← get).classes.size⟩
  modify fun d => { d with classes := d.classes.push ⟨place, e⟩, all := ⟨.ofClass id, place, e.name⟩ :: d.all }
  pure id

/-- A new namespace inside another. -/
def newNamespace (parent : NamespaceId) (name : String) : Declare Namespace := do
  let id : NamespaceId := ⟨(← get).nextNamespace⟩
  modify fun d => { d with nextNamespace := d.nextNamespace + 1 }
  pure { id, name, parent := some parent }

/-- The full name of a namespace inside another. -/
def childName (parent segment : String) : String :=
  if parent.isEmpty then segment else parent ++ "." ++ segment

mutual

/-- Declares what an entry holds in a namespace. -/
def declare : NamespaceEntry → Namespace → Declare Namespace
  | ⟨_, enums, classes, namespaces⟩, ns => do
    let enums ← enums.mapM (declareEnum ns.ref)
    let classes ← classes.mapM (declareClass ns.ref)
    declareChildren namespaces { ns with enums := ns.enums ++ enums, classes := ns.classes ++ classes }

/-- Declares entries as children of a namespace, each in the child of its name. -/
def declareChildren : List NamespaceEntry → Namespace → Declare Namespace
  | [], ns => pure ns
  | entry :: entries, ns => do
    let name := childName ns.name entry.name
    match ns.children.span (·.name != name) with
    | (before, found :: after) =>
      let child ← declare entry found
      declareChildren entries { ns with children := before ++ child :: after }
    | (before, []) =>
      let child ← declare entry (← newNamespace ns.id name)
      declareChildren entries { ns with children := before ++ [child] }

end

/-! ### Documents -/

/-- The graph of a document's root entry. -/
def graphOf (entry : NamespaceEntry) : Except Failure Graph := do
  if Text.isBlankText entry.name then throw (.cause .unnamedRoot)
  let (root, declared) := (declare entry { id := ⟨0⟩, name := entry.name }).run {}
  let names : Names := ⟨root.ref, declared.all⟩
  let classes ← declared.classes.toList.zipIdx.mapM fun (c, i) => classOf names c.place ⟨i⟩ c.entry
  pure { root, classes := classes.toArray, enums := declared.enums }

/-- A decoded document. -/
structure Source where
  graph : Graph
  /-- The digest of the text, by which a run can tell that it changed. -/
  hash : String

/-- Decodes the text of a document. -/
def decode (text : String) : Except Failure Source :=
  match Outcome.ofText text with
  | .unreadable => .error (.within "parse IR document" (.cause .unreadable))
  | .absent => .error (.cause .emptyDocument)
  | .mismatched found =>
    .error (.within "parse IR document" (.cause (.mismatched (found.map Mismatch.message))))
  | .read entry => do
    pure ⟨← graphOf entry, Text.Digest.sha256 text⟩

end ClientForge.Document
