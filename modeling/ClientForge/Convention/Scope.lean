import ClientForge.Convention.Policy

/-!
# Scopes

A scope keeps the names of one file apart. The first element to claim a name keeps it; another one with the
same name is qualified by its namespace. The scope also remembers which namespaces the file has to import.
-/

namespace ClientForge.Convention

open ClientForge.Graph

structure Scope where
  /-- Short names with the element that claimed each. -/
  bound : List (String × DefinitionId) := []
  /-- The namespaces to import, each once. -/
  imported : List NamespaceRef := []
deriving Repr

namespace Scope

def owner? (s : Scope) (name : String) : Option DefinitionId := s.bound.lookup name

def bind (s : Scope) (name : String) (d : DefinitionId) : Scope := { s with bound := (name, d) :: s.bound }

def addImport (s : Scope) (n : NamespaceRef) : Scope :=
  if s.imported.any (·.id == n.id) then s else { s with imported := n :: s.imported }

/-- The namespace of an element that is declared elsewhere than in a given namespace. -/
def foreignHome (place : Option NamespaceId) (d : Definition) : Option NamespaceRef :=
  match d.home with
  | some n => if some n.id == place then none else some n
  | none => none

/-- The name of an element where a namespace refers to it. -/
def name (p : Policy) (place : Option NamespaceId) (d : Definition) (s : Scope) : String × Scope :=
  let short := p.typeName d.name
  let foreign := foreignHome place d
  let visible (s : Scope) := match foreign with
    | some n => s.addImport n
    | none => s
  match foreign, p.qualifiesForeign with
  | some n, true => (p.qualify n.name short, s.addImport n)
  | _, _ =>
    match s.owner? short with
    | none => (short, visible (s.bind short d.id))
    | some owner =>
      if owner == d.id then (short, visible s)
      else match d.home with
        | some n => (p.qualify n.name short, s)
        | none => (short, s)

/-- The imported namespaces, ordered by name. -/
def imports (s : Scope) : List NamespaceRef :=
  s.imported.reverse.mergeSort fun a b => decide (a.name ≤ b.name)

/-- A type as the target writes it where a namespace refers to it. -/
def translate (g : Graph) (p : Policy) (place : Option NamespaceId) (t : Option TypeExpr) (s : Scope) :
    Except Failure String × Scope :=
  (translate? (m := ExceptT Failure (StateM Scope)) g p
    (fun d => ExceptT.lift (modifyGet (name p place d))) t).run.run s

end Scope

end ClientForge.Convention
