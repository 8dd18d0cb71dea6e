import ClientForge.Render.Calls
import ClientForge.Render.Script
import ClientForge.Text.Quoted

/-!
# Sites

A site is where operations are written down: the body of a method inside its class.
-/

namespace ClientForge.Render

open ClientForge.Graph ClientForge.Plan

structure Site where
  context : Context
  host : ClassDef
  body : Body

namespace Site

variable (s : Site)

def graph : Graph := s.context.graph

def policy : Convention.Policy := s.context.policy

def method : Method := s.body.method

/-- The property that holds the adapter of the class. -/
def adapter : Option Property := s.host.propertyOfKind .requestAdapter

end Site

/-- Writes the body of a method down at its site. -/
def atSite (c : Context) (m : Method) (f : Site → Script Unit) : Script Unit := do
  let body ← planOf m
  match c.graph.parentOf m with
  | some host => f ⟨c, host, body⟩
  | none => throw (.violation .missingParent (c.graph.methodName m))

/-- A type as the file at hand writes it. A missing type is written as nothing is. -/
def typeText (c : Context) (t : Option TypeExpr) : Script String :=
  Convention.translate? c.graph c.policy nameOf t

def refText (c : Context) (t : TypeRef) : Script String := typeText c (some (.scalar t))

/-- The name of the element that a type refers to. -/
def definitionName (c : Context) (t : TypeRef) : Script String :=
  match t.definition.bind c.graph.definition? with
  | some d => nameOf d
  | none => pure t.name

def className (c : ClassDef) : Script String := nameOf (.ofClass c)

def commaList (texts : List String) : String := ", ".intercalate texts

end ClientForge.Render
