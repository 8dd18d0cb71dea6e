import ClientForge.Graph.Element

/-!
# Graphs

A graph is a tree of namespaces over a table of classes and a table of enums. Namespaces list what they
declare; a class outside every namespace can still be referred to. Here references are followed, and elements
get the names by which messages call them.
-/

namespace ClientForge

structure Graph where
  root : Graph.Namespace
  classes : Array Graph.ClassDef
  enums : Array Graph.Enum
deriving Repr

namespace Graph

/-! ### Following references -/

def class? (g : Graph) (id : ClassId) : Option ClassDef := g.classes[id.index]?

def enum? (g : Graph) (id : EnumId) : Option Enum := g.enums[id.index]?

def definition? (g : Graph) : DefinitionId → Option Definition
  | .ofClass id => (g.class? id).map .ofClass
  | .ofEnum id => (g.enum? id).map .ofEnum

def method? (g : Graph) (id : MethodId) : Option Method :=
  (g.class? id.owner).bind (·.methods[id.index]?)

def property? (g : Graph) (id : PropertyId) : Option Property :=
  (g.class? id.owner).bind (·.properties[id.index]?)

def indexer? (g : Graph) (id : IndexerId) : Option Indexer :=
  (g.class? id.owner).bind (·.indexers[id.index]?)

/-- The class that a type refers to. -/
def classOf (g : Graph) (t : TypeRef) : Option ClassDef :=
  match t.definition with
  | some (.ofClass id) => g.class? id
  | _ => none

/-- The enum that a type refers to. -/
def enumOf (g : Graph) (t : TypeRef) : Option Enum :=
  match t.definition with
  | some (.ofEnum id) => g.enum? id
  | _ => none

def baseClass (g : Graph) (c : ClassDef) : Option ClassDef := c.inherits.bind g.classOf

def parentOf (g : Graph) (m : Method) : Option ClassDef := m.parent.bind g.class?

def representedMethod (g : Graph) (m : Method) : Option Method := m.representedMethod.bind g.method?

def representedIndexer (g : Graph) (m : Method) : Option Indexer := m.representedIndexer.bind g.indexer?

def accessedProperty (g : Graph) (m : Method) : Option Property := m.accessedProperty.bind g.property?

/-- The request builder that an indexer gives access to. -/
def indexerTarget (g : Graph) (x : Indexer) : Option ClassDef := x.returnType.bind g.classOf

/-! ### Changing elements -/

/-- The graph with one class changed. -/
def modifyClass (g : Graph) (id : ClassId) (f : ClassDef → ClassDef) : Graph :=
  { g with classes := g.classes.modify id.index f }

/-- The graph with one more class, which no namespace lists. -/
def addUnlisted (g : Graph) (name : String) : Graph × ClassId :=
  let id : ClassId := ⟨g.classes.size⟩
  ({ g with classes := g.classes.push { id, name, home := none } }, id)

/-! ### All elements -/

/-- All namespaces, depth first from the root. -/
def namespaces (g : Graph) : List Namespace := g.root.all

def namespace? (g : Graph) (id : NamespaceId) : Option Namespace := g.namespaces.find? (·.id == id)

/-- Goes from a namespace to its parent, a number of times or until there is none. -/
def ascend (g : Graph) : Nat → Namespace → Namespace
  | 0, n => n
  | steps + 1, n => match n.parent.bind g.namespace? with
    | some p => ascend g steps p
    | none => n

/-- The outermost namespace around another: no way up is longer than there are namespaces. -/
def outermost (g : Graph) (n : Namespace) : Namespace := g.ascend g.namespaces.length n

/-- The classes that namespaces list, in the order of the namespaces. -/
def allClasses (g : Graph) : List ClassDef := g.namespaces.flatMap fun n => n.classes.filterMap g.class?

/-- The enums that namespaces list, in the order of the namespaces. -/
def allEnums (g : Graph) : List Enum := g.namespaces.flatMap fun n => n.enums.filterMap g.enum?

/-- The first class with a qualified name. -/
def classNamed? (g : Graph) (name : String) : Option ClassDef := g.allClasses.find? (·.qualifiedName == name)

/-- The first enum with a qualified name. -/
def enumNamed? (g : Graph) (name : String) : Option Enum := g.allEnums.find? (·.qualifiedName == name)

/-- The first class with a qualified name, or else the first enum. -/
def named? (g : Graph) (name : String) : Option Definition :=
  ((g.classNamed? name).map .ofClass).or ((g.enumNamed? name).map .ofEnum)

/-- The first method with a name in a class. -/
def methodNamed? (g : Graph) (className name : String) : Option Method :=
  (g.classNamed? className).bind fun c => c.methods.find? (·.name == name)

/-! ### Names -/

/-- A reference as messages spell it. -/
def refText (g : Graph) (t : TypeRef) : String :=
  let name := match t.definition.bind g.definition? with
    | some d => d.qualifiedName
    | none => t.name
  let name := match t.collection with
    | .none => name
    | .array => name ++ "[]"
    | .list => "list<" ++ name ++ ">"
  if t.nullable then name ++ "?" else name

mutual

/-- A type as messages spell it. -/
def typeText (g : Graph) : TypeExpr → String
  | .scalar ref => g.refText ref
  | .composed form name members _ =>
    let mark := match form with
      | .union => " | "
      | .intersection => " & "
    name ++ "(" ++ mark.intercalate (typeTexts g members) ++ ")"

def typeTexts (g : Graph) : List TypeExpr → List String
  | [] => []
  | t :: ts => g.typeText t :: g.typeTexts ts

end

/-- A member's name behind that of its class. -/
def memberName (g : Graph) (parent : Option ClassId) (name : String) : String :=
  match parent.bind g.class? with
  | some c => c.qualifiedName ++ "." ++ name
  | none => name

def propertyName (g : Graph) (p : Property) : String := g.memberName p.parent p.name

def methodName (g : Graph) (m : Method) : String := g.memberName m.parent m.name

/-! ### Indexers -/

/-- Drops the indexers that occurred before. -/
def distinctIndexers : (seen : List IndexerId) → List Indexer → List Indexer
  | _, [] => []
  | seen, x :: xs =>
    if seen.contains x.id then distinctIndexers seen xs else x :: distinctIndexers (x.id :: seen) xs

/-- The indexers of a class: its own, and those that its methods stand for, each once. -/
def declaredIndexers (g : Graph) (c : ClassDef) : List Indexer :=
  distinctIndexers [] (c.indexers ++ c.methods.filterMap g.representedIndexer)

end Graph

end ClientForge
