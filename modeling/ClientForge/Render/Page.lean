import ClientForge.Convention.Scope
import ClientForge.Render.Script
import ClientForge.Render.Writer

/-!
# Pages

A page is a file in the making. Following a script fills it: lines go to its writer, names come from its
scope, and it keeps track of what it imports and of the elements it refers to.
-/

namespace ClientForge.Render

open ClientForge.Graph ClientForge.Plan ClientForge.Convention

/-- An element of another file, and the name by which the page refers to it. -/
structure Reference where
  target : Definition
  spelling : String
deriving Repr

structure Page where
  writer : Writer
  scope : Scope := {}
  /-- What the page imports of the runtime, each once. -/
  needs : List String := []
  /-- The elements that the page refers to, each once, and not the class at hand. -/
  references : List Reference := []
  /-- The class to which the lines at hand belong. -/
  host : Option ClassId
  /-- The methods whose bodies were asked for, latest first. -/
  planned : List Method := []

namespace Page

def write (page : Page) : Stroke → Page
  | .line text => { page with writer := page.writer.line text }
  | .blank => { page with writer := page.writer.blank }
  | .indent => { page with writer := page.writer.indent }
  | .dedent => { page with writer := page.writer.dedent }

def need (page : Page) (item : String) : Page :=
  if page.needs.contains item then page else { page with needs := item :: page.needs }

/-- Whether an element is the class at hand. -/
def hosts (page : Page) (d : Definition) : Bool := page.host.map .ofClass == some d.id

def refersTo (page : Page) (d : Definition) : Bool := page.references.any (·.target.id == d.id)

/-- Remembers a reference, unless it is known or stays inside the class at hand. -/
def refer (page : Page) (d : Definition) (spelling : String) : Page :=
  if page.refersTo d || page.hosts d then page
  else { page with references := ⟨d, spelling⟩ :: page.references }

/-- The name of an element on the page of a namespace. -/
def name (p : Policy) (place : Option NamespaceId) (d : Definition) (page : Page) : String × Page :=
  let (spelling, scope) := page.scope.name p place d
  (spelling, { page with scope }.refer d spelling)

end Page

/-- Follows a script on the page of a namespace. What was written before a failure stays. -/
def Script.follow {α : Type} (e : Engine) (place : Option NamespaceId) :
    Script α → Page → Except Failure α × Page
  | done value, page => (.ok value, page)
  | fail failure, page => (.error failure, page)
  | write stroke next, page => next.follow e place (page.write stroke)
  | need item next, page => next.follow e place (page.need item)
  | name d next, page =>
    let (spelling, page) := page.name e.context.policy place d
    (next spelling).follow e place page
  | plan m next, page =>
    let page := { page with planned := m :: page.planned }
    match e.synthesize m with
    | .error failure => (.error failure, page)
    | .ok body => (next body).follow e place { page with host := m.parent }

end ClientForge.Render
