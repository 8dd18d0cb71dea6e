import ClientForge.Render.Emission

/-!
# The names on a page

A script asks for names one after another, and what a name looks like depends on the names before it. Here the
questions are listed with the scope that each of them meets.

* **`spelling_of_mem_namings`.** A name is spelled as the scope at hand spells it, and nothing else on the
  page has a say in it.
* **`scope_follow`.** The scope of a page is what these questions have made of it: the list leaves none out.
-/

namespace ClientForge.Render

open ClientForge.Graph ClientForge.Plan ClientForge.Convention

/-- A question for a name: the element, the scope that was asked, and its answer. -/
structure Naming where
  target : Definition
  scope : Scope
  spelling : String

namespace Naming

/-- Whether the short name of the element belongs to another one already. -/
def Taken (p : Policy) (n : Naming) : Prop :=
  ∃ owner, n.scope.owner? (p.typeName n.target.name) = some owner ∧ owner ≠ n.target.id

end Naming

section Namings

variable (e : Engine) (place : Option NamespaceId) {α : Type}

/-- The names that a script asks for as it is followed, in order. -/
def Script.namings : Script α → Page → List Naming
  | done _, _ => []
  | fail _, _ => []
  | write stroke next, page => next.namings (page.write stroke)
  | need item next, page => next.namings (page.need item)
  | name d next, page =>
    let (spelling, named) := page.name e.context.policy place d
    ⟨d, page.scope, spelling⟩ :: (next spelling).namings named
  | plan m next, page =>
    match e.synthesize m with
    | .error _ => []
    | .ok body => (next body).namings { page with planned := m :: page.planned, host := m.parent }

end Namings

/-- The names that the file of an element asks for, in order. -/
def namingsOf (r : Renderer) (e : Engine) (d : Definition) : List Naming :=
  (scriptOf r e d).namings e (d.home.map (·.id)) (startPage r d)

/-! ### Steps of a page -/

@[simp]
theorem Page.scope_write (page : Page) (stroke : Stroke) : (page.write stroke).scope = page.scope := by
  cases stroke <;> rfl

@[simp]
theorem Page.scope_need (page : Page) (item : String) : (page.need item).scope = page.scope := by
  unfold Page.need
  split <;> rfl

@[simp]
theorem Page.scope_refer (page : Page) (d : Definition) (spelling : String) :
    (page.refer d spelling).scope = page.scope := by
  unfold Page.refer
  split <;> rfl

@[simp]
theorem Page.scope_name (p : Policy) (place : Option NamespaceId) (d : Definition) (page : Page) :
    (page.name p place d).2.scope = (page.scope.name p place d).2 := by
  simp [Page.name]

@[simp]
theorem Page.spelling_name (p : Policy) (place : Option NamespaceId) (d : Definition) (page : Page) :
    (page.name p place d).1 = (page.scope.name p place d).1 := rfl

/-! ### Runs of a script -/

section Runs

variable {e : Engine} {place : Option NamespaceId} {α : Type}

/-- What is named goes by the spelling that its scope gives. -/
theorem spelling_of_mem_namings {script : Script α} {page : Page} {n : Naming}
    (h : n ∈ script.namings e place page) :
    n.spelling = (n.scope.name e.context.policy place n.target).1 := by
  induction script generalizing page with
  | done | fail => cases h
  | write stroke next ih => exact ih h
  | need item next ih => exact ih h
  | name d next ih =>
    obtain rfl | h := List.mem_cons.mp h
    · rfl
    · exact ih _ h
  | plan m next ih =>
    unfold Script.namings at h
    split at h
    · cases h
    · exact ih _ h

/-- The scope of a page is what its namings make of it, one by one. -/
theorem scope_follow (script : Script α) (page : Page) :
    (script.follow e place page).2.scope =
      (script.namings e place page).foldl (fun scope n => (scope.name e.context.policy place n.target).2)
        page.scope := by
  induction script generalizing page with
  | done | fail => rfl
  | write stroke next ih =>
    simpa [Script.follow, Script.namings] using ih (page.write stroke)
  | need item next ih =>
    simpa [Script.follow, Script.namings] using ih (page.need item)
  | name d next ih =>
    simpa [Script.follow, Script.namings] using ih _ (page.name e.context.policy place d).2
  | plan m next ih =>
    unfold Script.follow Script.namings
    cases e.synthesize m with
    | error failure => rfl
    | ok body => exact ih body _

end Runs

end ClientForge.Render
