import ClientForge.Proofs.Render.Asking
import ClientForge.Render.Emission

/-!
# Scripts that come to their end

Scripts end early where they fail, and where they ask for the body of a method that cannot be planned. Which ones do not
is written down in them (`Script.Completes`), as it is with what they ask for: one rule for each step turns that into a
question about the parts of a script.

* **`follow_of_completes`.** On any page such a script is followed to its end.
* **`completes_scriptOf_ofEnum`.** In every language the scripts of enums are of this kind.
-/

namespace ClientForge.Render

open ClientForge.Graph ClientForge.Plan ClientForge.Convention

/-- Whether a script comes to its end, whichever names it is given. -/
def Script.Completes {α : Type} (e : Engine) : Script α → Prop
  | done _ => True
  | fail _ => False
  | write _ next => next.Completes e
  | need _ next => next.Completes e
  | name _ next => ∀ spelling, (next spelling).Completes e
  | plan m next => ∃ body, e.synthesize m = .ok body ∧ (next body).Completes e

/-- A script that completes has a result on every page. -/
theorem follow_of_completes {α : Type} {e : Engine} {script : Script α} (h : script.Completes e)
    (place : Option NamespaceId) (page : Page) : ∃ a page', script.follow e place page = (.ok a, page') := by
  induction script generalizing page with
  | done value => exact ⟨value, page, rfl⟩
  | fail failure => exact h.elim
  | write stroke next ih => exact ih h (page.write stroke)
  | need item next ih => exact ih h (page.need item)
  | name d next ih => exact ih _ (h _) _
  | plan m next ih =>
      obtain ⟨body, hbody, hnext⟩ := h
      unfold Script.follow
      simp only [hbody]
      exact ih body hnext _

/-! ### Steps -/

section Steps

variable {e : Engine} {α β : Type}

@[simp]
theorem completes_line (text : String) : (line text).Completes e := trivial

@[simp]
theorem completes_blank : blank.Completes e := trivial

@[simp]
theorem completes_need (item : String) : (need item).Completes e := trivial

@[simp]
theorem completes_lines (texts : List String) : (lines texts).Completes e := by
  induction texts with
  | nil => trivial
  | cons text texts ih => exact ih

/-- What follows comes to its end for whatever comes before it can come to. -/
@[simp]
theorem completes_bind {s : Script α} {f : α → Script β} :
    (s >>= f).Completes e ↔ s.Completes e ∧ ∀ a, s.Returns e a → (f a).Completes e := by
  change (s.bind f).Completes e ↔ _
  induction s with
  | done a => simp [Script.bind, Script.Completes, Script.Returns]
  | fail failure => simp [Script.bind, Script.Completes]
  | write stroke next ih => simp [Script.bind, Script.Completes, Script.Returns, ih]
  | need item next ih => simp [Script.bind, Script.Completes, Script.Returns, ih]
  | name d next ih =>
      simp only [Script.bind, Script.Completes, Script.Returns, ih, forall_and, forall_exists_index]
      exact and_congr_right fun _ => forall_comm
  | plan m next ih =>
      simp only [Script.bind, Script.Completes, Script.Returns, ih]
      constructor
      · rintro ⟨body, hbody, hnext, hf⟩
        refine ⟨⟨body, hbody, hnext⟩, ?_⟩
        rintro a ⟨other, hother, ha⟩
        cases hbody.symm.trans hother
        exact hf a ha
      · rintro ⟨⟨body, hbody, hnext⟩, hf⟩
        exact ⟨body, hbody, hnext, fun a ha => hf a ⟨body, hbody, ha⟩⟩

@[simp]
theorem completes_indented {body : Script Unit} : (indented body).Completes e ↔ body.Completes e := by
  simp [indented, Script.Completes, Script.Returns]

@[simp]
theorem completes_block {opening closing : String} {body : Script Unit} :
    (block opening closing body).Completes e ↔ body.Completes e := by
  simp [block, line, Script.Completes, Script.Returns]

@[simp]
theorem completes_only {condition : Bool} {s : Script Unit} :
    (only condition s).Completes e ↔ (condition = true → s.Completes e) := by
  unfold only
  split <;> simp [*, Script.Completes]

@[simp]
theorem completes_ite {p : Prop} [Decidable p] {s t : Script α} :
    (if p then s else t).Completes e ↔ (p → s.Completes e) ∧ (¬p → t.Completes e) := by
  split <;> simp [*]

@[simp]
theorem completes_each {xs : List α} {f : α → Script Unit} (h : ∀ x ∈ xs, (f x).Completes e) :
    (each xs f).Completes e := by
  induction xs with
  | nil => trivial
  | cons x xs ih =>
      obtain ⟨hx, hxs⟩ := List.forall_mem_cons.mp h
      exact completes_bind.mpr ⟨hx, fun _ _ => ih hxs⟩

end Steps

-- From here on only the rules are used: unfolding would follow a script to its end.
attribute [irreducible] Script.Completes

/-! ### Enums -/

section Enums

variable {e : Engine} (c : Context) (x : Enum)

theorem CSharp.completes_enumScript : (CSharp.enumScript c x).Completes e := by
  simp [CSharp.enumScript, CSharp.enumOption]

theorem TypeScript.completes_enumScript : (TypeScript.enumScript c x).Completes e := by
  simp [TypeScript.enumScript]

theorem Go.completes_enumScript : (Go.enumScript c x).Completes e := by
  simp [Go.enumScript, Go.constantScript, Go.stringFunction, Go.parseFunction, Go.parseSwitch, Go.serializeFunction]

end Enums

/-- The script of an enum completes in every language, since it plans no bodies. -/
theorem completes_scriptOf_ofEnum (importPath : String) (format : Formatter) (form : Language) (e : Engine) (x : Enum) :
    (scriptOf (.forLanguage importPath format form) e (.ofEnum x)).Completes e := by
  cases form with
  | csharp => exact CSharp.completes_enumScript e.context x
  | cli => exact CSharp.completes_enumScript e.context x
  | typescript => exact TypeScript.completes_enumScript e.context x
  | go => exact Go.completes_enumScript e.context x

end ClientForge.Render
