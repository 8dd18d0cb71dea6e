import ClientForge.Proofs.Render.CSharpPlanning
import ClientForge.Proofs.Render.GoPlanning
import ClientForge.Render.Emission

/-!
# What pages plan

A page remembers the methods whose bodies were asked for while it was filled. If its script can be followed to the
end, these are the methods that the script plans, and each of them has a body.

* **`plans_scriptOf`.** In every language a class plans the methods that its file has, and an enum plans none.
* **`planned_pageOf`.** The finished page of an element remembers these methods and no others.
-/

namespace ClientForge.Render

open ClientForge.Graph ClientForge.Plan ClientForge.Convention

/-- The methods of an element that its file has, with or without command builders. -/
def methodsOf (commands : Bool) : Definition → List Method
  | .ofClass c => c.methods.filter (isEmitted commands)
  | .ofEnum _ => []

/-- In every language, the script of an element plans the methods that are emitted for it. -/
theorem plans_scriptOf (importPath : String) (format : Formatter) (form : Language) (e : Engine) (d : Definition) :
    (scriptOf (.forLanguage importPath format form) e d).Plans e (methodsOf (hasCommands form) d) := by
  cases d with
  | ofEnum x =>
      cases form with
      | csharp => exact CSharp.plans_enumScript e.context x
      | cli => exact CSharp.plans_enumScript e.context x
      | typescript => exact TypeScript.plans_enumScript e.context x
      | go => exact Go.plans_enumScript e.context x
  | ofClass c =>
      cases form with
      | csharp => exact CSharp.plans_classScript false e.context c
      | cli => exact CSharp.plans_classScript true e.context c
      | typescript => exact TypeScript.plans_classScript e.context c
      | go => exact Go.plans_classScript e.context c

/-! ### Following scripts -/

section Pages

variable {page : Page}

@[simp]
theorem Page.planned_write (stroke : Stroke) : (page.write stroke).planned = page.planned := by
  cases stroke <;> rfl

@[simp]
theorem Page.planned_need (item : String) : (page.need item).planned = page.planned := by
  unfold Page.need
  split <;> rfl

@[simp]
theorem Page.planned_name (p : Policy) (place : Option NamespaceId) (d : Definition) :
    (page.name p place d).2.planned = page.planned := by
  simp only [Page.name, Page.refer]
  split <;> rfl

end Pages

/-- A script that is followed to the end was given a body for every method that it plans. -/
theorem planned_follow {α : Type} {e : Engine} {place : Option NamespaceId} {script : Script α} {ms : List Method}
    {page page' : Page} {a : α} (h : script.Plans e ms) (hrun : script.follow e place page = (.ok a, page')) :
    page'.planned = ms.reverse ++ page.planned ∧ ∀ m ∈ ms, (e.synthesize m).isOk = true := by
  induction script generalizing page ms with
  | done value =>
      unfold Script.Plans at h
      cases hrun
      simp [h]
  | fail failure => cases hrun
  | write stroke next ih =>
      unfold Script.Plans at h
      simpa using ih h hrun
  | need item next ih =>
      unfold Script.Plans at h
      simpa using ih h hrun
  | name d next ih =>
      unfold Script.Plans at h
      have hnext : page'.planned = ms.reverse ++ (page.name e.context.policy place d).2.planned ∧ _ :=
        ih _ (h _) hrun
      rwa [Page.planned_name] at hnext
  | plan m next ih =>
      unfold Script.Plans at h
      obtain ⟨rest, rfl, hrest⟩ := h
      unfold Script.follow at hrun
      cases hbody : e.synthesize m with
      | error failure =>
          simp only [hbody] at hrun
          cases hrun
      | ok body =>
          simp only [hbody] at hrun
          obtain ⟨hplanned, hok⟩ := ih body (hrest body hbody) hrun
          refine ⟨by simpa using hplanned, List.forall_mem_cons.mpr ⟨?_, hok⟩⟩
          rw [hbody]
          rfl

/-- A page that is complete has planned all methods of its element, and all of them have bodies. -/
theorem planned_pageOf {importPath : String} {format : Formatter} {form : Language} {e : Engine} {d : Definition}
    {page : Page} (h : pageOf (.forLanguage importPath format form) e d = (.ok (), page)) :
    page.planned = (methodsOf (hasCommands form) d).reverse ∧
      ∀ m ∈ methodsOf (hasCommands form) d, (e.synthesize m).isOk = true := by
  have hplanned := planned_follow (plans_scriptOf importPath format form e d) h
  rwa [show (startPage _ d).planned = [] from rfl, List.append_nil] at hplanned

end ClientForge.Render
