import ClientForge.Proofs.Plan.Elements
import ClientForge.Proofs.Render.Naming

/-!
# What scripts ask for

A script can be read without following it: whichever names it is given, what it asks for is written down in
it. `Script.Asks` says that every element it wants named stands in a graph, and that everything it needs passes
a test. One rule for each step turns that into a question about the parts of a script.

* **`holds_of_mem_namings`.** On every page the names of a script are those of elements of the graph.
* **`needed_of_mem_needs`.** A page needs nothing but what the test lets pass.
-/

namespace ClientForge.Render

open ClientForge.Graph ClientForge.Plan ClientForge.Convention

namespace Script

variable {α β : Type}

/-- What a script can come to, whichever names it is given. -/
def Returns (e : Engine) : Script α → α → Prop
  | done value, a => a = value
  | fail _, _ => False
  | write _ next, a => next.Returns e a
  | need _ next, a => next.Returns e a
  | name _ next, a => ∃ spelling, (next spelling).Returns e a
  | plan m next, a => ∃ body, e.synthesize m = .ok body ∧ (next body).Returns e a

/-- Whether a script asks only for names of elements that a graph holds, and only for imports that pass a
test. -/
def Asks (e : Engine) (g : Graph) (needed : String → Prop) : Script α → Prop
  | done _ => True
  | fail _ => True
  | write _ next => next.Asks e g needed
  | need item next => needed item ∧ next.Asks e g needed
  | name d next => g.Holds d ∧ ∀ spelling, (next spelling).Asks e g needed
  | plan m next => ∀ body, e.synthesize m = .ok body → (next body).Asks e g needed

end Script

/-! ### Steps -/

section Steps

variable {e : Engine} {g : Graph} {needed : String → Prop} {α β : Type}

@[simp]
theorem asks_pure (a : α) : (pure a : Script α).Asks e g needed := trivial

@[simp]
theorem asks_throw (failure : Failure) : (throw failure : Script α).Asks e g needed := trivial

@[simp]
theorem asks_line (text : String) : (line text).Asks e g needed := trivial

@[simp]
theorem asks_blank : blank.Asks e g needed := trivial

@[simp]
theorem asks_need {item : String} : (need item).Asks e g needed ↔ needed item := by
  simp [need, Script.Asks]

@[simp]
theorem asks_nameOf {d : Definition} : (nameOf d).Asks e g needed ↔ g.Holds d := by
  simp [nameOf, Script.Asks]

@[simp]
theorem asks_className {c : ClassDef} : (className c).Asks e g needed ↔ g.Holds (.ofClass c) := asks_nameOf

@[simp]
theorem asks_lines (texts : List String) : (lines texts).Asks e g needed := by
  induction texts with
  | nil => trivial
  | cons text texts ih => exact ih

@[simp]
theorem asks_needAll {items : List String} : (needAll items).Asks e g needed ↔ ∀ item ∈ items, needed item := by
  induction items with
  | nil => simp [needAll, Script.Asks]
  | cons item items ih => simp [needAll, Script.Asks, ih]

@[simp]
theorem returns_planOf {m : Method} {body : Body} :
    (planOf m).Returns e body ↔ e.synthesize m = .ok body := by
  simp [planOf, Script.Returns]

@[simp]
theorem asks_planOf (m : Method) : (planOf m).Asks e g needed := fun _ _ => trivial

/-- What follows is asked for whatever comes before it can come to. -/
@[simp]
theorem asks_bind {s : Script α} {f : α → Script β} :
    (s >>= f).Asks e g needed ↔ s.Asks e g needed ∧ ∀ a, s.Returns e a → (f a).Asks e g needed := by
  change (s.bind f).Asks e g needed ↔ _
  induction s with
  | done a => simp [Script.bind, Script.Asks, Script.Returns]
  | fail failure => simp [Script.bind, Script.Asks, Script.Returns]
  | write stroke next ih => simp [Script.bind, Script.Asks, Script.Returns, ih]
  | need item next ih => simp [Script.bind, Script.Asks, Script.Returns, ih, and_assoc]
  | name d next ih =>
      simp only [Script.bind, Script.Asks, Script.Returns, ih, forall_and, forall_exists_index, and_assoc]
      exact and_congr_right fun _ => and_congr_right fun _ => forall_comm
  | plan m next ih =>
      simp only [Script.bind, Script.Asks, Script.Returns, ih, forall_and, forall_exists_index, and_imp]
      exact and_congr_right fun _ => ⟨fun h a body hbody ha => h body hbody a ha,
        fun h body hbody a ha => h a body hbody ha⟩

@[simp]
theorem asks_within {context : String} {s : Script α} :
    (s.within context).Asks e g needed ↔ s.Asks e g needed := by
  unfold Script.within
  induction s with
  | done | fail => rfl
  | write stroke next ih => exact ih
  | need item next ih => exact and_congr_right fun _ => ih
  | name d next ih => exact and_congr_right fun _ => forall_congr' ih
  | plan m next ih => exact forall_congr' fun body => forall_congr' fun _ => ih body

@[simp]
theorem asks_indented {body : Script Unit} : (indented body).Asks e g needed ↔ body.Asks e g needed := by
  simp [indented, Script.Asks, Script.Returns]

@[simp]
theorem asks_block {opening closing : String} {body : Script Unit} :
    (block opening closing body).Asks e g needed ↔ body.Asks e g needed := by
  simp [block, line, Script.Asks, Script.Returns]

@[simp]
theorem asks_only {condition : Bool} {s : Script Unit} :
    (only condition s).Asks e g needed ↔ (condition = true → s.Asks e g needed) := by
  unfold only
  split <;> simp [*, Script.Asks]

@[simp]
theorem asks_ite {p : Prop} [Decidable p] {s t : Script α} :
    (if p then s else t).Asks e g needed ↔ (p → s.Asks e g needed) ∧ (¬p → t.Asks e g needed) := by
  split <;> simp [*]

@[simp]
theorem asks_each {xs : List α} {f : α → Script Unit} (h : ∀ x ∈ xs, (f x).Asks e g needed) :
    (each xs f).Asks e g needed := by
  induction xs with
  | nil => trivial
  | cons x xs ih =>
      obtain ⟨hx, hxs⟩ := List.forall_mem_cons.mp h
      exact asks_bind.mpr ⟨hx, fun _ _ => ih hxs⟩

@[simp]
theorem asks_collect {xs : List α} {f : α → Script String} (h : ∀ x ∈ xs, (f x).Asks e g needed) :
    (collect xs f).Asks e g needed := by
  induction xs with
  | nil => trivial
  | cons x xs ih =>
      obtain ⟨hx, hxs⟩ := List.forall_mem_cons.mp h
      exact asks_bind.mpr ⟨hx, fun _ _ => asks_bind.mpr ⟨ih hxs, fun _ _ => trivial⟩⟩

end Steps

/-! ### Types -/

section Types

variable {e : Engine} {needed : String → Prop} (c : Context)

@[simp]
theorem asks_definitionName (t : TypeRef) : (definitionName c t).Asks e c.graph needed := by
  unfold definitionName
  split
  · next d hd =>
    obtain ⟨id, _, hid⟩ := Option.bind_eq_some_iff.mp hd
    exact asks_nameOf.mpr ⟨id, hid⟩
  · exact asks_pure _

theorem asks_translateRef (t : TypeRef) :
    (translateRef (m := Script) c.graph c.policy nameOf t).Asks e c.graph needed := by
  unfold translateRef
  split
  · next d hd =>
    obtain ⟨id, _, hid⟩ := Option.bind_eq_some_iff.mp hd
    have hname : (nameOf d).Asks e c.graph needed := asks_nameOf.mpr ⟨id, hid⟩
    simp [hname]
  · simp

mutual

theorem asks_translate : ∀ t : TypeExpr,
    (Convention.translate (m := Script) c.graph c.policy nameOf t).Asks e c.graph needed
  | .scalar ref => by
      unfold Convention.translate
      exact asks_translateRef c ref
  | .composed form name members nullable => by
      have hmembers := asks_translateAll members
      unfold Convention.translate
      split <;> simp [hmembers]

theorem asks_translateAll : ∀ ts : List TypeExpr,
    (translateAll (m := Script) c.graph c.policy nameOf ts).Asks e c.graph needed
  | [] => by simp [translateAll]
  | t :: ts => by
      have ht := asks_translate t
      have hts := asks_translateAll ts
      simp [translateAll, ht, hts]

end

@[simp]
theorem asks_typeText (t : Option TypeExpr) : (typeText c t).Asks e c.graph needed := by
  cases t with
  | none => exact asks_pure _
  | some t => exact asks_translate c t

@[simp]
theorem asks_refText (t : TypeRef) : (refText c t).Asks e c.graph needed := asks_typeText c _

end Types

/-! ### Bodies -/

/-- The body of a method is written down where its class is known, and its operations carry only elements of
the graph. -/
theorem asks_atSite {e : Engine} {needed : String → Prop} {m : Method} {f : Site → Script Unit}
    (he : e.IsStandard)
    (h : ∀ host body, e.context.graph.Holds (.ofClass host) → Held e.context.graph body.operations →
      (f ⟨e.context, host, body⟩).Asks e e.context.graph needed) :
    (atSite e.context m f).Asks e e.context.graph needed := by
  unfold atSite
  simp only [asks_bind, asks_planOf, returns_planOf, true_and]
  intro body hbody
  split
  · next host hhost => exact h host body (holds_parentOf hhost) (held_of_synthesize he hbody)
  · exact asks_throw _

/-! ### Runs -/

section Runs

variable {e : Engine} {place : Option NamespaceId} {g : Graph} {needed : String → Prop} {α : Type}

/-- What is named is an element of the graph. -/
theorem holds_of_mem_namings {script : Script α} {page : Page} {n : Naming}
    (h : script.Asks e g needed) (hn : n ∈ script.namings e place page) : g.Holds n.target := by
  induction script generalizing page with
  | done | fail => cases hn
  | write stroke next ih => exact ih h hn
  | need item next ih => exact ih h.2 hn
  | name d next ih =>
      obtain rfl | hn := List.mem_cons.mp hn
      · exact h.1
      · exact ih _ (h.2 _) hn
  | plan m next ih =>
      unfold Script.namings at hn
      split at hn
      · cases hn
      · next body hbody => exact ih _ (h body hbody) hn

@[simp]
theorem Page.needs_write (page : Page) (stroke : Stroke) : (page.write stroke).needs = page.needs := by
  cases stroke <;> rfl

@[simp]
theorem Page.needs_name (p : Policy) (d : Definition) (page : Page) :
    (page.name p place d).2.needs = page.needs := by
  simp only [Page.name, Page.refer]
  split <;> rfl

theorem Page.mem_needs_need {page : Page} {item x : String} (h : x ∈ (page.need item).needs) :
    x = item ∨ x ∈ page.needs := by
  unfold Page.need at h
  split at h
  · exact .inr h
  · exact List.mem_cons.mp h

/-- What a page needs in the end it needed before or a script asks for. -/
theorem needed_of_mem_needs {script : Script α} {page : Page} {item : String}
    (h : script.Asks e g needed) (hpage : ∀ x ∈ page.needs, needed x)
    (hitem : item ∈ (script.follow e place page).2.needs) : needed item := by
  induction script generalizing page with
  | done | fail => exact hpage item hitem
  | write stroke next ih => exact ih h (by simpa using hpage) hitem
  | need x next ih =>
      refine ih h.2 (fun y hy => ?_) hitem
      rcases Page.mem_needs_need hy with rfl | hy
      · exact h.1
      · exact hpage y hy
  | name d next ih =>
      have hnamed : ∀ x ∈ (page.name e.context.policy place d).2.needs, needed x := by
        rw [Page.needs_name]
        exact hpage
      exact ih _ (h.2 _) hnamed hitem
  | plan m next ih =>
      unfold Script.follow at hitem
      dsimp only at hitem
      split at hitem
      · exact hpage item hitem
      · next body hbody =>
        refine ih body (h body hbody) ?_ hitem
        exact hpage

end Runs

-- From here on the rules above are all there is to know: unfolding would follow a script to its end.
attribute [irreducible] Script.Asks

end ClientForge.Render
