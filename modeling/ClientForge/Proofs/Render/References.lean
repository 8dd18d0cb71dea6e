import ClientForge.Proofs.Convention.Scope
import ClientForge.Proofs.Render.Planning

/-!
# The references of a page

A page remembers the elements that it names, apart from the class that it is about, and for each the name that it
was given first. Where foreign names are not qualified, that is its name all over the page.

* **`references_follow`.** The references of a page are gathered from the names that its script asks for, as long as
  the methods that it plans belong to the class at hand.
* **`filter_references`.** Each element that is named, apart from the class at hand, has one reference, and that holds
  the name by which the page calls it.
-/

namespace ClientForge.Render

open ClientForge.Graph ClientForge.Plan ClientForge.Convention

/-! ### One name for each element -/

section Answers

variable {e : Engine} {place : Option NamespaceId} {α : Type}

/-- The question that a page put to its scope, with the answer. -/
def Naming.answer (place : Option NamespaceId) (n : Naming) : Answer :=
  { target := n.target, place, text := n.spelling }

/-- What a script names is answered as the scope answers. -/
theorem answers_namings (script : Script α) (page : Page) :
    page.scope.answers e.context.policy ((script.namings e place page).map fun n => ⟨n.target, place⟩) =
      (script.namings e place page).map (·.answer place) := by
  induction script generalizing page with
  | done | fail => rfl
  | write stroke next ih => simpa [Script.namings] using ih (page.write stroke)
  | need item next ih => simpa [Script.namings] using ih (page.need item)
  | name d next ih =>
      have hnext := ih (page.name e.context.policy place d).1 (page.name e.context.policy place d).2
      rw [Page.scope_name] at hnext
      exact congrArg (List.cons _) hnext
  | plan m next ih =>
      unfold Script.namings
      cases e.synthesize m with
      | error failure => rfl
      | ok body => exact ih body { page with planned := m :: page.planned, host := m.parent }

/-- An element has the same name all over a page. -/
theorem spelling_eq_of_target_eq (hforeign : e.context.policy.qualifiesForeign = false) {script : Script α}
    {page : Page} {n m : Naming} (hn : n ∈ script.namings e place page) (hm : m ∈ script.namings e place page)
    (htarget : n.target = m.target) : n.spelling = m.spelling := by
  have hanswer : ∀ {n}, n ∈ script.namings e place page →
      n.answer place ∈ page.scope.answers e.context.policy
        ((script.namings e place page).map fun n => ⟨n.target, place⟩) := by
    intro n hn
    rw [answers_namings]
    exact List.mem_map_of_mem hn
  exact text_eq_of_target_eq hforeign (hanswer hn) (hanswer hm) htarget

end Answers

/-! ### Gathering references -/

/-- The references to elements once one more was named on the page of a class. -/
def gather (host : Option ClassId) (references : List Reference) (n : Naming) : List Reference :=
  if references.any (·.target.id == n.target.id) || host.map .ofClass == some n.target.id then references
  else ⟨n.target, n.spelling⟩ :: references

section Steps

variable (page : Page)

@[simp]
theorem Page.references_write (stroke : Stroke) : (page.write stroke).references = page.references := by
  cases stroke <;> rfl

@[simp]
theorem Page.host_write (stroke : Stroke) : (page.write stroke).host = page.host := by
  cases stroke <;> rfl

@[simp]
theorem Page.references_need (item : String) : (page.need item).references = page.references := by
  unfold Page.need
  split <;> rfl

@[simp]
theorem Page.host_need (item : String) : (page.need item).host = page.host := by
  unfold Page.need
  split <;> rfl

@[simp]
theorem Page.host_name (p : Policy) (place : Option NamespaceId) (d : Definition) :
    (page.name p place d).2.host = page.host := by
  simp only [Page.name, Page.refer]
  split <;> rfl

/-- A reference is gathered once, and none to the host itself. -/
theorem Page.references_refer (d : Definition) (spelling : String) :
    (page.refer d spelling).references =
      if page.refersTo d || page.hosts d then page.references else ⟨d, spelling⟩ :: page.references :=
  apply_ite Page.references _ _ _

@[simp]
theorem Page.references_name (p : Policy) (place : Option NamespaceId) (d : Definition) :
    (page.name p place d).2.references =
      gather page.host page.references ⟨d, page.scope, (page.name p place d).1⟩ :=
  Page.references_refer _ _ _

end Steps

/-- A page gathers its references naming by naming, as long as bodies are planned for methods of the host. -/
theorem references_follow {e : Engine} {place : Option NamespaceId} {α : Type} {script : Script α}
    {ms : List Method} (page : Page) (h : script.Plans e ms) (hms : ∀ m ∈ ms, m.parent = page.host) :
    (script.follow e place page).2.references =
      (script.namings e place page).foldl (gather page.host) page.references := by
  induction script generalizing page ms with
  | done | fail => rfl
  | write stroke next ih =>
      unfold Script.Plans at h
      simpa [Script.follow, Script.namings] using ih (page.write stroke) h (by simpa using hms)
  | need item next ih =>
      unfold Script.Plans at h
      simpa [Script.follow, Script.namings] using ih (page.need item) h (by simpa using hms)
  | name d next ih =>
      unfold Script.Plans at h
      have hnext := ih (page.name e.context.policy place d).1 (page.name e.context.policy place d).2 (h _)
        (by simpa using hms)
      rw [Page.host_name, Page.references_name] at hnext
      exact hnext
  | plan m next ih =>
      unfold Script.Plans at h
      obtain ⟨rest, rfl, hrest⟩ := h
      obtain ⟨hm, hms⟩ := List.forall_mem_cons.mp hms
      unfold Script.follow Script.namings
      cases hbody : e.synthesize m with
      | error failure => rfl
      | ok body =>
          rw [← hm]
          exact ih body { page with planned := m :: page.planned, host := m.parent } (hrest body hbody)
            (by simpa [hm] using hms)

section Gathered

variable {host : Option ClassId} {namings : List Naming} {references : List Reference}

/-- No element is referred to twice. -/
theorem nodup_foldl_gather (h : (references.map (·.target.id)).Nodup) :
    ((namings.foldl (gather host) references).map (·.target.id)).Nodup := by
  induction namings generalizing references with
  | nil => exact h
  | cons n namings ih =>
      refine ih ?_
      unfold gather
      split
      · exact h
      · next hnew =>
        refine List.nodup_cons.mpr ⟨fun hmem => hnew ?_, h⟩
        obtain ⟨r, hr, hid⟩ := List.mem_map.mp hmem
        rw [Bool.or_eq_true, List.any_eq_true]
        exact .inl ⟨r, hr, by simpa using hid⟩

/-- References come from names that were asked for. -/
theorem mem_foldl_gather {r : Reference} (h : r ∈ namings.foldl (gather host) references) :
    r ∈ references ∨ ∃ n ∈ namings, r = ⟨n.target, n.spelling⟩ := by
  induction namings generalizing references with
  | nil => exact .inl h
  | cons n namings ih =>
      rcases ih h with h | ⟨m, hm, hr⟩
      · unfold gather at h
        split at h
        · exact .inl h
        · rcases List.mem_cons.mp h with rfl | h
          · exact .inr ⟨n, List.mem_cons_self, rfl⟩
          · exact .inl h
      · exact .inr ⟨m, List.mem_cons_of_mem _ hm, hr⟩

theorem subset_foldl_gather : references ⊆ namings.foldl (gather host) references := by
  induction namings generalizing references with
  | nil => exact List.Subset.refl _
  | cons n namings ih =>
      refine List.Subset.trans ?_ ih
      unfold gather
      split
      · exact List.Subset.refl _
      · exact List.subset_cons_self _ _

/-- Every name that was asked for leaves a reference, unless it is that of the class at hand. -/
theorem exists_mem_foldl_gather {n : Naming} (hn : n ∈ namings) (hhost : host.map .ofClass ≠ some n.target.id) :
    ∃ r ∈ namings.foldl (gather host) references, r.target.id = n.target.id := by
  induction namings generalizing references with
  | nil => cases hn
  | cons first namings ih =>
      rcases List.mem_cons.mp hn with rfl | hn
      · have hfirst : ∃ r ∈ gather host references n, r.target.id = n.target.id := by
          unfold gather
          split
          · next hknown =>
            rw [Bool.or_eq_true, beq_iff_eq, or_iff_left hhost] at hknown
            simpa using hknown
          · exact ⟨_, List.mem_cons_self, rfl⟩
        obtain ⟨r, hr, hid⟩ := hfirst
        rw [List.foldl_cons]
        exact ⟨r, subset_foldl_gather hr, hid⟩
      · exact ih hn

end Gathered

/-- One member has a key if keys are not repeated. -/
theorem filter_eq_singleton {α β : Type} [DecidableEq β] {f : α → β} {xs : List α} (h : (xs.map f).Nodup) {x : α}
    (hx : x ∈ xs) : xs.filter (f · == f x) = [x] := by
  induction xs with
  | nil => cases hx
  | cons y xs ih =>
      rw [List.map_cons, List.nodup_cons] at h
      rcases List.mem_cons.mp hx with rfl | hx
      · have hrest : xs.filter (f · == f x) = [] := by
          rw [List.filter_eq_nil_iff]
          intro z hz hsame
          exact h.1 (List.mem_map.mpr ⟨z, hz, by simpa using hsame⟩)
        rw [List.filter_cons_of_pos (by simp), hrest]
      · have hother : f y ≠ f x := by
          intro hsame
          rw [hsame] at h
          exact h.1 (List.mem_map_of_mem hx)
        rw [List.filter_cons_of_neg (by simpa using hother), ih h.2 hx]

/-- Of all references of a page one is to an element that it names, and it holds the name that the page uses. -/
theorem filter_references {e : Engine} {place : Option NamespaceId} {α : Type} {script : Script α} {page : Page}
    {ms : List Method} (hforeign : e.context.policy.qualifiesForeign = false) (hplans : script.Plans e ms)
    (hms : ∀ m ∈ ms, m.parent = page.host) (hnone : page.references = [])
    (hext : ∀ n ∈ script.namings e place page, ∀ m ∈ script.namings e place page,
      n.target.id = m.target.id → n.target = m.target)
    {n : Naming} (hn : n ∈ script.namings e place page) (hhost : page.host.map .ofClass ≠ some n.target.id) :
    (script.follow e place page).2.references.filter (·.target.id == n.target.id) = [⟨n.target, n.spelling⟩] := by
  rw [references_follow page hplans hms, hnone]
  obtain ⟨r, hr, hid⟩ : ∃ r ∈ (script.namings e place page).foldl (gather page.host) [], r.target.id = n.target.id :=
    exists_mem_foldl_gather hn hhost
  obtain ⟨m, hm, rfl⟩ := (mem_foldl_gather hr).resolve_left List.not_mem_nil
  have htarget : m.target = n.target := hext m hm n hn hid
  have hnodup : (((script.namings e place page).foldl (gather page.host) []).map (·.target.id)).Nodup :=
    nodup_foldl_gather (by simp)
  have hfound := filter_eq_singleton hnodup hr
  rw [← htarget, hfound, spelling_eq_of_target_eq hforeign hm hn htarget]

end ClientForge.Render
