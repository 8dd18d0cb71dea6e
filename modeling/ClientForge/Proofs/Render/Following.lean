import ClientForge.Render.Emission

/-!
# Following scripts

Each step of a script changes one thing on a page. Here is what that means for the lines that stand on it, and how the
parts of a script are put together.

* `follow_bind`: what follows a script goes on where that has come to its end;
* `written_follow`: nothing that was written is taken back;
* `run_emitElement_eq_ok_iff`: the file of an element is made from the page on which its script came to its end.
-/

namespace ClientForge.Render

open ClientForge.Graph ClientForge.Plan ClientForge.Convention

/-! ### Steps of a page -/

section Steps

variable (page : Page)

@[simp]
theorem writer_need (item : String) : (page.need item).writer = page.writer := by
  unfold Page.need
  split <;> rfl

@[simp]
theorem writer_refer (d : Definition) (spelling : String) : (page.refer d spelling).writer = page.writer := by
  unfold Page.refer
  split <;> rfl

@[simp]
theorem writer_name (p : Policy) {place : Option NamespaceId} (d : Definition) :
    (page.name p place d).2.writer = page.writer := by
  simp [Page.name]

theorem written_write (stroke : Stroke) : page.writer.written <:+ (page.write stroke).writer.written := by
  cases stroke with
  | line text => exact List.suffix_cons _ _
  | blank => exact List.suffix_cons _ _
  | indent | dedent => exact List.suffix_refl _

end Steps

/-! ### Runs of a script -/

section Runs

variable {α β : Type} {e : Engine} {place : Option NamespaceId}

/-- What follows a script goes on where that has come to its end. -/
theorem follow_bind {s : Script α} {f : α → Script β} {page page' : Page} {a : α}
    (h : s.follow e place page = (.ok a, page')) : (s >>= f).follow e place page = (f a).follow e place page' := by
  change (s.bind f).follow e place page = _
  induction s generalizing page with
  | done value =>
      cases h
      rfl
  | fail failure => cases h
  | write stroke next ih => exact ih h
  | need item next ih => exact ih h
  | name d next ih => exact ih _ h
  | plan m next ih =>
      unfold Script.follow at h
      cases hbody : e.synthesize m with
      | error failure =>
          simp only [hbody] at h
          cases h
      | ok body =>
          simp only [hbody] at h
          simp only [Script.bind, Script.follow, hbody]
          exact ih body h

/-- What was written stays. -/
theorem written_follow (s : Script α) (page : Page) :
    page.writer.written <:+ (s.follow e place page).2.writer.written := by
  induction s generalizing page with
  | done value => exact List.suffix_refl _
  | fail failure => exact List.suffix_refl _
  | write stroke next ih => exact (written_write page stroke).trans (ih _)
  | need item next ih => exact writer_need page item ▸ ih (page.need item)
  | name d next ih => exact writer_name page e.context.policy d ▸ ih _ (page.name e.context.policy place d).2
  | plan m next ih =>
      unfold Script.follow
      dsimp only
      split
      · exact List.suffix_refl _
      · exact ih _ { page with host := m.parent, planned := m :: page.planned }

/-- How deep lines stand changes from step to step, but not what they are indented with. -/
theorem indentUnit_follow (e : Engine) (place : Option NamespaceId) (s : Script α) (page : Page) :
    (s.follow e place page).2.writer.indentUnit = page.writer.indentUnit := by
  induction s generalizing page with
  | done | fail => rfl
  | write stroke next ih =>
      refine (ih _).trans ?_
      cases stroke <;> rfl
  | need item next ih =>
      refine (ih _).trans ?_
      rw [writer_need]
  | name d next ih =>
      refine (ih _ _).trans ?_
      rw [writer_refer]
  | plan m next ih =>
      simp only [Script.follow]
      split
      · rfl
      · exact ih _ _

end Runs

/-! ### Files of elements -/

section Elements

variable {r : Renderer} {e : Engine} {d : Definition} {file : SourceFile} {before after : List Method}

/-- A file that can be formatted keeps its path. -/
theorem formatted_eq_ok_iff {f : SourceFile} : r.formatted f = .ok file ↔
    r.format f.path f.content = .ok file.content ∧ file.path = f.path := by
  unfold Renderer.formatted
  cases r.format f.path f.content with
  | error answer => simp
  | ok content =>
      cases file
      simp [eq_comm, and_comm]

/-- An element has a file exactly if its script comes to its end and what is made from the page can be formatted. -/
theorem run_emitElement_eq_ok_iff : (emitElement r e d).run.run before = (.ok file, after) ↔
    ∃ page, pageOf r e d = (.ok (), page) ∧ r.formatted (fileOf r e d page) = .ok file ∧
      after = page.planned ++ before := by
  unfold emitElement
  cases hpage : pageOf r e d with
  | mk outcome page =>
    cases outcome with
    | error failure =>
        constructor
        · intro h
          cases h
        · rintro ⟨_, h, -, -⟩
          cases h
    | ok _ =>
        change (r.formatted (fileOf r e d page), page.planned ++ before) = (.ok file, after) ↔ _
        rw [Prod.mk.injEq]
        constructor
        · rintro ⟨hfile, rfl⟩
          exact ⟨page, rfl, hfile, rfl⟩
        · rintro ⟨_, h, hfile, rfl⟩
          cases h
          exact ⟨hfile, rfl⟩

end Elements

end ClientForge.Render
