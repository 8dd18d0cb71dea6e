import ClientForge.Convention.Language
import ClientForge.Convention.Scope
import ClientForge.Proofs.Text.Pieces
import Mathlib.Data.Set.Function

/-!
# Names of a scope

A scope is asked for names one after another, and a name that it has given to one element is not given to
another. What it answers depends on what it was asked before, but an owner never changes: once all questions are
asked, the scope that they leave explains every answer (`owner_of_mem_answers`).

* `owner?_name`: a name that is free goes to the element that has it, and no other name changes hands;
* `mem_imported_after`, `imports_of_mem_answers`: a namespace is imported if and only if an element of it is
  called by its short name elsewhere;
* **`names_apart_and_imported`.** In C# elements with different homes or short names are told apart for good, and
  the scope imports just what the short names need.
-/

namespace ClientForge.Convention

open ClientForge.Graph

/-! ### Questions and answers -/

/-- A question for the name of an element, asked in a namespace. -/
structure Question where
  target : Definition
  place : Option NamespaceId

/-- A question, and the name that was given. -/
structure Answer extends Question where
  text : String

namespace Scope

/-- The scope that questions leave. -/
def after (p : Policy) (s : Scope) (qs : List Question) : Scope :=
  qs.foldl (fun s q => (s.name p q.place q.target).2) s

/-- The answers to questions that are asked one after another. -/
def answers (p : Policy) : Scope → List Question → List Answer
  | _, [] => []
  | s, q :: qs =>
    { toQuestion := q, text := (s.name p q.place q.target).1 } :: answers p (s.name p q.place q.target).2 qs

/-- Whether a scope imports a namespace, which is known by its identity. -/
def ImportsSpace (s : Scope) (n : NamespaceRef) : Prop := ∃ m ∈ s.imports, m.id = n.id

/-- How an element is spelled if its short name belongs to an owner. -/
def spelled (p : Policy) (d : Definition) (owner : DefinitionId) : String :=
  if owner = d.id then p.typeName d.name
  else match d.home with
    | some n => p.qualify n.name (p.typeName d.name)
    | none => p.typeName d.name

end Scope

/-- Each question is answered. -/
@[simp]
theorem toQuestion_answers (p : Policy) (s : Scope) (qs : List Question) :
    (s.answers p qs).map (·.toQuestion) = qs := by
  induction qs generalizing s with
  | nil => rfl
  | cons q qs ih => rw [Scope.answers, List.map_cons, ih]

theorem question_mem {p : Policy} {s : Scope} {qs : List Question} {a : Answer} (ha : a ∈ s.answers p qs) :
    a.toQuestion ∈ qs := by
  have hmem := List.mem_map_of_mem (f := (·.toQuestion)) ha
  rwa [toQuestion_answers] at hmem

/-! ### One question -/

section Step

variable {p : Policy} {place : Option NamespaceId}

/-- A home is foreign unless it is the place itself. -/
theorem foreignHome_eq_some_iff {d : Definition} {n : NamespaceRef} :
    Scope.foreignHome place d = some n ↔ d.home = some n ∧ some n.id ≠ place := by
  unfold Scope.foreignHome
  cases hhome : d.home with
  | none => simp
  | some home =>
      simp only [beq_iff_eq, Option.some.injEq]
      constructor
      · intro h
        split at h
        · cases h
        · next hplace =>
          cases h
          exact ⟨rfl, hplace⟩
      · rintro ⟨rfl, hplace⟩
        rw [if_neg hplace]

/-- A namespace is imported once. -/
theorem imported_addImport (s : Scope) (n : NamespaceRef) :
    (s.addImport n).imported = if s.imported.any (·.id == n.id) then s.imported else n :: s.imported := by
  unfold Scope.addImport
  split <;> rfl

@[simp]
theorem bound_addImport (s : Scope) (n : NamespaceRef) : (s.addImport n).bound = s.bound := by
  unfold Scope.addImport
  split <;> rfl

/-- Naming an element imports its home, if it is another, or nothing. -/
theorem imported_name_cases (s : Scope) (d : Definition) :
    (s.name p place d).2.imported = s.imported ∨
      ∃ n, Scope.foreignHome place d = some n ∧ (s.name p place d).2.imported = (s.addImport n).imported := by
  cases hhome : Scope.foreignHome place d with
  | none =>
      left
      cases howner : s.owner? (p.typeName d.name) with
      | none => simp [Scope.name, howner, hhome, Scope.bind]
      | some owner =>
          by_cases hsame : owner = d.id
          · simp [Scope.name, howner, hhome, hsame]
          · cases hd : d.home <;> simp [Scope.name, howner, hhome, hsame, hd]
  | some n =>
      cases hforeign : p.qualifiesForeign with
      | true => exact .inr ⟨n, rfl, by simp [Scope.name, hforeign, hhome]⟩
      | false =>
          cases howner : s.owner? (p.typeName d.name) with
          | none => exact .inr ⟨n, rfl, by simp [Scope.name, hforeign, howner, hhome, imported_addImport, Scope.bind]⟩
          | some owner =>
              by_cases hsame : owner = d.id
              · exact .inr ⟨n, rfl, by simp [Scope.name, hforeign, howner, hhome, hsame]⟩
              · refine .inl ?_
                cases hd : d.home <;> simp [Scope.name, hforeign, howner, hhome, hsame, hd]

/-- A scope imports homes of what it names. -/
theorem home_of_mem_imported {s : Scope} {d : Definition} {n : NamespaceRef}
    (h : n ∈ (s.name p place d).2.imported) : n ∈ s.imported ∨ d.home = some n := by
  rcases imported_name_cases s d with heq | ⟨m, hm, heq⟩
  · exact .inl (heq ▸ h)
  · rw [heq, imported_addImport] at h
    split at h
    · exact .inl h
    · rcases List.mem_cons.mp h with rfl | h
      · exact .inr (foreignHome_eq_some_iff.mp hm).1
      · exact .inl h

section Free

variable (hforeign : p.qualifiesForeign = false) (s : Scope) (d : Definition)

include hforeign

/-- Naming an element binds its name, if nothing has the name yet. -/
theorem bound_name :
    (s.name p place d).2.bound =
      if s.owner? (p.typeName d.name) = none then (p.typeName d.name, d.id) :: s.bound else s.bound := by
  cases howner : s.owner? (p.typeName d.name) with
  | none => cases hhome : Scope.foreignHome place d <;> simp [Scope.name, hforeign, howner, hhome, Scope.bind]
  | some owner =>
      by_cases hsame : owner = d.id
      · cases hhome : Scope.foreignHome place d <;> simp [Scope.name, hforeign, howner, hhome, hsame]
      · cases hhome : d.home <;> simp [Scope.name, hforeign, howner, hhome, hsame]

/-- A name that is free goes to the element that has it. No other name changes hands. -/
theorem owner?_name (x : String) :
    (s.name p place d).2.owner? x =
      if p.typeName d.name = x then some ((s.owner? x).getD d.id) else s.owner? x := by
  rw [Scope.owner?, bound_name hforeign]
  by_cases hx : p.typeName d.name = x
  · subst hx
    rw [if_pos rfl]
    split
    · next hfree => simp [hfree]
    · next howner =>
      obtain ⟨owner, howner⟩ := Option.ne_none_iff_exists'.mp howner
      rw [howner]
      exact howner
  · have hother : (x == p.typeName d.name) = false := by simpa using Ne.symm hx
    rw [if_neg hx]
    split
    · rw [List.lookup_cons, hother]
      rfl
    · rfl

theorem text_name :
    (s.name p place d).1 = Scope.spelled p d ((s.owner? (p.typeName d.name)).getD d.id) := by
  cases howner : s.owner? (p.typeName d.name) with
  | none => simp [Scope.name, Scope.spelled, hforeign, howner]
  | some owner =>
      by_cases hsame : owner = d.id
      · simp [Scope.name, Scope.spelled, hforeign, howner, hsame]
      · cases hhome : d.home <;> simp [Scope.name, Scope.spelled, hforeign, howner, hhome, hsame]

/-- A foreign home is imported where the element owns its short name. -/
theorem imported_name :
    (s.name p place d).2.imported =
      if (s.owner? (p.typeName d.name)).getD d.id = d.id then
        ((Scope.foreignHome place d).elim s s.addImport).imported
      else s.imported := by
  cases howner : s.owner? (p.typeName d.name) with
  | none =>
      cases hhome : Scope.foreignHome place d with
      | none => simp [Scope.name, hforeign, howner, hhome, Scope.bind]
      | some n =>
          simp [Scope.name, hforeign, howner, hhome, imported_addImport, Scope.bind]
  | some owner =>
      by_cases hsame : owner = d.id
      · cases hhome : Scope.foreignHome place d <;> simp [Scope.name, hforeign, howner, hhome, hsame]
      · cases hhome : d.home <;> simp [Scope.name, hforeign, howner, hhome, hsame]

end Free

end Step

/-! ### Many questions -/

section Runs

variable {p : Policy} {s : Scope} {qs : List Question}

theorem after_cons (q : Question) (qs : List Question) :
    s.after p (q :: qs) = (s.name p q.place q.target).2.after p qs := rfl

theorem after_append (qs more : List Question) : s.after p (qs ++ more) = (s.after p qs).after p more :=
  List.foldl_append

theorem subset_imported_after {n : NamespaceRef} (h : n ∈ s.imported) : n ∈ (s.after p qs).imported := by
  induction qs generalizing s with
  | nil => exact h
  | cons q qs ih =>
      refine ih ?_
      rcases imported_name_cases s q.target with heq | ⟨m, -, heq⟩
      · rw [heq]
        exact h
      · rw [heq, imported_addImport]
        split
        · exact h
        · exact List.mem_cons_of_mem _ h

section Free

variable (hforeign : p.qualifiesForeign = false)

include hforeign

/-- An owner never changes. -/
theorem owner?_after {x : String} {owner : DefinitionId} (h : s.owner? x = some owner) :
    (s.after p qs).owner? x = some owner := by
  induction qs generalizing s with
  | nil => exact h
  | cons q qs ih =>
      refine ih ?_
      rw [owner?_name hforeign, h]
      split <;> rfl

/-- The scope that is left at the end explains every answer. -/
theorem owner_of_mem_answers {a : Answer} (ha : a ∈ s.answers p qs) :
    ∃ owner, (s.after p qs).owner? (p.typeName a.target.name) = some owner ∧
      a.text = Scope.spelled p a.target owner := by
  induction qs generalizing s with
  | nil => cases ha
  | cons q qs ih =>
      rcases List.mem_cons.mp ha with rfl | ha
      · refine ⟨_, ?_, text_name hforeign s q.target⟩
        rw [after_cons]
        exact owner?_after hforeign (by rw [owner?_name hforeign, if_pos rfl])
      · exact ih ha

/-- Answers about one element are the same. -/
theorem text_eq_of_target_eq {a b : Answer} (ha : a ∈ s.answers p qs) (hb : b ∈ s.answers p qs)
    (htarget : a.target = b.target) : a.text = b.text := by
  obtain ⟨owner, howner, htext⟩ := owner_of_mem_answers hforeign ha
  obtain ⟨owner', howner', htext'⟩ := owner_of_mem_answers hforeign hb
  rw [htarget, howner'] at howner
  cases howner
  rw [htext, htext', htarget]

/-- What is imported in the end is the home of an element that was called by its short name elsewhere. -/
theorem mem_imported_after {n : NamespaceRef} (h : n ∈ (s.after p qs).imported) :
    n ∈ s.imported ∨ ∃ a ∈ s.answers p qs, Scope.foreignHome a.place a.target = some n ∧
      a.text = p.typeName a.target.name := by
  induction qs generalizing s with
  | nil => exact .inl h
  | cons q qs ih =>
      rcases ih h with hbefore | ⟨a, ha, hhome, htext⟩
      · rw [imported_name hforeign] at hbefore
        split at hbefore
        · next hown =>
          have htext : (s.name p q.place q.target).1 = p.typeName q.target.name := by
            rw [text_name hforeign, hown, Scope.spelled, if_pos rfl]
          cases hhome : Scope.foreignHome q.place q.target with
          | none =>
              rw [hhome] at hbefore
              exact .inl hbefore
          | some m =>
              rw [hhome, Option.elim_some, imported_addImport] at hbefore
              split at hbefore
              · exact .inl hbefore
              · rcases List.mem_cons.mp hbefore with rfl | hbefore
                · exact .inr ⟨_, List.mem_cons_self, hhome, htext⟩
                · exact .inl hbefore
        · exact .inl hbefore
      · exact .inr ⟨a, List.mem_cons_of_mem _ ha, hhome, htext⟩

/-- The home of an element that owns its short name is imported once the element was named elsewhere. -/
theorem imports_of_mem_answers {a : Answer} {n : NamespaceRef} (ha : a ∈ s.answers p qs)
    (hown : (s.after p qs).owner? (p.typeName a.target.name) = some a.target.id)
    (hhome : Scope.foreignHome a.place a.target = some n) : ∃ m ∈ (s.after p qs).imported, m.id = n.id := by
  induction qs generalizing s with
  | nil => cases ha
  | cons q qs ih =>
      rcases List.mem_cons.mp ha with rfl | ha
      · have howner : (s.name p q.place q.target).2.owner? (p.typeName q.target.name) =
            some ((s.owner? (p.typeName q.target.name)).getD q.target.id) := by
          rw [owner?_name hforeign, if_pos rfl]
        rw [after_cons, owner?_after hforeign howner, Option.some_inj] at hown
        have himported : (s.name p q.place q.target).2.imported = (s.addImport n).imported := by
          rw [imported_name hforeign, if_pos hown, hhome, Option.elim_some]
        have hadded : ∃ m ∈ (s.addImport n).imported, m.id = n.id := by
          rw [imported_addImport]
          split
          · next hany => simpa using hany
          · exact ⟨n, List.mem_cons_self, rfl⟩
        obtain ⟨m, hm, hid⟩ := hadded
        rw [← himported] at hm
        rw [after_cons]
        exact ⟨m, subset_imported_after hm, hid⟩
      · exact ih ha hown

end Free

end Runs

theorem mem_imports {s : Scope} {n : NamespaceRef} : n ∈ s.imports ↔ n ∈ s.imported := by
  simp [Scope.imports]

/-! ### Names in C# -/

theorem dot_notMem_identifier {p : Policy} (s : String) : '.' ∉ (p.identifier .pascal s).toList := by
  have hcased : '.' ∉ (Text.Casing.pascal.apply s).toList := fun h =>
    absurd (Text.isAlphanum_of_mem_pascal h) (by decide)
  unfold Policy.identifier
  dsimp only
  split
  · simpa using hcased
  · exact hcased

section CSharp

variable {p : Policy} (hpolicy : p = csharpPolicy ∨ p = cliPolicy)

include hpolicy

theorem dot_notMem_typeName (name : String) : '.' ∉ (p.typeName name).toList := by
  rcases hpolicy with rfl | rfl <;> exact dot_notMem_identifier name

theorem qualify_eq (space name : String) : p.qualify space name = space ++ "." ++ name := by
  rcases hpolicy with rfl | rfl <;> rfl

/-- A qualified name is split where it was joined. -/
theorem splitLast_qualify (space name : String) :
    Text.splitLast '.' (p.qualify space (p.typeName name)) = (some space, p.typeName name) := by
  rw [qualify_eq hpolicy]
  exact Text.splitLast_append (dot_notMem_typeName hpolicy name)

/-- A qualified name has a dot in it, and short names have none. -/
theorem qualify_ne_typeName (space name other : String) : p.qualify space name ≠ p.typeName other := by
  intro h
  refine dot_notMem_typeName hpolicy other ?_
  rw [← h, qualify_eq hpolicy]
  simp

/-- An element goes by its plain name exactly if it has the name. -/
theorem spelled_eq_typeName_iff {d : Definition} {owner : DefinitionId} (hhome : d.home.isSome) :
    Scope.spelled p d owner = p.typeName d.name ↔ owner = d.id := by
  obtain ⟨home, hhome⟩ := Option.isSome_iff_exists.mp hhome
  unfold Scope.spelled
  split
  · next hown => simp [hown]
  · next hother =>
    simp only [hhome, hother, iff_false]
    exact qualify_ne_typeName hpolicy _ _ _

/-- One spelling is that of one element, given that owners are known by their short names and elements by their
homes and short names. -/
theorem spelled_injective {d d' : Definition} {owner owner' : DefinitionId} (hhome : d.home.isSome)
    (hhome' : d'.home.isSome) (howner : p.typeName d.name = p.typeName d'.name → owner = owner')
    (h : Scope.spelled p d owner = Scope.spelled p d' owner') :
    d.id = d'.id ∨ d.home.map (·.name) = d'.home.map (·.name) ∧ p.typeName d.name = p.typeName d'.name := by
  obtain ⟨home, hhome⟩ := Option.isSome_iff_exists.mp hhome
  obtain ⟨home', hhome'⟩ := Option.isSome_iff_exists.mp hhome'
  simp only [Scope.spelled, hhome, hhome'] at h
  by_cases hown : owner = d.id
  · by_cases hown' : owner' = d'.id
    · rw [if_pos hown, if_pos hown'] at h
      rw [← hown, ← hown']
      exact .inl (howner h)
    · rw [if_pos hown, if_neg hown'] at h
      exact absurd h.symm (qualify_ne_typeName hpolicy _ _ _)
  · by_cases hown' : owner' = d'.id
    · rw [if_neg hown, if_pos hown'] at h
      exact absurd h (qualify_ne_typeName hpolicy _ _ _)
    · rw [if_neg hown, if_neg hown'] at h
      have hparts := congrArg (Text.splitLast '.') h
      rw [splitLast_qualify hpolicy, splitLast_qualify hpolicy, Prod.mk.injEq, Option.some_inj] at hparts
      exact .inr ⟨by rw [hhome, hhome', Option.map_some, Option.map_some, hparts.1], hparts.2⟩

/-- Questions about elements that differ in the name of their home or in their short name, asked anywhere and in
any order, are answered alike for one element and differently for two. A namespace is imported from the time on
when an element of it is called by its short name elsewhere, and only for such an element. -/
theorem names_apart_and_imported {S : Set Definition} {qs : List Question} (hidentity : S.InjOn Definition.id)
    (hhome : ∀ d ∈ S, d.home.isSome)
    (hdistinct : S.InjOn fun d => (d.home.map (·.name), p.typeName d.name)) (hqs : ∀ q ∈ qs, q.target ∈ S) :
    (∀ a ∈ Scope.answers p {} qs, ∀ b ∈ Scope.answers p {} qs, a.text = b.text ↔ a.target = b.target) ∧
      (∀ a ∈ Scope.answers p {} qs, a.text = p.typeName a.target.name → ∀ n, a.target.home = some n →
        some n.id ≠ a.place → ∀ more, (Scope.after p {} (qs ++ more)).ImportsSpace n) ∧
      ∀ n ∈ (Scope.after p {} qs).imports, ∃ a ∈ Scope.answers p {} qs,
        a.target.home = some n ∧ some n.id ≠ a.place ∧ a.text = p.typeName a.target.name := by
  have hforeign : p.qualifiesForeign = false := by rcases hpolicy with rfl | rfl <;> rfl
  have hmem : ∀ a ∈ Scope.answers p {} qs, a.target ∈ S := fun a ha => hqs _ (question_mem ha)
  refine ⟨fun a ha b hb => ⟨fun htext => ?_, text_eq_of_target_eq hforeign ha hb⟩, ?_, ?_⟩
  · obtain ⟨owner, howner, ha'⟩ := owner_of_mem_answers hforeign ha
    obtain ⟨owner', howner', hb'⟩ := owner_of_mem_answers hforeign hb
    have hsame : p.typeName a.target.name = p.typeName b.target.name → owner = owner' := by
      intro hshort
      rw [hshort, howner'] at howner
      exact (Option.some.inj howner).symm
    rw [ha', hb'] at htext
    rcases spelled_injective hpolicy (hhome _ (hmem a ha)) (hhome _ (hmem b hb)) hsame htext with hid | hpair
    · exact hidentity (hmem a ha) (hmem b hb) hid
    · exact hdistinct (hmem a ha) (hmem b hb) (Prod.ext hpair.1 hpair.2)
  · intro a ha htext n hn hplace more
    obtain ⟨owner, howner, ha'⟩ := owner_of_mem_answers hforeign ha
    rw [htext] at ha'
    rw [(spelled_eq_typeName_iff hpolicy (hhome _ (hmem a ha))).mp ha'.symm] at howner
    obtain ⟨m, hm, hid⟩ :=
      imports_of_mem_answers hforeign ha howner (foreignHome_eq_some_iff.mpr ⟨hn, hplace⟩)
    rw [after_append]
    exact ⟨m, mem_imports.mpr (subset_imported_after hm), hid⟩
  · intro n hn
    rcases mem_imported_after hforeign (mem_imports.mp hn) with hnone | ⟨a, ha, hforeignHome, htext⟩
    · cases hnone
    · obtain ⟨hn, hplace⟩ := foreignHome_eq_some_iff.mp hforeignHome
      exact ⟨a, ha, hn, hplace, htext⟩

end CSharp

namespace UserSample

def first : Definition := .ofClass { id := ⟨0⟩, name := "User", home := some ⟨⟨1⟩, "ApiSdk.a"⟩ }

def second : Definition := .ofClass { id := ⟨1⟩, name := "User", home := some ⟨⟨2⟩, "ApiSdk.b"⟩ }

/-- The namespace above the homes of two users asks for the first one twice. -/
def questions : List Question := [⟨first, some ⟨0⟩⟩, ⟨second, some ⟨0⟩⟩, ⟨first, some ⟨0⟩⟩]

end UserSample

open UserSample in
/-- Of two users, the first goes by the plain name and is imported, and the second is qualified. -/
theorem users_apart_and_imported :
    ((Scope.answers csharpPolicy {} questions).map (·.text) = ["User", "ApiSdk.b.User", "User"] ∧
      (Scope.after csharpPolicy {} questions).imports = [⟨⟨1⟩, "ApiSdk.a"⟩]) ∧
      (∀ a ∈ Scope.answers csharpPolicy {} questions, ∀ b ∈ Scope.answers csharpPolicy {} questions,
        a.text = b.text ↔ a.target = b.target) ∧
      (∀ a ∈ Scope.answers csharpPolicy {} questions, a.text = csharpPolicy.typeName a.target.name →
        ∀ n, a.target.home = some n → some n.id ≠ a.place →
          ∀ more, (Scope.after csharpPolicy {} (questions ++ more)).ImportsSpace n) ∧
      ∀ n ∈ (Scope.after csharpPolicy {} questions).imports, ∃ a ∈ Scope.answers csharpPolicy {} questions,
        a.target.home = some n ∧ some n.id ≠ a.place ∧ a.text = csharpPolicy.typeName a.target.name := by
  have hids : first.id ≠ second.id := by decide
  have hspaces : first.home.map (·.name) ≠ second.home.map (·.name) := by decide
  have hidentity : Set.InjOn Definition.id {first, second} := by
    rw [Set.injOn_pair]
    exact fun h => absurd h hids
  have hdistinct : Set.InjOn (fun d : Definition => (d.home.map (·.name), csharpPolicy.typeName d.name))
      {first, second} := by
    rw [Set.injOn_pair]
    exact fun h => absurd (congrArg Prod.fst h) hspaces
  exact ⟨by decide +kernel, names_apart_and_imported (.inl rfl) hidentity (by rintro d (rfl | rfl) <;> rfl) hdistinct
    (by simp [questions])⟩

end ClientForge.Convention
