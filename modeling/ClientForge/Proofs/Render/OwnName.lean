import ClientForge.Proofs.Convention.Scope
import ClientForge.Proofs.Document.Homes
import ClientForge.Proofs.Render.CSharpAsking
import ClientForge.Proofs.Render.CSharpQualified
import ClientForge.Proofs.Render.TypeScriptAsking

/-!
# The name of a class in its own file

The file of a class declares it under its short name without asking the scope for it. The scope hands out short
names to whoever comes first: to a base, to the type of a property, or to the class itself once the file refers
to it. So the name that the file declares can go to another element, and then the class is qualified in its own
file.

* **`taken_iff`.** A short name is taken for all but the first element of a file that has it.
* **`own_name_kept_iff`.** In C# and TypeScript the name of the class is kept for the class exactly if the first
  element of that name is the class. A qualified name is in the way only in one corner: an element without a
  short name, in a namespace whose name is the reserved word that the class is called after.
-/

namespace ClientForge.Render

open ClientForge.Graph ClientForge.Plan ClientForge.Convention

/-! ### First come, first served -/

section Owners

variable {p : Policy} {place : Option NamespaceId}

/-- Whether questions for names follow one another from a scope on, each with the scope that the ones before it
have left. -/
def Chained (p : Policy) (place : Option NamespaceId) : Scope → List Naming → Prop
  | _, [] => True
  | s, n :: rest =>
    n.scope = s ∧ Chained p place (s.name p place n.target).2 rest

/-- Each naming of a script starts from the scope that the one before it leaves. -/
theorem chained_namings {α : Type} {e : Engine} (script : Script α) (page : Page) :
    Chained e.context.policy place page.scope (script.namings e place page) := by
  induction script generalizing page with
  | done | fail => trivial
  | write stroke next ih => simpa [Script.namings] using ih (page.write stroke)
  | need item next ih => simpa [Script.namings] using ih (page.need item)
  | name d next ih =>
      have hnext := ih (page.name e.context.policy place d).1 (page.name e.context.policy place d).2
      rw [Page.scope_name] at hnext
      exact ⟨rfl, hnext⟩
  | plan m next ih =>
      unfold Script.namings
      split
      · trivial
      · next body _ => exact ih body { page with planned := m :: page.planned, host := m.parent }

/-- The first element with a short name. -/
def firstNamed (p : Policy) (x : String) (namings : List Naming) : Option Naming :=
  namings.find? (p.typeName ·.target.name == x)

/-- Where something is named so, something is the first to be. -/
theorem exists_firstNamed {x : String} {namings : List Naming} {n : Naming} (hn : n ∈ namings)
    (hx : p.typeName n.target.name = x) : ∃ m, firstNamed p x namings = some m :=
  Option.isSome_iff_exists.mp (List.find?_isSome.mpr ⟨n, hn, by simpa using hx⟩)

/-- A name is taken exactly if something else was the first to have it. -/
theorem taken_iff (hforeign : p.qualifiesForeign = false) {s : Scope} {namings : List Naming}
    (h : Chained p place s namings) {n : Naming} (hn : n ∈ namings) :
    n.Taken p ↔ (s.owner? (p.typeName n.target.name)).or
      ((firstNamed p (p.typeName n.target.name) namings).map (·.target.id)) ≠ some n.target.id := by
  induction namings generalizing s with
  | nil => cases hn
  | cons first rest ih =>
      obtain ⟨hscope, hrest⟩ := h
      rcases List.mem_cons.mp hn with rfl | hn
      · -- the scope that the first question meets is the one to start with
        cases howner : s.owner? (p.typeName n.target.name) with
        | none => simp [Naming.Taken, hscope, howner, firstNamed]
        | some owner => simp [Naming.Taken, hscope, howner]
      · rw [ih hrest hn, owner?_name hforeign]
        by_cases hsame : p.typeName first.target.name = p.typeName n.target.name
        · cases howner : s.owner? (p.typeName n.target.name) <;> simp [firstNamed, hsame]
        · simp [firstNamed, hsame]

end Owners

/-! ### Qualified names beside short ones -/

section Qualified

theorem underscore_notMem_reserved : ∀ word ∈ typescriptReserved, '_' ∉ word.toList := by decide +kernel

/-- An underscore in a short name is the mark of a reserved word. -/
theorem reserved_of_underscore_mem {p : Policy} {s : String} (h : '_' ∈ (p.identifier .pascal s).toList) :
    ∃ word ∈ p.reserved, p.identifier .pascal s = word ++ "_" := by
  have hcased : '_' ∉ (Text.Casing.pascal.apply s).toList := fun h =>
    absurd (Text.isAlphanum_of_mem_pascal h) (by decide)
  unfold Policy.identifier at h ⊢
  dsimp only at h ⊢
  split at h
  · next hword =>
    rw [if_pos hword]
    exact ⟨_, List.contains_iff_mem.mp hword, rfl⟩
  · exact absurd h hcased

/-- A qualified name is a short one only if nothing is left behind the qualifier. -/
theorem eq_empty_of_qualify_eq {l : Language} (hl : l ≠ .go) {space short name : String}
    (h : l.policy.qualify space short = l.policy.typeName name) : short = "" := by
  have hdot : '.' ∉ (l.policy.typeName name).toList := by
    cases l <;> exact dot_notMem_identifier _
  cases l with
  | go => exact absurd rfl hl
  | csharp | cli =>
      refine absurd ?_ hdot
      rw [← h]
      simp [Language.policy, cliPolicy, csharpPolicy]
  | typescript =>
      have hmark : '_' ∈ (typescriptPolicy.identifier .pascal name).toList := by
        change '_' ∈ (Language.typescript.policy.typeName name).toList
        rw [← h]
        simp [Language.policy, typescriptPolicy]
      obtain ⟨word, hword, hname⟩ := reserved_of_underscore_mem hmark
      have hlists : (Text.replaceChar '.' "_" space).toList ++ '_' :: short.toList = word.toList ++ ['_'] := by
        have := congrArg String.toList (h.trans hname)
        simpa [Language.policy, typescriptPolicy] using this
      rcases List.eq_nil_or_concat short.toList with hnil | ⟨front, last, hshort⟩
      · exact String.toList_eq_nil_iff.mp hnil
      · -- the word itself would hold the mark
        rw [hshort, List.concat_eq_append, ← List.cons_append, ← List.append_assoc] at hlists
        have hfront := (List.append_inj' hlists rfl).1
        exact absurd (hfront ▸ by simp) (underscore_notMem_reserved word hword)

end Qualified

/-! ### Who is called by a short name -/

section Kept

variable {l : Language} {place : Option NamespaceId} {namings : List Naming} {n : Naming}

theorem qualifiesForeign_eq_false (hl : l ≠ .go) : l.policy.qualifiesForeign = false := by
  cases l with
  | go => exact absurd rfl hl
  | csharp | cli | typescript => rfl

/-- What is named under a free name goes by it. -/
theorem spelling_of_not_taken {p : Policy} (hforeign : p.qualifiesForeign = false) (hfree : ¬ n.Taken p) :
    (n.scope.name p place n.target).1 = p.typeName n.target.name := by
  cases howner : n.scope.owner? (p.typeName n.target.name) with
  | none => simp [Scope.name, hforeign, howner]
  | some owner =>
      have hsame : owner = n.target.id := by
        by_contra hother
        exact hfree ⟨owner, howner, hother⟩
      simp [Scope.name, hforeign, howner, hsame]

/-- A name is spelled like a short one in two ways: it is that short name, and not taken, or nothing is left of
it behind the qualifier. -/
theorem spelling_eq_typeName_iff (hl : l ≠ .go) {name : String} (hhome : n.target.home.isSome) :
    (n.scope.name l.policy place n.target).1 = l.policy.typeName name ↔
      (¬ n.Taken l.policy ∧ l.policy.typeName n.target.name = l.policy.typeName name) ∨
      (n.Taken l.policy ∧ l.policy.typeName n.target.name = "" ∧
        ∃ home, n.target.home = some home ∧ l.policy.qualify home.name "" = l.policy.typeName name) := by
  have hforeign := qualifiesForeign_eq_false hl
  by_cases htaken : n.Taken l.policy
  · obtain ⟨home, hhome⟩ := Option.isSome_iff_exists.mp hhome
    rw [CSharp.name_of_taken hforeign htaken hhome]
    constructor
    · intro h
      have hempty := eq_empty_of_qualify_eq hl h
      rw [hempty] at h
      exact .inr ⟨htaken, hempty, home, hhome, h⟩
    · rintro (⟨hfree, -⟩ | ⟨-, hempty, home', hhome', h⟩)
      · exact absurd htaken hfree
      · obtain rfl : home = home' := Option.some.inj (hhome.symm.trans hhome')
        rw [hempty, h]
  · rw [spelling_of_not_taken hforeign htaken]
    simp [htaken]

/-- An element has its own name to itself exactly if it is the first to be named so, and nothing without a name is
qualified to the same text. -/
theorem kept_iff (hl : l ≠ .go) {d : Definition} (hchained : Chained l.policy place {} namings)
    (hspelling : ∀ n ∈ namings, n.spelling = (n.scope.name l.policy place n.target).1)
    (hext : ∀ n ∈ namings, n.target.id = d.id → n.target = d) (hhome : ∀ n ∈ namings, n.target.home.isSome) :
    (∀ n ∈ namings, n.spelling = l.policy.typeName d.name ↔ n.target = d) ↔
      (∀ n, firstNamed l.policy (l.policy.typeName d.name) namings = some n → n.target = d) ∧
        ∀ n ∈ namings, n.Taken l.policy → l.policy.typeName n.target.name = "" →
          ∀ home, n.target.home = some home → l.policy.qualify home.name "" ≠ l.policy.typeName d.name := by
  have hforeign := qualifiesForeign_eq_false hl
  have htaken : ∀ n ∈ namings, n.Taken l.policy ↔
      (firstNamed l.policy (l.policy.typeName n.target.name) namings).map (·.target.id) ≠ some n.target.id :=
    fun n hn => taken_iff hforeign hchained hn
  have hspelled : ∀ n ∈ namings, n.spelling = l.policy.typeName d.name ↔ _ := fun n hn =>
    (hspelling n hn) ▸ spelling_eq_typeName_iff hl (hhome n hn)
  constructor
  · intro hkept
    have hfirst : ∀ n, firstNamed l.policy (l.policy.typeName d.name) namings = some n → n.target = d := by
      intro n hfound
      have hn : n ∈ namings := List.mem_of_find?_eq_some hfound
      have hname : l.policy.typeName n.target.name = l.policy.typeName d.name := by
        simpa using List.find?_some hfound
      have hfree : ¬ n.Taken l.policy := by
        rw [htaken n hn, hname, hfound]
        simp
      exact (hkept n hn).mp ((hspelled n hn).mpr (.inl ⟨hfree, hname⟩))
    refine ⟨hfirst, fun n hn hn' hempty home hsome heq => ?_⟩
    -- such an element would be the one that is asked for, and the first of its name
    obtain rfl : n.target = d := (hkept n hn).mp ((hspelled n hn).mpr (.inr ⟨hn', hempty, home, hsome, heq⟩))
    obtain ⟨m, hm⟩ := exists_firstNamed (p := l.policy) hn rfl
    refine (htaken n hn).mp hn' ?_
    rw [hm, Option.map_some, hfirst m hm]
  · rintro ⟨hfirst, hcorner⟩ n hn
    rw [hspelled n hn]
    constructor
    · rintro (⟨hfree, hname⟩ | ⟨hn', hempty, home, hsome, heq⟩)
      · obtain ⟨m, hm⟩ := exists_firstNamed hn hname
        rw [htaken n hn, hname, hm, Option.map_some, hfirst m hm, not_not] at hfree
        exact hext n hn (Option.some.inj hfree).symm
      · exact absurd heq (hcorner n hn hn' hempty home hsome)
    · rintro rfl
      obtain ⟨m, hm⟩ := exists_firstNamed (p := l.policy) hn rfl
      refine .inl ⟨?_, rfl⟩
      rw [htaken n hn, hm, Option.map_some, hfirst m hm]
      simp

end Kept

/-! ### Files of classes -/

/-- In every language but Go, the script of a class names only elements of the graph. -/
theorem asks_scriptOf_class {e : Engine} (he : e.IsStandard) {form : Language} (hform : form ≠ .go)
    (importPath : String) (format : Formatter) (c : ClassDef) :
    (scriptOf (.forLanguage importPath format form) e (.ofClass c)).Asks e e.context.graph fun _ => True := by
  cases form with
  | go => exact absurd rfl hform
  | csharp => exact CSharp.asks_classScript he false c
  | cli => exact CSharp.asks_classScript he true c
  | typescript => exact TypeScript.asks_classScript he c

/-- In the file of a class the short name stands for the class and for nothing else exactly if two things hold:
of the elements with that short name, the first one that the file refers to is the class, and no element without
a short name is qualified by what the class is called. -/
theorem own_name_kept_iff {entry : Document.NamespaceEntry} {e : Engine} {l : Language} {c : ClassDef}
    (importPath : String) (format : Formatter) (form : Language) (hgraph : Document.graphOf entry = .ok e.context.graph)
    (hform : form ≠ .go) (hl : l ≠ .go) (hpolicy : e.context.policy = l.policy) (he : e.IsStandard)
    (hc : c ∈ e.context.graph.allClasses) :
    (∀ n ∈ namingsOf (.forLanguage importPath format form) e (.ofClass c),
        n.spelling = l.policy.typeName c.name ↔ n.target = .ofClass c) ↔
      (∀ n, firstNamed l.policy (l.policy.typeName c.name)
          (namingsOf (.forLanguage importPath format form) e (.ofClass c)) = some n → n.target = .ofClass c) ∧
        ∀ n ∈ namingsOf (.forLanguage importPath format form) e (.ofClass c), n.Taken l.policy →
          l.policy.typeName n.target.name = "" → ∀ home, n.target.home = some home →
            l.policy.qualify home.name "" ≠ l.policy.typeName c.name := by
  have hplaced := Document.placed_of_graphOf hgraph
  have hhoused := Document.housed_of_graphOf hgraph
  have hself : e.context.graph.Holds (.ofClass c) :=
    holds_class (hplaced.class_of_mem (mem_classes_of_mem_allClasses hc))
  have hheld : ∀ n ∈ namingsOf (.forLanguage importPath format form) e (.ofClass c), e.context.graph.Holds n.target :=
    fun n hn => holds_of_mem_namings (asks_scriptOf_class he hform importPath format c) hn
  have hchained : Chained e.context.policy (c.home.map (·.id)) {}
      (namingsOf (.forLanguage importPath format form) e (.ofClass c)) :=
    chained_namings (scriptOf (.forLanguage importPath format form) e (.ofClass c)) (startPage _ _)
  have hspelling : ∀ n ∈ namingsOf (.forLanguage importPath format form) e (.ofClass c),
      n.spelling = (n.scope.name e.context.policy (c.home.map (·.id)) n.target).1 :=
    fun n hn => spelling_of_mem_namings hn
  rw [hpolicy] at hchained hspelling
  exact kept_iff (d := .ofClass c) hl hchained hspelling
    (fun n hn hid => holds_ext hplaced hhoused (hheld n hn) hself hid)
    (fun n hn => hhoused.home_isSome _ (hheld n hn))

namespace HeirSample

/-- A document with two classes of one name. The first one extends the second, which refers to itself before it
refers to the first. -/
def entry : Document.NamespaceEntry :=
  { name := "Sdk"
    namespaces :=
      [{ name := "a", classes := [{ name := "Item", inherits := some { name := "Sdk.b.Item" } }] },
        { name := "b"
          classes :=
            [{ name := "Item"
               properties :=
                [{ name := "Next", type := { name := "Sdk.b.Item" } },
                  { name := "Heir", type := { name := "Sdk.a.Item" } }] }] }] }

def base : ClassDef :=
  { id := ⟨1⟩, name := "Item", home := some ⟨⟨2⟩, "Sdk.b"⟩
    properties :=
      [{ name := "Next", type := some (.scalar { name := "Item", definition := some (.ofClass ⟨1⟩) })
         parent := some ⟨1⟩ },
        { name := "Heir", type := some (.scalar { name := "Item", definition := some (.ofClass ⟨0⟩) })
          parent := some ⟨1⟩ }] }

def heir : ClassDef :=
  { id := ⟨0⟩, name := "Item", home := some ⟨⟨1⟩, "Sdk.a"⟩
    inherits := some { name := "Item", definition := some (.ofClass ⟨1⟩) } }

def graph : Graph :=
  { root :=
      { id := ⟨0⟩, name := "Sdk"
        children :=
          [{ id := ⟨1⟩, name := "Sdk.a", parent := some ⟨0⟩, classes := [⟨0⟩] },
            { id := ⟨2⟩, name := "Sdk.b", parent := some ⟨0⟩, classes := [⟨1⟩] }] }
    classes := #[heir, base], enums := #[] }

def engine (l : Language) : Engine := { context := ⟨graph, l.policy, {}⟩, handlers := defaultHandlers }

theorem graphOf_entry (l : Language) : Document.graphOf entry = .ok (engine l).context.graph := by
  rfl

/-- The scope of a page once the base has claimed the name. -/
def claimed (imported : List NamespaceRef) : Scope := { bound := [("Item", .ofClass ⟨1⟩)], imported }

/-- What the base class of the sample names. -/
theorem namingsOf_base :
    namingsOf (.forLanguage "" asWritten .csharp) (engine .csharp) (.ofClass base) =
      [⟨.ofClass base, {}, "Item"⟩, ⟨.ofClass heir, claimed [], "Sdk.a.Item"⟩] := by
  rfl

/-- What the other class names. -/
theorem namingsOf_heir :
    namingsOf (.forLanguage "" asWritten .typescript) (engine .typescript) (.ofClass heir) =
      [⟨.ofClass base, {}, "Item"⟩] := by
  rfl

end HeirSample

open HeirSample

/-- The base comes first in its own file, and its heir is qualified there. In the file of the heir the base comes
first as well, so that its name is that of the class which the file declares. -/
theorem base_keeps_its_name_and_heir_does_not :
    (∀ n ∈ namingsOf (.forLanguage "" asWritten .csharp) (engine .csharp) (.ofClass base),
      n.spelling = Language.csharp.policy.typeName "Item" ↔ n.target = .ofClass base) ∧
    ¬ ∀ n ∈ namingsOf (.forLanguage "" asWritten .typescript) (engine .typescript) (.ofClass heir),
      n.spelling = Language.typescript.policy.typeName "Item" ↔ n.target = .ofClass heir := by
  have hclasses : ∀ l, (engine l).context.graph.allClasses = [heir, base] := fun _ => rfl
  have hbase := own_name_kept_iff (c := base) (l := .csharp) "" asWritten .csharp (graphOf_entry .csharp) (by decide)
    (by decide) rfl (.inl rfl) (by simp [hclasses])
  have hheir := own_name_kept_iff (c := heir) (l := .typescript) "" asWritten .typescript (graphOf_entry .typescript)
    (by decide) (by decide) rfl (.inl rfl) (by simp [hclasses])
  have hshort : ∀ l : Language, l.policy.typeName "Item" = "Item" := by
    intro l
    cases l <;> decide +kernel
  refine ⟨hbase.mpr ?_, fun hkept => ?_⟩
  · rw [namingsOf_base]
    refine ⟨fun n hn => ?_, fun n hn _ hempty => ?_⟩
    · obtain rfl : ⟨.ofClass base, {}, "Item"⟩ = n := by
        simpa [firstNamed, base, Definition.name] using hn
      rfl
    · have hname : n.target.name = "Item" := by
        rcases hn with _ | ⟨_, _ | ⟨_, _ | _⟩⟩ <;> rfl
      rw [hname, hshort] at hempty
      exact absurd hempty (by decide)
  · have hfirst := (hheir.mp hkept).1 ⟨.ofClass base, {}, "Item"⟩ (by
      rw [namingsOf_heir]
      simp [firstNamed, base, heir, Definition.name])
    have hid : base.id = heir.id := congrArg ClassDef.id (Definition.ofClass.inj hfirst)
    exact absurd hid (by decide)

end ClientForge.Render
