import ClientForge.Proofs.Convention.Scope
import ClientForge.Proofs.Render.Naming
import ClientForge.Proofs.Text.Pascal

/-!
# Qualified names in C#

Two elements of one name can meet in a file. The second one is qualified, and C# resolves the qualifier among
the namespaces that other files declare. The qualifier is the full name of the namespace as the graph has it,
while a declaration writes each part of that name in Pascal case. So a qualified name resolves only where
casing has nothing to do:

* **`identifier_eq_self_iff`.** A part stays as it is in a declaration exactly if it is in Pascal case. Reserved
  words need no exception: they start with a small letter, and no name comes out of its own escape.
* **`qualified_name_resolves_iff`.** A qualified name has the namespace that its element's file declares exactly
  if every part of the namespace's name is in Pascal case.
-/

namespace ClientForge.Render.CSharp

open ClientForge.Graph ClientForge.Plan ClientForge.Convention Text

/-! ### Declared namespaces -/

theorem reserved_starts_lower : ∀ word ∈ csharpReserved, word.toList.head?.any Char.isLower := by
  decide +kernel

/-- Cased once more, an escaped word starts with a capital. -/
theorem pascal_escaped_ne : ∀ word ∈ csharpReserved, Casing.pascal.apply (word ++ "_") ≠ word := by
  decide +kernel

section Declared

variable {p : Policy}

/-- An identifier stays as it is exactly if it is in Pascal case. -/
theorem identifier_eq_self_iff (hreserved : p.reserved = csharpReserved) (s : String) :
    p.identifier .pascal s = s ↔ InPascalCase s := by
  rw [← pascal_eq_self_iff]
  simp only [Policy.identifier, Policy.isReserved, hreserved, List.contains_iff_mem]
  split
  · next hword =>
    refine iff_of_false (fun h => ?_) (fun h => ?_)
    · -- the text would be the escape of the word that casing makes of it
      exact pascal_escaped_ne _ hword (congrArg Casing.pascal.apply h)
    · rw [h] at hword
      obtain ⟨c, hc, hlower⟩ := (Option.any_eq_true _ _).1 (reserved_starts_lower s hword)
      exact ((pascal_eq_self_iff s).1 h).front c hc hlower
  · rfl

/-- A namespace is declared under its own name exactly if all parts of the name are in Pascal case. -/
theorem namespaceName_eq_name_iff (hreserved : p.reserved = csharpReserved) (n : NamespaceRef) :
    namespaceName p (some n) = n.name ↔ ∀ part ∈ split '.' n.name, InPascalCase part := by
  have hparts := intercalate_map_split_eq_iff dot_notMem_identifier n.name (f := p.identifier .pascal)
  simp only [identifier_eq_self_iff hreserved] at hparts
  exact hparts

end Declared

/-- Whether a file declares its element in a namespace: that is what follows its imports. -/
def Declares (file : SourceFile) (space : String) : Prop :=
  ∃ (imports : List String) (declarations : String),
    file.content =
      "// <auto-generated/>\n" ++ String.join (imports.map fun n => "using " ++ n ++ ";\n") ++
        ("namespace " ++ space ++ " \x7b\n" ++ declarations ++ "\x7d\n")

/-- A file declares the namespace of its element. -/
theorem declares_fileOf (commands : Bool) (e : Engine) (d : Definition) (page : Page) :
    Declares (fileOf (.csharp commands) e d page) (namespaceName e.context.policy d.home) :=
  ⟨usings e.context.policy d.home page, page.writer.text, by
    simp [fileOf, Renderer.csharp, fileText, String.join_append, String.join_cons, String.append_assoc]⟩

/-! ### Qualified names -/

/-- An element whose name is taken is qualified with its home. -/
theorem name_of_taken {p : Policy} {place : Option NamespaceId} {n : Naming} {home : NamespaceRef}
    (hforeign : p.qualifiesForeign = false) (htaken : n.Taken p) (hhome : n.target.home = some home) :
    (n.scope.name p place n.target).1 = p.qualify home.name (p.typeName n.target.name) := by
  obtain ⟨owner, howner, hother⟩ := htaken
  simp [Scope.name, hforeign, howner, hother, hhome]

/-- In a C# client, with or without commands, an element whose short name is taken goes by the full name of its
namespace, letter by letter. That is the namespace that its own file declares exactly if every part of the full
name is in Pascal case. -/
theorem qualified_name_resolves_iff {e : Engine} {commands : Bool} {cls : ClassDef} {n : Naming}
    {home : NamespaceRef} (hpolicy : e.context.policy = csharpPolicy ∨ e.context.policy = cliPolicy)
    (hn : n ∈ namingsOf (.csharp commands) e (.ofClass cls)) (htaken : n.Taken e.context.policy)
    (hhome : n.target.home = some home) :
    (∀ page, Declares (fileOf (.csharp commands) e n.target page) (namespaceName e.context.policy (some home))) ∧
      n.spelling = home.name ++ "." ++ e.context.policy.typeName n.target.name ∧
      (n.spelling =
          namespaceName e.context.policy (some home) ++ "." ++ e.context.policy.typeName n.target.name ↔
        ∀ part ∈ split '.' home.name, InPascalCase part) := by
  have hreserved : e.context.policy.reserved = csharpReserved := by
    rcases hpolicy with h | h <;> rw [h] <;> rfl
  have hforeign : e.context.policy.qualifiesForeign = false := by
    rcases hpolicy with h | h <;> rw [h] <;> rfl
  have hspelling : n.spelling = home.name ++ "." ++ e.context.policy.typeName n.target.name := by
    rw [spelling_of_mem_namings hn, name_of_taken hforeign htaken hhome]
    rcases hpolicy with h | h <;> rw [h] <;> rfl
  refine ⟨fun page => hhome ▸ declares_fileOf commands e n.target page, hspelling, ?_⟩
  rw [hspelling, ← namespaceName_eq_name_iff hreserved]
  simp only [String.append_left_inj]
  exact eq_comm

namespace ItemSample

/-- The item of a namespace, which is known by the same number. -/
def item (place : Nat) (space : String) : ClassDef :=
  { id := ⟨place⟩, name := "Item", home := some ⟨⟨place⟩, space⟩ }

def property (name : String) (place : Nat) : Property :=
  { name, type := some (.scalar { name := "Item", definition := some (.ofClass ⟨place⟩) }) }

/-- A class with items of three namespaces. -/
def holder : ClassDef :=
  { id := ⟨0⟩, name := "Holder", home := some ⟨⟨0⟩, "Sdk"⟩
    properties := [property "First" 1, property "Second" 2, property "Third" 3] }

def graph : Graph :=
  { root :=
      { id := ⟨0⟩, name := "Sdk", classes := [⟨0⟩]
        children :=
          [{ id := ⟨1⟩, name := "Sdk.a", parent := some ⟨0⟩, classes := [⟨1⟩] },
            { id := ⟨2⟩, name := "Sdk.b", parent := some ⟨0⟩, classes := [⟨2⟩] },
            { id := ⟨3⟩, name := "Sdk.Parts", parent := some ⟨0⟩, classes := [⟨3⟩] }] }
    classes := #[holder, item 1 "Sdk.a", item 2 "Sdk.b", item 3 "Sdk.Parts"], enums := #[] }

def engine : Engine := { context := ⟨graph, csharpPolicy, {}⟩, handlers := defaultHandlers }

/-- The scope of the page once the first item has claimed the name. -/
def claimed : Scope := { bound := [("Item", .ofClass ⟨1⟩)], imported := [⟨⟨1⟩, "Sdk.a"⟩] }

def second : Naming := ⟨.ofClass (item 2 "Sdk.b"), claimed, "Sdk.b.Item"⟩

def third : Naming := ⟨.ofClass (item 3 "Sdk.Parts"), claimed, "Sdk.Parts.Item"⟩

/-- What the class of the sample names. -/
theorem namingsOf_holder :
    namingsOf (.csharp false) engine (.ofClass holder) =
      [⟨.ofClass (item 1 "Sdk.a"), {}, "Item"⟩, second, third] := by
  rfl

end ItemSample

open ItemSample

/-- Both items are qualified on one page. The name of the second leads to `Sdk.b`, while its file declares
`Sdk.B`; that of the third leads to the namespace which its file declares. -/
theorem third_item_resolves_and_second_does_not :
    (second ∈ namingsOf (.csharp false) engine (.ofClass holder) ∧ second.spelling = "Sdk.b.Item" ∧
      (∀ page, Declares (fileOf (.csharp false) engine second.target page) "Sdk.B") ∧
      second.spelling ≠ "Sdk.B" ++ "." ++ "Item") ∧
    third ∈ namingsOf (.csharp false) engine (.ofClass holder) ∧
      (∀ page, Declares (fileOf (.csharp false) engine third.target page) "Sdk.Parts") ∧
      third.spelling = "Sdk.Parts" ++ "." ++ "Item" := by
  have hmem2 : second ∈ namingsOf (.csharp false) engine (.ofClass holder) := by simp [namingsOf_holder]
  have hmem3 : third ∈ namingsOf (.csharp false) engine (.ofClass holder) := by simp [namingsOf_holder]
  have hshort : engine.context.policy.typeName "Item" = "Item" := by decide +kernel
  have hdeclared2 : namespaceName csharpPolicy (some ⟨⟨2⟩, "Sdk.b"⟩) = "Sdk.B" := by decide +kernel
  have hdeclared3 : namespaceName csharpPolicy (some ⟨⟨3⟩, "Sdk.Parts"⟩) = "Sdk.Parts" := by decide +kernel
  have htaken2 : second.Taken engine.context.policy := ⟨.ofClass ⟨1⟩, by decide +kernel, by decide⟩
  have htaken3 : third.Taken engine.context.policy := ⟨.ofClass ⟨1⟩, by decide +kernel, by decide⟩
  obtain ⟨hfile2, -, hresolves2⟩ := qualified_name_resolves_iff (.inl rfl) hmem2 htaken2 rfl
  obtain ⟨hfile3, -, hresolves3⟩ := qualified_name_resolves_iff (.inl rfl) hmem3 htaken3 rfl
  refine ⟨⟨hmem2, rfl, fun page => hdeclared2 ▸ hfile2 page, fun h => ?_⟩,
    hmem3, fun page => hdeclared3 ▸ hfile3 page, ?_⟩
  · have hparts := hresolves2.mp (h.trans (by rw [← hdeclared2, ← hshort]; rfl))
    exact absurd (hparts "b" (by decide +kernel)) (by decide +kernel)
  · exact (hresolves3.mpr (by decide +kernel)).trans (by rw [← hdeclared3, ← hshort]; rfl)

end ClientForge.Render.CSharp
