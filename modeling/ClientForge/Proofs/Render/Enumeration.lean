import ClientForge.Proofs.Document.Linked
import ClientForge.Proofs.Render.GoImports
import ClientForge.Proofs.Text.Sorted

/-!
# Finishing a file in any order

What a file imports is gathered in maps, and maps are enumerated in no order of their own. A file is finished by
enumerating its maps several times, and here each time has an order that is open (`Orders`). What is written is
sorted before, so the text does not tell in which order it was gathered.

* `CSharp.finish_eq_finish`, `TypeScript.finish_eq_finish`: that is so for every page.
* `Go.finish_eq_finish`: in Go the import of a namespace can replace another one of the same path. Which one comes
  last depends on their names alone, as long as a namespace is the root only under the name of the root. In the
  graph of a document that is so (`rootNamed_of_graphOf`).
* **`finish_eq_content`.** Every file of a client has the text that it is finished with in any order.
-/

namespace ClientForge.Render

open ClientForge.Graph ClientForge.Plan ClientForge.Convention ClientForge.Text

/-- An order to enumerate a map in. -/
structure Enumeration (α : Type) where
  run : List α → List α
  perm : ∀ xs, (run xs).Perm xs

namespace Enumeration

variable {α : Type}

/-- As the map is kept. -/
def forward : Enumeration α := ⟨id, List.Perm.refl⟩

def backward : Enumeration α := ⟨List.reverse, List.reverse_perm⟩

@[simp]
theorem mem_run (order : Enumeration α) {xs : List α} {x : α} : x ∈ order.run xs ↔ x ∈ xs :=
  (order.perm xs).mem_iff

theorem run_perm_run (order order' : Enumeration α) (xs : List α) : (order.run xs).Perm (order'.run xs) :=
  (order.perm xs).trans (order'.perm xs).symm

end Enumeration

/-- The orders in which the maps of a page are enumerated when its file is finished. -/
structure Orders where
  needs : Enumeration String
  references : Enumeration Reference
  /-- The imported namespaces of the scope. -/
  spaces : Enumeration NamespaceRef
  /-- The keys under which the imports are gathered. -/
  keys : Enumeration String

namespace Orders

/-- The orders in which pages keep their maps. The imports of a scope come latest first. -/
def kept : Orders := ⟨.forward, .forward, .backward, .forward⟩

/-- The imported namespaces of a scope, ordered by name. Those of one name come as they are enumerated. -/
def imports (orders : Orders) (s : Scope) : List NamespaceRef :=
  (orders.spaces.run s.imported).mergeSort fun a b => decide (a.name ≤ b.name)

/-- The imported namespaces of a scope, apart from one. -/
def foreign (orders : Orders) (place : Option NamespaceRef) (s : Scope) : List NamespaceRef :=
  (orders.imports s).filter fun n => some n.id != place.map (·.id)

variable (orders orders' : Orders) (place : Option NamespaceRef) (s : Scope)

theorem mem_foreign {n : NamespaceRef} :
    n ∈ orders.foreign place s ↔ n ∈ s.imported ∧ some n.id ≠ place.map (·.id) := by
  simp [foreign, imports]

/-- Imported namespaces of one name cannot be told apart by their names. -/
theorem map_name_foreign : (orders.foreign place s).map (·.name) = (orders'.foreign place s).map (·.name) :=
  map_mergeSort_eq_of_perm _ (orders.spaces.run_perm_run orders'.spaces s.imported)

end Orders

/-! ### C# -/

namespace CSharp

/-- The text of a file whose maps are enumerated in given orders. -/
def finish (orders : Orders) (p : Policy) (place : Option NamespaceRef) (page : Page) : String :=
  let spaces := (orders.foreign place page.scope).map fun n => namespaceName p (some n)
  let usings := (orders.keys.run (page.needs ++ spaces).eraseDups).mergeSort fun a b => decide (a ≤ b)
  String.join <|
    ["// <auto-generated/>\n"] ++ usings.map (fun n => "using " ++ n ++ ";\n") ++
      ["namespace " ++ namespaceName p place ++ " \x7b\n", page.writer.text, "\x7d\n"]

theorem finish_kept (p : Policy) (place : Option NamespaceRef) (page : Page) :
    finish .kept p place page = fileText p place page := rfl

theorem finish_eq_finish (orders orders' : Orders) (p : Policy) (place : Option NamespaceRef) (page : Page) :
    finish orders p place page = finish orders' p place page := by
  unfold finish
  dsimp only
  rw [mergeSort_eraseDups_eq linearlyOrders_le (orders.keys.perm _) (orders'.keys.perm _)]
  intro x
  simp only [List.mem_append, List.mem_map, Orders.mem_foreign]

end CSharp

/-! ### TypeScript -/

namespace TypeScript

/-- The text of a file whose maps are enumerated in given orders. -/
def finish (orders : Orders) (p : Policy) (root : NamespaceRef) (path : String) (page : Page) : String :=
  let runtimeImport :=
    if page.needs.isEmpty then [] else [importText runtimeModule (orders.needs.run page.needs)]
  let imported := (orders.references.run page.references).map fun r =>
    (moduleOf p root path r.target, importedName p r)
  let modules := (orders.keys.run (imported.map (·.1)).eraseDups).mergeSort fun a b => decide (a ≤ b)
  let imports := runtimeImport ++ modules.map fun module =>
    importText module ((imported.filter (·.1 == module)).map (·.2))
  String.join (imports ++ (if imports.isEmpty then [] else ["\n"]) ++ [page.writer.text])

theorem finish_kept (p : Policy) (root : NamespaceRef) (path : String) (page : Page) :
    finish .kept p root path page = fileText p root path page := rfl

/-- The names from one module are sorted. -/
theorem importText_eq_of_perm (module : String) {xs ys : List String} (h : xs.Perm ys) :
    importText module xs = importText module ys := by
  unfold importText
  rw [mergeSort_eq_of_perm linearlyOrders_le h]

theorem finish_eq_finish (orders orders' : Orders) (p : Policy) (root : NamespaceRef) (path : String) (page : Page) :
    finish orders p root path page = finish orders' p root path page := by
  have himported := (orders.references.run_perm_run orders'.references page.references).map fun r =>
    (moduleOf p root path r.target, importedName p r)
  unfold finish
  dsimp only
  rw [importText_eq_of_perm runtimeModule (orders.needs.run_perm_run orders'.needs page.needs),
    mergeSort_eraseDups_eq linearlyOrders_le (orders.keys.perm _) (orders'.keys.perm _) fun x =>
      (himported.map _).mem_iff]
  simp only [fun module => importText_eq_of_perm module ((himported.filter (·.1 == module)).map (·.2))]

end TypeScript

/-! ### Go -/

namespace Go

section Finish

variable (orders orders' : Orders) (importPath : String) (root : NamespaceRef) (place : Option NamespaceRef)
  (page : Page)

/-- The imports of a page by path, as they are gathered. Of two with the same path the last counts. -/
def gathered : List (String × String) :=
  (orders.needs.run page.needs).map (fun path => (path, Text.quoted path)) ++
    (orders.foreign place page.scope).map (packageImport importPath root)

/-- The lines of the imports of a page, ordered by their paths. -/
def gatheredLines : List String :=
  let imports := gathered orders importPath root place page
  let paths := (orders.keys.run (imports.map (·.1)).eraseDups).mergeSort fun a b => decide (a ≤ b)
  paths.filterMap fun path => (imports.reverse.lookup path).map fun spec => "\t" ++ spec ++ "\n"

/-- The text of a file whose maps are enumerated in given orders. -/
def finish : String :=
  let imports := gatheredLines orders importPath root place page
  String.join <|
    ["// Code generated by apigen. DO NOT EDIT.\n\n",
      "package " ++ packageName ((place.map (·.name)).getD "") ++ "\n\n"] ++
      (if imports.isEmpty then [] else ["import (\n"] ++ imports ++ [")\n\n"]) ++ [page.writer.text]

theorem finish_kept : finish .kept importPath root place page = fileText importPath root place page := rfl

variable {importPath root place page}

/-- The directory of a namespace follows from its name, if the root is known under no other name. -/
theorem directory_eq_of_named {n : NamespaceRef} (h : n.id = root.id → n.name = root.name) :
    directory root (some n) =
      lower (replaceChar '.' "/" (dropFront (dropFront n.name root.name) ".")) := by
  unfold directory
  dsimp only
  split_ifs with hid
  · rw [h (by simpa using hid)]
    have hempty := dropFront_append root.name ""
    rw [String.append_empty] at hempty
    rw [hempty]
    decide +kernel
  · rfl

/-- The import of a namespace under another identity. -/
def importNamed (importPath : String) (root : NamespaceRef) (name : String) : String × String :=
  packageImport importPath root ⟨⟨root.id.index + 1⟩, name⟩

/-- The import of a namespace depends on its name alone. -/
theorem packageImport_eq_importNamed {n : NamespaceRef} (h : n.id = root.id → n.name = root.name) :
    packageImport importPath root n = importNamed importPath root n.name := by
  have hother : (⟨root.id.index + 1⟩ : NamespaceId) ≠ root.id := by
    intro heq
    have hindex := congrArg NamespaceId.index heq
    exact absurd hindex (by simp)
  have hdirectory : directory root (some n) = directory root (some ⟨⟨root.id.index + 1⟩, n.name⟩) := by
    rw [directory_eq_of_named h, directory_eq_of_named fun heq => absurd heq hother]
  have hpath : packagePath importPath root n = packagePath importPath root ⟨⟨root.id.index + 1⟩, n.name⟩ := by
    unfold packagePath
    rw [hdirectory]
  unfold importNamed packageImport
  rw [hpath]

/-- A table by name has the entry of every name in it. -/
theorem lookup_map_mk {f : String → String} (xs : List String) (x : String) :
    (xs.map fun x => (x, f x)).lookup x = if x ∈ xs then some (f x) else none := by
  induction xs with
  | nil => rfl
  | cons y xs ih =>
      by_cases hxy : x = y
      · simp [hxy]
      · have hother : (x == y) = false := by simpa using hxy
        simp [List.lookup_cons, hother, ih, hxy]

section Named

variable (hnamed : ∀ n ∈ page.scope.imported, n.id = root.id → n.name = root.name)

include hnamed

/-- Foreign imports come in the same order, since they are sorted by name. -/
theorem map_packageImport_foreign :
    (orders.foreign place page.scope).map (packageImport importPath root) =
      (orders'.foreign place page.scope).map (packageImport importPath root) := by
  have hmap : ∀ orders : Orders, (orders.foreign place page.scope).map (packageImport importPath root) =
      ((orders.foreign place page.scope).map (·.name)).map (importNamed importPath root) := by
    intro orders
    rw [List.map_map]
    refine List.map_congr_left fun n hn => ?_
    exact packageImport_eq_importNamed (hnamed n ((orders.mem_foreign place page.scope).mp hn).1)
  rw [hmap, hmap, orders.map_name_foreign orders']

theorem finish_eq_finish :
    finish orders importPath root place page = finish orders' importPath root place page := by
  have hforeign : (orders.foreign place page.scope).map (packageImport importPath root) =
      (orders'.foreign place page.scope).map (packageImport importPath root) :=
    map_packageImport_foreign orders orders' hnamed
  have hpaths : ∀ path, path ∈ (gathered orders importPath root place page).map (·.1) ↔
      path ∈ (gathered orders' importPath root place page).map (·.1) := by
    intro path
    simp [gathered, hforeign]
  have hlookup : ∀ path, (gathered orders importPath root place page).reverse.lookup path =
      (gathered orders' importPath root place page).reverse.lookup path := by
    intro path
    simp only [gathered, List.reverse_append, List.lookup_append, hforeign, ← List.map_reverse, lookup_map_mk,
      List.mem_reverse, Enumeration.mem_run]
  unfold finish gatheredLines
  dsimp only
  rw [mergeSort_eraseDups_eq linearlyOrders_le (orders.keys.perm _) (orders'.keys.perm _) hpaths]
  simp only [hlookup]

end Named

end Finish

end Go

/-! ### Files -/

/-- Whether no element has the root for a home under another name. -/
def RootNamed (g : Graph) : Prop :=
  ∀ d, g.Holds d → ∀ n, d.home = some n → n.id = g.root.id → n.name = g.root.name

/-- In the graph of a document namespaces are known under their names. -/
theorem rootNamed_of_graphOf {entry : Document.NamespaceEntry} {g : Graph}
    (h : Document.graphOf entry = .ok g) : RootNamed g := by
  intro d hd n hhome hid
  have hlinked := Document.linked_of_graphOf h
  obtain ⟨space, hspace, hhome', -⟩ := hlinked.home d hd
  rw [hhome, Option.some_inj] at hhome'
  have hroot : space = g.root :=
    List.inj_on_of_nodup_map hlinked.spaces hspace (Document.mem_all.mpr (.inl rfl)) (by rw [← hid, hhome']; rfl)
  rw [hhome', hroot]
  rfl

/-- What is imported in the end was so before or is the home of something that was named. -/
theorem home_of_mem_imported_foldl {p : Policy} {place : Option NamespaceId} {s : Scope} {namings : List Naming}
    {n : NamespaceRef} (h : n ∈ (namings.foldl (fun scope m => (scope.name p place m.target).2) s).imported) :
    n ∈ s.imported ∨ ∃ m ∈ namings, m.target.home = some n := by
  induction namings generalizing s with
  | nil => exact .inl h
  | cons first namings ih =>
      rcases ih h with h | ⟨m, hm, hhome⟩
      · rcases home_of_mem_imported h with h | hhome
        · exact .inl h
        · exact .inr ⟨first, List.mem_cons_self, hhome⟩
      · exact .inr ⟨m, List.mem_cons_of_mem _ hm, hhome⟩

section Files

variable {e : Engine} (orders : Orders) (importPath : String) (d : Definition)

/-- The files of Go clients import the root under its name. -/
theorem named_of_mem_imported (hnamed : RootNamed e.context.graph) (he : e.IsStandard) {n : NamespaceRef}
    (h : n ∈ (pageOf (.go importPath) e d).2.scope.imported) (hid : n.id = e.context.graph.root.id) :
    n.name = e.context.graph.root.name := by
  rw [pageOf, scope_follow] at h
  obtain ⟨m, hm, hhome⟩ := (home_of_mem_imported_foldl h).resolve_left (by simp [startPage])
  exact hnamed m.target (holds_of_mem_namings (Go.asks_scriptOf he) hm) n hhome hid

/-- The text that the file of an element is finished with, if its maps are enumerated in given orders. -/
def finish (orders : Orders) (importPath : String) (format : Formatter) (l : Language) (e : Engine) (d : Definition) :
    String :=
  let page := (pageOf (.forLanguage importPath format l) e d).2
  let root := e.context.graph.root.ref
  match l with
  | .csharp | .cli => CSharp.finish orders e.context.policy d.home page
  | .typescript => TypeScript.finish orders e.context.policy root (unitPath e.context.policy root d) page
  | .go => Go.finish orders importPath root d.home page

/-- Whatever the orders are in which its maps are enumerated, a file is finished with the same text. In Go that is what
is formatted. -/
theorem finish_eq_content (hnamed : RootNamed e.context.graph) (he : e.IsStandard) (format : Formatter)
    (l : Language) :
    finish orders importPath format l e d =
      (fileOf (.forLanguage importPath format l) e d (pageOf (.forLanguage importPath format l) e d).2).content := by
  have hroot : ∀ n ∈ (pageOf (.go importPath) e d).2.scope.imported, n.id = e.context.graph.root.ref.id →
      n.name = e.context.graph.root.ref.name := fun n hn hid => named_of_mem_imported importPath d hnamed he hn hid
  cases l with
  | csharp => exact (CSharp.finish_eq_finish orders .kept _ _ _).trans (CSharp.finish_kept _ _ _)
  | cli => exact (CSharp.finish_eq_finish orders .kept _ _ _).trans (CSharp.finish_kept _ _ _)
  | typescript => exact (TypeScript.finish_eq_finish orders .kept _ _ _ _).trans (TypeScript.finish_kept _ _ _ _)
  -- the page is the same with every formatter
  | go => exact (Go.finish_eq_finish orders .kept hroot).trans (Go.finish_kept _ _ _ _)

end Files

namespace TwinSample

def holder : ClassDef :=
  { id := ⟨0⟩, name := "Holder", home := some ⟨⟨0⟩, "Sdk"⟩
    properties :=
      [{ name := "First", type := some (.scalar { name := "User", definition := some (.ofClass ⟨1⟩) })
         parent := some ⟨0⟩ },
        { name := "Second", type := some (.scalar { name := "User", definition := some (.ofClass ⟨2⟩) })
          parent := some ⟨0⟩ }] }

def first : ClassDef := { id := ⟨1⟩, name := "User", home := some ⟨⟨1⟩, "Sdk.models"⟩ }

def second : ClassDef := { id := ⟨2⟩, name := "User", home := some ⟨⟨2⟩, "Sdk.models"⟩ }

/-- Two namespaces of one name, with a class of one name each. -/
def graph : Graph :=
  { root :=
      { id := ⟨0⟩, name := "Sdk", classes := [⟨0⟩]
        children :=
          [{ id := ⟨1⟩, name := "Sdk.models", parent := some ⟨0⟩, classes := [⟨1⟩] },
            { id := ⟨2⟩, name := "Sdk.models", parent := some ⟨0⟩, classes := [⟨2⟩] }] }
    classes := #[holder, first, second], enums := #[] }

def engine (l : Language) : Engine := { context := ⟨graph, l.policy, {}⟩, handlers := defaultHandlers }

theorem rootNamed_graph : RootNamed graph := by
  rintro d ⟨id, hid⟩ n hhome hroot
  cases id with
  | ofClass id =>
      obtain ⟨c, hc, rfl⟩ := Option.map_eq_some_iff.mp hid
      have hmem : c ∈ [holder, first, second] := Array.mem_toList_iff.mpr (Array.mem_of_getElem? hc)
      simp only [List.mem_cons, List.not_mem_nil, or_false] at hmem
      rcases hmem with rfl | rfl | rfl <;> cases hhome
      · rfl
      · exact absurd hroot (by decide)
      · exact absurd hroot (by decide)
  | ofEnum id => simp [Graph.definition?, Graph.enum?, graph] at hid

/-- All orders the other way round. -/
def reversed : Orders := ⟨.backward, .backward, .forward, .backward⟩

end TwinSample

open TwinSample

/-- The holder imports two namespaces of one name in Go, and two classes of one module in TypeScript. -/
theorem twins_in_any_order :
    ((pageOf (.go "") (engine .go) (.ofClass holder)).2.scope.imported =
        [⟨⟨2⟩, "Sdk.models"⟩, ⟨⟨1⟩, "Sdk.models"⟩] ∧
      unitPath typescriptPolicy graph.root.ref (.ofClass first) =
        unitPath typescriptPolicy graph.root.ref (.ofClass second)) ∧
      finish reversed "" asWritten .go (engine .go) (.ofClass holder) =
        (fileOf (.forLanguage "" asWritten .go) (engine .go) (.ofClass holder)
          (pageOf (.forLanguage "" asWritten .go) (engine .go) (.ofClass holder)).2).content ∧
      finish reversed "" asWritten .typescript (engine .typescript) (.ofClass holder) =
        (fileOf (.forLanguage "" asWritten .typescript) (engine .typescript) (.ofClass holder)
          (pageOf (.forLanguage "" asWritten .typescript) (engine .typescript) (.ofClass holder)).2).content :=
  ⟨by decide +kernel, finish_eq_content reversed "" (.ofClass holder) rootNamed_graph (.inl rfl) asWritten .go,
    finish_eq_content reversed "" (.ofClass holder) rootNamed_graph (.inl rfl) asWritten .typescript⟩

end ClientForge.Render
