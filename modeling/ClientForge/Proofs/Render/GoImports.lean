import ClientForge.Proofs.Document.Homes
import ClientForge.Proofs.Render.CSharpQualified
import ClientForge.Proofs.Render.GoAsking
import ClientForge.Proofs.Text.Lower
import ClientForge.Proofs.Text.Pieces
import ClientForge.Proofs.Text.Sorted

/-!
# Package names in Go files

A Go file imports packages of the runtime and the packages of other namespaces, and it knows each of them by
one name. Names of the runtime are fixed; that of a namespace is the last part of its name, in lower case and
without dashes and underscores. Paths are longer than names, so packages with different paths can meet under one
name in a file.

* **`cases_of_mem_kept`.** Of the imports with one path the last is written, and imports of namespaces come
  after those of the runtime.
* **`packages_told_apart_iff`.** The packages of a file have names of their own, and elements of different
  namespaces have qualifiers of their own, exactly if no two of the namespaces have the same package name and
  none of them has the name of a package of the runtime that the file imports.
-/

namespace ClientForge.Render.Go

open ClientForge.Graph ClientForge.Plan ClientForge.Convention

/-! ### Written imports -/

section Kept

variable {imports : List (String × String)} {i : String × String}

/-- The imports that are written, each with its path. -/
def kept (imports : List (String × String)) : List (String × String) :=
  ((imports.map (·.1)).eraseDups.mergeSort fun a b => decide (a ≤ b)).filterMap fun path =>
    (imports.reverse.lookup path).map (path, ·)

theorem importLines_eq (imports : List (String × String)) :
    importLines imports = (kept imports).map fun i => "\t" ++ i.2 ++ "\n" := by
  simp [importLines, kept, List.map_filterMap, Function.comp_def]

theorem mem_kept : i ∈ kept imports ↔ imports.reverse.lookup i.1 = some i.2 := by
  simp only [kept, List.mem_filterMap, List.mem_mergeSort, List.mem_eraseDups, Option.map_eq_some_iff]
  constructor
  · rintro ⟨path, -, spec, hspec, rfl⟩
    exact hspec
  · intro h
    have hmem : i ∈ imports := by
      obtain ⟨front, back, heq, -⟩ := List.lookup_eq_some_iff.mp h
      exact List.mem_reverse.mp (by simp [heq])
    exact ⟨i.1, List.mem_map_of_mem hmem, i.2, h, rfl⟩

theorem nodup_kept (imports : List (String × String)) : (kept imports).Nodup := by
  refine List.Nodup.filterMap ?_ ((List.mergeSort_perm _ _).nodup_iff.mpr (Text.nodup_eraseDups _))
  intro path path' i hi hi'
  obtain ⟨_, -, rfl⟩ := Option.map_eq_some_iff.mp hi
  obtain ⟨_, -, heq⟩ := Option.map_eq_some_iff.mp hi'
  exact (congrArg Prod.fst heq).symm

end Kept

/-! ### The name that an import binds -/

/-- The name by which a package is known where its import spells out none. -/
def packageClause (path : String) : String := (runtimePackages.lookup path).getD (Text.Path.base path)

/-- The name that an import binds: the one it spells out in front of the path, or else that of the package. -/
def boundName (i : String × String) : String :=
  if i.2 = Text.quoted i.1 then packageClause i.1 else Text.dropBack i.2 (" " ++ Text.quoted i.1)

/-- Packages of the runtime are called by the last parts of their paths, unless there is a dash in it. -/
theorem runtimePackages_base :
    ∀ r ∈ runtimePackages, r.2 = Text.Path.base r.1 ∨ '-' ∈ (Text.Path.base r.1).toList := by decide +kernel

/-- No two packages of the runtime have the same name. -/
theorem packageClause_injective :
    ∀ r ∈ runtimePackages.map (·.1), ∀ r' ∈ runtimePackages.map (·.1),
      packageClause r = packageClause r' → r = r' := by decide +kernel

theorem dash_notMem_packageName (space : String) : '-' ∉ (packageName space).toList := by
  unfold packageName
  dsimp only
  rw [Text.mem_lower_iff (by decide)]
  simp

/-- A package whose folder is called as it is needs no other name. -/
theorem packageClause_of_eq_base {path space : String} (h : packageName space = Text.Path.base path) :
    packageClause path = packageName space := by
  unfold packageClause
  cases hlookup : runtimePackages.lookup path with
  | none => exact h.symm
  | some name =>
      obtain ⟨front, back, heq, -⟩ := List.lookup_eq_some_iff.mp hlookup
      rcases runtimePackages_base (path, name) (by simp [heq]) with hname | hdash
      · exact hname.trans h.symm
      · exact absurd (h ▸ hdash) (dash_notMem_packageName space)

/-- The import of a namespace binds the name of its package. -/
theorem boundName_packageImport (importPath : String) (root space : NamespaceRef) :
    boundName (packageImport importPath root space) = packageName space.name := by
  unfold packageImport
  dsimp only
  split
  · next hbase =>
    rw [boundName, if_pos rfl]
    exact packageClause_of_eq_base (by simpa using hbase)
  · have hspec : packageName space.name ++ " " ++ Text.quoted (packagePath importPath root space) ≠
        Text.quoted (packagePath importPath root space) := by
      intro h
      have hlength := congrArg String.length h
      simp only [String.length_append] at hlength
      have : " ".length = 1 := rfl
      omega
    rw [boundName, if_neg hspec, String.append_assoc, Text.dropBack_append]

/-! ### The imports of a page -/

section Pages

variable (importPath : String) (root : NamespaceRef) (place : Option NamespaceRef) (page : Page)

/-- The namespaces that a page imports. -/
def foreignImports : List NamespaceRef := page.scope.imports.filter fun n => some n.id != place.map (·.id)

variable {importPath root place page}

/-- An import of a namespace goes before one that the runtime needs under the same path. -/
theorem lookup_pageImports (path : String) :
    (pageImports importPath root place page).reverse.lookup path =
      (((foreignImports place page).map (packageImport importPath root)).reverse.lookup path).or
        ((page.needs.map fun path => (path, Text.quoted path)).reverse.lookup path) := by
  simp only [pageImports, foreignImports, List.reverse_append, List.lookup_append]

/-- Paths of no foreign namespace are left to the runtime. -/
theorem lookup_foreign_eq_none {path : String}
    (h : ∀ space ∈ foreignImports place page, packagePath importPath root space ≠ path) :
    ((foreignImports place page).map (packageImport importPath root)).reverse.lookup path = none := by
  rw [List.lookup_eq_none_iff]
  intro i hi
  obtain ⟨space, hspace, rfl⟩ := List.mem_map.mp (List.mem_reverse.mp hi)
  simpa [packageImport] using (h space hspace).symm

/-- What is written comes from a namespace, or from the runtime if no namespace has its path. -/
theorem cases_of_mem_kept {i : String × String} (h : i ∈ kept (pageImports importPath root place page)) :
    (∃ space ∈ foreignImports place page, packageImport importPath root space = i) ∨
      ((∀ space ∈ foreignImports place page, packagePath importPath root space ≠ i.1) ∧ i.1 ∈ page.needs ∧
        i.2 = Text.quoted i.1) := by
  rw [mem_kept, lookup_pageImports, Option.or_eq_some_iff] at h
  rcases h with h | ⟨hnone, h⟩
  · obtain ⟨front, back, heq, -⟩ := List.lookup_eq_some_iff.mp h
    have hmem : i ∈ ((foreignImports place page).map (packageImport importPath root)).reverse := by simp [heq]
    exact .inl (List.mem_map.mp (List.mem_reverse.mp hmem))
  · obtain ⟨front, back, heq, -⟩ := List.lookup_eq_some_iff.mp h
    have hmem : i ∈ (page.needs.map fun path => (path, Text.quoted path)).reverse := by simp [heq]
    obtain ⟨path, hpath, rfl⟩ := List.mem_map.mp (List.mem_reverse.mp hmem)
    refine .inr ⟨fun space hspace hsame => ?_, hpath, rfl⟩
    have hother := List.lookup_eq_none_iff.mp hnone (packageImport importPath root space)
      (List.mem_reverse.mpr (List.mem_map_of_mem hspace))
    simp [packageImport, hsame] at hother

/-- What the runtime needs is imported, unless a namespace has its path. -/
theorem need_mem_kept {path : String} (hpath : path ∈ page.needs)
    (hfree : ∀ space ∈ foreignImports place page, packagePath importPath root space ≠ path) :
    (path, Text.quoted path) ∈ kept (pageImports importPath root place page) := by
  rw [mem_kept, lookup_pageImports, lookup_foreign_eq_none hfree, Option.none_or]
  obtain ⟨spec, hspec⟩ : ∃ spec,
      (page.needs.map fun path => (path, Text.quoted path)).reverse.lookup path = some spec := by
    rw [← Option.isSome_iff_exists, List.lookup_isSome_iff]
    exact ⟨(path, Text.quoted path), by simpa using hpath, by simp⟩
  obtain ⟨front, back, heq, -⟩ := List.lookup_eq_some_iff.mp hspec
  have hmem : (path, spec) ∈ (page.needs.map fun path => (path, Text.quoted path)).reverse := by simp [heq]
  obtain ⟨path', -, hsame⟩ := List.mem_map.mp (List.mem_reverse.mp hmem)
  cases hsame
  exact hspec

end Pages

/-! ### Imported namespaces -/

section Imported

variable {p : Policy} {place : Option NamespaceId} {s : Scope}

/-- Where identities are unique, importing a namespace adds that one. -/
theorem mem_imported_addImport {space f : NamespaceRef}
    (hext : ∀ other ∈ s.imported, other.id = space.id → other = space) :
    f ∈ (s.addImport space).imported ↔ f ∈ s.imported ∨ f = space := by
  unfold Scope.addImport
  split
  · next hany =>
    obtain ⟨other, hother, hid⟩ := List.any_eq_true.mp hany
    have hmem : space ∈ s.imported := hext other hother (by simpa using hid) ▸ hother
    exact ⟨.inl, fun h => h.elim id (· ▸ hmem)⟩
  · simp [or_comm]

/-- Where every foreign name is qualified, naming an element imports its home and nothing else. -/
theorem mem_imported_name (hforeign : p.qualifiesForeign = true) {d : Definition} {f : NamespaceRef}
    (hext : ∀ space, Scope.foreignHome place d = some space → ∀ other ∈ s.imported, other.id = space.id →
      other = space) :
    f ∈ (s.name p place d).2.imported ↔ f ∈ s.imported ∨ Scope.foreignHome place d = some f := by
  cases hhome : Scope.foreignHome place d with
  | some space =>
      have hname : (s.name p place d).2 = s.addImport space := by simp [Scope.name, hhome, hforeign]
      rw [hname, mem_imported_addImport (hext space hhome), Option.some_inj, eq_comm (a := f)]
  | none =>
      have hname : (s.name p place d).2.imported = s.imported := by
        unfold Scope.name
        simp only [hhome]
        split
        · rfl
        · split
          · rfl
          · split <;> rfl
      simp [hname]

/-- The namespaces that names have made a scope import are the foreign homes of the elements. Here a home is
known by its identity. -/
theorem mem_imported_foldl (hforeign : p.qualifiesForeign = true) {IsHome : NamespaceRef → Prop}
    (hext : ∀ a b, IsHome a → IsHome b → a.id = b.id → a = b) {namings : List Naming} {f : NamespaceRef}
    (hnamings : ∀ n ∈ namings, ∀ space, Scope.foreignHome place n.target = some space → IsHome space)
    (hs : ∀ space ∈ s.imported, IsHome space) :
    f ∈ (namings.foldl (fun scope n => (scope.name p place n.target).2) s).imported ↔
      f ∈ s.imported ∨ ∃ n ∈ namings, Scope.foreignHome place n.target = some f := by
  induction namings generalizing s with
  | nil => simp
  | cons n rest ih =>
      have hname : ∀ space, space ∈ (s.name p place n.target).2.imported ↔
          space ∈ s.imported ∨ Scope.foreignHome place n.target = some space := fun _ =>
        mem_imported_name hforeign fun space hspace other hother hid =>
          hext other space (hs other hother) (hnamings n (.head _) space hspace) hid
      have hnext : ∀ space ∈ (s.name p place n.target).2.imported, IsHome space := fun space hspace =>
        ((hname space).mp hspace).elim (hs space) (hnamings n (.head _) space)
      rw [List.foldl_cons, ih (fun m hm => hnamings m (.tail _ hm)) hnext, hname]
      simp [or_assoc]

end Imported

/-! ### Files -/

/-- The part of a name in front of its last dot. -/
def qualifier (n : Naming) : Option String := (Text.splitLast '.' n.spelling).1

section Files

variable (importPath : String) (e : Engine) (d : Definition)

/-- The homes, other than its own, of the elements that a file refers to. -/
def foreignHomes : List NamespaceRef :=
  (namingsOf (.go importPath) e d).filterMap fun n => Scope.foreignHome (d.home.map (·.id)) n.target

/-- What a file imports, by path. -/
def importsOf : List (String × String) :=
  pageImports importPath e.context.graph.root.ref d.home (pageOf (.go importPath) e d).2

/-- The packages of the runtime that a file needs. -/
def needsOf : List String := (pageOf (.go importPath) e d).2.needs

variable {importPath e d}

/-- What is at home elsewhere is qualified with the name of its package. -/
theorem qualifier_of_foreign {n : Naming} {f : NamespaceRef} (hpolicy : e.context.policy = goPolicy)
    (hn : n ∈ namingsOf (.go importPath) e d)
    (hf : Scope.foreignHome (d.home.map (·.id)) n.target = some f) :
    qualifier n = some (packageName f.name) := by
  have hspelling : n.spelling = packageName f.name ++ "." ++ goPolicy.typeName n.target.name := by
    rw [spelling_of_mem_namings hn, hpolicy]
    simp only [Scope.name, hf]
    rfl
  rw [qualifier, hspelling]
  exact congrArg Prod.fst (Text.splitLast_append (dot_notMem_identifier _))

theorem asks_scriptOf (he : e.IsStandard) :
    (scriptOf (.go importPath) e d).Asks e e.context.graph IsRuntime := by
  cases d with
  | ofClass c => exact asks_classScript he c
  | ofEnum x => exact asks_enumScript e.context x e.context.graph

theorem isRuntime_of_needed (he : e.IsStandard) {path : String} (h : path ∈ needsOf importPath e d) :
    IsRuntime path :=
  needed_of_mem_needs (asks_scriptOf he) (by simp [startPage]) h

/-- A page imports the homes of what it names elsewhere, and no others. -/
theorem mem_foreignImports (hhoused : e.context.graph.Housed) (hpolicy : e.context.policy = goPolicy)
    (he : e.IsStandard) {f : NamespaceRef} :
    f ∈ foreignImports d.home (pageOf (.go importPath) e d).2 ↔ f ∈ foreignHomes importPath e d := by
  have hheld : ∀ n ∈ namingsOf (.go importPath) e d, e.context.graph.Holds n.target := fun n hn =>
    holds_of_mem_namings (asks_scriptOf he) hn
  have hext : ∀ a b : NamespaceRef, (∃ d, e.context.graph.Holds d ∧ d.home = some a) →
      (∃ d, e.context.graph.Holds d ∧ d.home = some b) → a.id = b.id → a = b := by
    rintro a b ⟨d₁, hd₁, ha⟩ ⟨d₂, hd₂, hb⟩ hid
    exact hhoused.home_ext d₁ d₂ a b hd₁ hd₂ ha hb hid
  have hforeign : e.context.policy.qualifiesForeign = true := by
    rw [hpolicy]
    rfl
  have himported : f ∈ (pageOf (.go importPath) e d).2.scope.imported ↔ f ∈ foreignHomes importPath e d := by
    rw [pageOf, scope_follow, mem_imported_foldl hforeign hext]
    · simp [startPage, foreignHomes, namingsOf]
    · exact fun n hn space hspace => ⟨n.target, hheld n hn, (foreignHome_eq_some_iff.mp hspace).1⟩
    · simp [startPage]
  simp only [foreignImports, Scope.imports, List.mem_filter, List.mem_mergeSort, List.mem_reverse, himported]
  refine and_iff_left_of_imp fun hf => ?_
  obtain ⟨n, -, hf⟩ := List.mem_filterMap.mp hf
  simpa using (foreignHome_eq_some_iff.mp hf).2

/-- The names that the imports of a file bind are distinct, given that those of its namespaces are: what remains
is that no written import of a namespace has the name of a package of the runtime. -/
theorem nodup_boundNames_iff (hhoused : e.context.graph.Housed) (hpolicy : e.context.policy = goPolicy)
    (he : e.IsStandard)
    (hnames : ∀ f₁ ∈ foreignHomes importPath e d, ∀ f₂ ∈ foreignHomes importPath e d,
      packageName f₁.name = packageName f₂.name → f₁ = f₂) :
    ((kept (importsOf importPath e d)).map boundName).Nodup ↔
      ∀ path ∈ needsOf importPath e d,
        (∀ f ∈ foreignHomes importPath e d, packagePath importPath e.context.graph.root.ref f ≠ path) →
        ∀ f ∈ foreignHomes importPath e d,
          packageImport importPath e.context.graph.root.ref f ∈ kept (importsOf importPath e d) →
          packageName f.name ≠ packageClause path := by
  have hforeign : ∀ f, f ∈ foreignImports d.home (pageOf (.go importPath) e d).2 ↔
      f ∈ foreignHomes importPath e d := fun f => mem_foreignImports hhoused hpolicy he
  have hneeded : ∀ i : String × String, i.2 = Text.quoted i.1 → boundName i = packageClause i.1 := fun i hi =>
    if_pos hi
  rw [List.nodup_map_iff_inj_on (nodup_kept _)]
  constructor
  · intro hinj path hpath hfree f hf hkept hsame
    have hneed : (path, Text.quoted path) ∈ kept (importsOf importPath e d) :=
      need_mem_kept hpath fun space hspace => hfree space ((hforeign space).mp hspace)
    have heq := hinj _ hkept _ hneed (by rw [boundName_packageImport, hsame, hneeded _ rfl])
    exact hfree f hf (congrArg Prod.fst heq)
  · intro hclear i hi j hj hsame
    rcases cases_of_mem_kept hi with ⟨f, hf, rfl⟩ | ⟨hfree, hneed, hspec⟩
    · rcases cases_of_mem_kept hj with ⟨f', hf', rfl⟩ | ⟨hfree, hneed, hspec⟩
      · rw [boundName_packageImport, boundName_packageImport] at hsame
        rw [hnames f ((hforeign f).mp hf) f' ((hforeign f').mp hf') hsame]
      · rw [boundName_packageImport, hneeded j hspec] at hsame
        exact absurd hsame (hclear j.1 hneed (fun g hg => hfree g ((hforeign g).mpr hg)) f ((hforeign f).mp hf) hi)
    · rcases cases_of_mem_kept hj with ⟨f, hf, rfl⟩ | ⟨-, hneed', hspec'⟩
      · rw [boundName_packageImport, hneeded i hspec] at hsame
        exact absurd hsame.symm
          (hclear i.1 hneed (fun g hg => hfree g ((hforeign g).mpr hg)) f ((hforeign f).mp hf) hj)
      · rw [hneeded i hspec, hneeded j hspec'] at hsame
        have hpath : i.1 = j.1 :=
          packageClause_injective _ (isRuntime_of_needed he hneed) _ (isRuntime_of_needed he hneed') hsame
        exact Prod.ext hpath (by rw [hspec, hspec', hpath])

variable (importPath e d) in
/-- Whether elements of different namespaces, other than that of the file, have different qualifiers in it. -/
def QualifiersApart : Prop :=
  ∀ n₁ ∈ namingsOf (.go importPath) e d, ∀ n₂ ∈ namingsOf (.go importPath) e d, ∀ f₁ f₂,
    Scope.foreignHome (d.home.map (·.id)) n₁.target = some f₁ →
    Scope.foreignHome (d.home.map (·.id)) n₂.target = some f₂ →
    f₁.id ≠ f₂.id → qualifier n₁ ≠ qualifier n₂

/-- Qualifiers are unambiguous exactly if the packages of foreign homes have different names. -/
theorem qualifiersApart_iff (hpolicy : e.context.policy = goPolicy) :
    QualifiersApart importPath e d ↔
      ∀ f₁ ∈ foreignHomes importPath e d, ∀ f₂ ∈ foreignHomes importPath e d, f₁.id ≠ f₂.id →
        packageName f₁.name ≠ packageName f₂.name := by
  constructor
  · intro h f₁ hf₁ f₂ hf₂ hne hsame
    obtain ⟨n₁, hn₁, hf₁⟩ := List.mem_filterMap.mp hf₁
    obtain ⟨n₂, hn₂, hf₂⟩ := List.mem_filterMap.mp hf₂
    refine h n₁ hn₁ n₂ hn₂ f₁ f₂ hf₁ hf₂ hne ?_
    rw [qualifier_of_foreign hpolicy hn₁ hf₁, qualifier_of_foreign hpolicy hn₂ hf₂, hsame]
  · intro h n₁ hn₁ n₂ hn₂ f₁ f₂ hf₁ hf₂ hne hsame
    rw [qualifier_of_foreign hpolicy hn₁ hf₁, qualifier_of_foreign hpolicy hn₂ hf₂, Option.some_inj] at hsame
    exact h f₁ (List.mem_filterMap.mpr ⟨n₁, hn₁, hf₁⟩) f₂ (List.mem_filterMap.mpr ⟨n₂, hn₂, hf₂⟩) hne hsame

/-- In a file of a Go client the written imports bind names of their own, and elements of different namespaces
have qualifiers of their own, exactly if two things hold: different namespaces that the file refers to have
different package names, and where the file imports a package of the runtime, no namespace that it imports has
the name of that package. The first fails whenever two of the namespaces end in the same part. -/
theorem packages_told_apart_iff {entry : Document.NamespaceEntry}
    (hgraph : Document.graphOf entry = .ok e.context.graph) (hpolicy : e.context.policy = goPolicy)
    (he : e.IsStandard) :
    importLines (importsOf importPath e d) =
        (kept (importsOf importPath e d)).map (fun i => "\t" ++ i.2 ++ "\n") ∧
      (((kept (importsOf importPath e d)).map boundName).Nodup ∧ QualifiersApart importPath e d ↔
        (∀ f₁ ∈ foreignHomes importPath e d, ∀ f₂ ∈ foreignHomes importPath e d, f₁.id ≠ f₂.id →
            packageName f₁.name ≠ packageName f₂.name) ∧
          ∀ path ∈ needsOf importPath e d,
            (∀ f ∈ foreignHomes importPath e d, packagePath importPath e.context.graph.root.ref f ≠ path) →
            ∀ f ∈ foreignHomes importPath e d,
              packageImport importPath e.context.graph.root.ref f ∈ kept (importsOf importPath e d) →
              packageName f.name ≠ packageClause path) := by
  refine ⟨importLines_eq _, ?_⟩
  have hhoused := Document.housed_of_graphOf hgraph
  have hheld : ∀ n ∈ namingsOf (.go importPath) e d, e.context.graph.Holds n.target := fun n hn =>
    holds_of_mem_namings (asks_scriptOf he) hn
  rw [qualifiersApart_iff hpolicy, and_comm]
  refine and_congr_right fun hnames => nodup_boundNames_iff hhoused hpolicy he ?_
  intro f₁ hf₁ f₂ hf₂ hsame
  have hid : f₁.id = f₂.id := by
    by_contra hne
    exact hnames f₁ hf₁ f₂ hf₂ hne hsame
  obtain ⟨n₁, hn₁, hf₁⟩ := List.mem_filterMap.mp hf₁
  obtain ⟨n₂, hn₂, hf₂⟩ := List.mem_filterMap.mp hf₂
  exact hhoused.home_ext _ _ f₁ f₂ (hheld n₁ hn₁) (hheld n₂ hn₂) (foreignHome_eq_some_iff.mp hf₁).1
    (foreignHome_eq_some_iff.mp hf₂).1 hid

end Files

namespace PackageSample

def holderEntry : Document.ClassEntry :=
  { name := "Holder"
    properties :=
      [{ name := "User", type := { name := "Sdk.a.models.User" } },
        { name := "Group", type := { name := "Sdk.b.models.Group" } }] }

def keeperEntry : Document.ClassEntry :=
  { name := "Keeper"
    properties :=
      [{ name := "User", type := { name := "Sdk.a.models.User" } }, { name := "Key", type := { name := "guid" } }] }

/-- A document with two namespaces that end in the same part. One class refers to both, one to the first and to
a package of the runtime. -/
def entry : Document.NamespaceEntry :=
  { name := "Sdk"
    classes := [holderEntry, keeperEntry]
    namespaces :=
      [{ name := "a", namespaces := [{ name := "models", classes := [{ name := "User" }] }] },
        { name := "b", namespaces := [{ name := "models", classes := [{ name := "Group" }] }] }] }

def users : NamespaceRef := ⟨⟨2⟩, "Sdk.a.models"⟩

def groups : NamespaceRef := ⟨⟨4⟩, "Sdk.b.models"⟩

def user : ClassDef := { id := ⟨2⟩, name := "User", home := some users }

def group : ClassDef := { id := ⟨3⟩, name := "Group", home := some groups }

/-- A property of a class with the type of another. -/
def property (owner : Nat) (name : String) (place : Nat) : Property :=
  { name, type := some (.scalar { name, definition := some (.ofClass ⟨place⟩) }), parent := some ⟨owner⟩ }

def holder : ClassDef :=
  { id := ⟨0⟩, name := "Holder", home := some ⟨⟨0⟩, "Sdk"⟩
    properties := [property 0 "User" 2, property 0 "Group" 3] }

def keeper : ClassDef :=
  { id := ⟨1⟩, name := "Keeper", home := some ⟨⟨0⟩, "Sdk"⟩
    properties :=
      [property 1 "User" 2, { name := "Key", type := some (.scalar { name := "guid" }), parent := some ⟨1⟩ }] }

def graph : Graph :=
  { root :=
      { id := ⟨0⟩, name := "Sdk", classes := [⟨0⟩, ⟨1⟩]
        children :=
          [{ id := ⟨1⟩, name := "Sdk.a", parent := some ⟨0⟩
             children := [{ id := ⟨2⟩, name := "Sdk.a.models", parent := some ⟨1⟩, classes := [⟨2⟩] }] },
            { id := ⟨3⟩, name := "Sdk.b", parent := some ⟨0⟩
              children := [{ id := ⟨4⟩, name := "Sdk.b.models", parent := some ⟨3⟩, classes := [⟨3⟩] }] }] }
    classes := #[holder, keeper, user, group], enums := #[] }

def engine : Engine := { context := ⟨graph, goPolicy, {}⟩, handlers := defaultHandlers }

/-- What is declared in the document. -/
def declared : Document.Declared :=
  { classes :=
      #[⟨⟨⟨0⟩, "Sdk"⟩, holderEntry⟩, ⟨⟨⟨0⟩, "Sdk"⟩, keeperEntry⟩, ⟨users, { name := "User" }⟩,
        ⟨groups, { name := "Group" }⟩]
    all :=
      [⟨.ofClass ⟨3⟩, groups, "Group"⟩, ⟨.ofClass ⟨2⟩, users, "User"⟩, ⟨.ofClass ⟨1⟩, ⟨⟨0⟩, "Sdk"⟩, "Keeper"⟩,
        ⟨.ofClass ⟨0⟩, ⟨⟨0⟩, "Sdk"⟩, "Holder"⟩]
    nextNamespace := 5 }

theorem declare_entry :
    (Document.declare entry { id := ⟨0⟩, name := "Sdk" }).run {} = (graph.root, declared) := by
  rfl

-- The classes are read one by one: evaluating the whole document in one step takes far more memory.
theorem graphOf_entry : Document.graphOf entry = .ok engine.context.graph := by
  refine Document.graphOf_eq_ok_iff.mpr ⟨by decide, _, _, declare_entry, [holder, keeper, user, group], ?_, rfl⟩
  exact mapM_eq_ok.mpr (.cons rfl (.cons rfl (.cons rfl (.cons rfl .nil))))

/-- What the classes of the sample ask for. -/
theorem asked_by_sample :
    foreignHomes "" engine (.ofClass holder) = [users, groups] ∧ foreignHomes "" engine (.ofClass keeper) = [users] ∧
      needsOf "" engine (.ofClass keeper) = [uuidPath] := by
  decide +kernel

end PackageSample

open PackageSample

/-- One class refers to two packages by the name `models`. The other refers to one of them only, and to a package
of the runtime with a name of its own. -/
theorem keeper_tells_packages_apart_and_holder_does_not :
    (((kept (importsOf "" engine (.ofClass keeper))).map boundName).Nodup ∧
      QualifiersApart "" engine (.ofClass keeper)) ∧
    ¬ (((kept (importsOf "" engine (.ofClass holder))).map boundName).Nodup ∧
      QualifiersApart "" engine (.ofClass holder)) := by
  obtain ⟨hholder, hkeeper, hneeds⟩ := asked_by_sample
  refine ⟨(packages_told_apart_iff graphOf_entry rfl (.inl rfl)).2.mpr ⟨?_, ?_⟩, fun h => ?_⟩
  · rw [hkeeper]
    decide +kernel
  · rw [hkeeper, hneeds]
    intro path hpath _ f hf _
    rw [List.mem_singleton.mp hpath, List.mem_singleton.mp hf]
    decide +kernel
  · have hnames := ((packages_told_apart_iff graphOf_entry rfl (.inl rfl)).2.mp h).1
    rw [hholder] at hnames
    exact hnames users (by simp) groups (by simp) (by decide) (by decide +kernel)

end ClientForge.Render.Go
