import ClientForge.Proofs.Document.Linked
import ClientForge.Proofs.Document.Reordering
import ClientForge.Proofs.Text.Pieces
import Mathlib.Data.List.Dedup
import Mathlib.Data.List.Nodup

/-!
# Paths of namespaces

A namespace of a document stands at a path: the names of the namespaces around it, and its own. Those at one path become
one namespace of the graph, and its name is the path with dots between the parts.

* **`mem_paths_declare`.** Declaring an entry adds its paths to those of a namespace.
* `nodup_paths`, `map_name_all`: a tree has each of its paths once, and its names are the dotted paths.
* **`names_identify_namespaces_iff`.** So names tell the namespaces of a decoded graph apart if and only if no two paths
  of the document read the same with dots. Names with dots of their own can make them read the same.
-/

namespace ClientForge

/-- Texts with the same front are joined from the same parts, if no part has the mark. -/
theorem Text.intercalate_cons_inj {front : String} {parts parts' : List String} (h : ∀ part ∈ parts, '.' ∉ part.toList)
    (h' : ∀ part ∈ parts', '.' ∉ part.toList)
    (heq : ".".intercalate (front :: parts) = ".".intercalate (front :: parts')) : parts = parts' := by
  have hlonger : ∀ part rest, ".".intercalate (front :: part :: rest) ≠ front := by
    intro part rest hshort
    have hlength := congrArg String.length hshort
    simp only [String.intercalate_cons_cons, String.length_append] at hlength
    have hdot : ".".length = 1 := rfl
    omega
  cases parts with
  | nil =>
      cases parts' with
      | nil => rfl
      | cons part rest => exact absurd heq.symm (hlonger part rest)
  | cons part rest =>
      cases parts' with
      | nil => exact absurd heq (hlonger part rest)
      | cons part' rest' =>
          have hrest : ".".intercalate (part :: rest) = ".".intercalate (part' :: rest') := by
            rw [String.intercalate_cons_cons, String.intercalate_cons_cons] at heq
            exact (String.append_right_inj _).mp heq
          have hsplit := congrArg (split '.') hrest
          rwa [split_intercalate (by simp) h, split_intercalate (by simp) h'] at hsplit

namespace Document

/-- The own name of a namespace with a full name, inside a parent. -/
def ownName (parent full : String) : String :=
  if parent.isEmpty then full else Text.dropFront full (parent ++ ".")

@[simp] theorem ownName_childName (parent segment : String) : ownName parent (childName parent segment) = segment := by
  unfold ownName childName
  split
  · rfl
  · exact Text.dropFront_append (parent ++ ".") segment

theorem childName_ne_empty {parent segment : String} (h : parent ≠ "") : childName parent segment ≠ "" := by
  simp [childName, h]

/-- The name of a child is its path, joined by dots. -/
theorem childName_eq_intercalate {parent segment : String} {path : List String} (hname : parent = ".".intercalate path)
    (hne : parent ≠ "") : childName parent segment = ".".intercalate (path ++ [segment]) := by
  have hpath : path ≠ [] := by
    rintro rfl
    exact hne hname
  rw [childName, if_neg (by simpa using hne), Text.intercalate_append_singleton hpath, ← hname]

end Document

namespace Graph.Namespace

open ClientForge.Document

mutual

/-- The paths of a namespace and of those below it, where it stands at a path. -/
def paths (path : List String) : Namespace → List (List String)
  | ⟨_, name, _, _, _, children⟩ => path :: pathsOf path name children

def pathsOf (path : List String) (parent : String) : List Namespace → List (List String)
  | [] => []
  | child :: children => child.paths (path ++ [ownName parent child.name]) ++ pathsOf path parent children

end

/-- The paths below a namespace are those of its children, each behind its own name. -/
theorem pathsOf_eq (path : List String) (parent : String) (children : List Namespace) :
    pathsOf path parent children = children.flatMap fun child => child.paths (path ++ [ownName parent child.name]) := by
  induction children with
  | nil => rfl
  | cons child children ih => rw [pathsOf, ih, List.flatMap_cons]

/-- The paths at and below a namespace. -/
theorem paths_eq (path : List String) (ns : Namespace) :
    ns.paths path = path :: ns.children.flatMap fun child => child.paths (path ++ [ownName ns.name child.name]) := by
  cases ns
  rw [paths, pathsOf_eq]

/-- Paths do not depend on what a namespace lists. -/
theorem paths_lists (path : List String) (ns : Namespace) (enums : List EnumId) (classes : List ClassId) :
    ({ ns with enums, classes } : Namespace).paths path = ns.paths path := by
  rw [paths_eq, paths_eq path ns]

/-- A path leads to the namespace itself or on through one of its children. -/
theorem mem_paths_iff {path p : List String} {ns : Namespace} : p ∈ ns.paths path ↔
    p = path ∨ ∃ child ∈ ns.children, p ∈ child.paths (path ++ [ownName ns.name child.name]) := by
  rw [paths_eq, List.mem_cons, List.mem_flatMap]

mutual

/-- Every path below a namespace goes through it. -/
theorem isPrefix_of_mem_paths : ∀ (ns : Namespace) (path p : List String), p ∈ ns.paths path → path <+: p
  | ⟨_, name, _, _, _, children⟩, path, p, hp => by
      rcases List.mem_cons.mp hp with rfl | hp
      · exact List.prefix_refl p
      · exact isPrefix_of_mem_pathsOf children path name p hp

/-- The same for the paths below several children. -/
theorem isPrefix_of_mem_pathsOf : ∀ (children : List Namespace) (path : List String) (parent : String)
    (p : List String), p ∈ pathsOf path parent children → path <+: p
  | [], _, _, _, hp => by cases hp
  | child :: children, path, parent, p, hp => by
      rcases List.mem_append.mp hp with hp | hp
      · exact (List.prefix_append _ _).trans (isPrefix_of_mem_paths child _ p hp)
      · exact isPrefix_of_mem_pathsOf children path parent p hp

end

/-! ### Names in a tree -/

/-- The children of a namespace have distinct names, each its own one behind that of the namespace. -/
structure NamesChildren (n : Namespace) : Prop where
  nodup : (n.children.map (·.name)).Nodup
  below : ∀ child ∈ n.children, ∃ segment, child.name = childName n.name segment

/-- All namespaces of a tree name their children. -/
def WellNamed (ns : Namespace) : Prop := ∀ n ∈ ns.all, n.NamesChildren

theorem wellNamed_iff {ns : Namespace} : ns.WellNamed ↔ ns.NamesChildren ∧ ∀ child ∈ ns.children, child.WellNamed := by
  constructor
  · intro h
    refine ⟨h ns (mem_all.mpr (.inl rfl)), fun child hchild n hn => h n ?_⟩
    exact mem_all.mpr (.inr (mem_allOf.mpr ⟨child, hchild, hn⟩))
  · rintro ⟨hroot, hchildren⟩ n hn
    rcases mem_all.mp hn with rfl | hn
    · exact hroot
    · obtain ⟨child, hchild, hn⟩ := mem_allOf.mp hn
      exact hchildren child hchild n hn

/-- Children are told apart by their own names. -/
theorem NamesChildren.childName_ownName {ns child : Namespace} (h : ns.NamesChildren) (hchild : child ∈ ns.children) :
    childName ns.name (ownName ns.name child.name) = child.name := by
  obtain ⟨segment, hname⟩ := h.below child hchild
  rw [hname, ownName_childName]

/-- Children of different names have no path in common. -/
theorem NamesChildren.disjoint {ns : Namespace} (h : ns.NamesChildren) (path : List String) :
    ns.children.Pairwise fun a b =>
      List.Disjoint (a.paths (path ++ [ownName ns.name a.name])) (b.paths (path ++ [ownName ns.name b.name])) := by
  refine (List.pairwise_map.mp h.nodup).imp_of_mem fun {a b} ha hb hne p hpa hpb => hne ?_
  have hprefix := List.prefix_of_prefix_length_le (isPrefix_of_mem_paths a _ p hpa) (isPrefix_of_mem_paths b _ p hpb)
    (by simp)
  have hown : ownName ns.name a.name = ownName ns.name b.name := by
    simpa using hprefix.eq_of_length (by simp)
  rw [← h.childName_ownName ha, ← h.childName_ownName hb, hown]

mutual

/-- A tree has each path once. -/
theorem nodup_paths : ∀ (ns : Namespace) (path : List String), ns.WellNamed → (ns.paths path).Nodup
  | ⟨id, name, parent, enums, classes, children⟩, path, h => by
      obtain ⟨hnames, hchildren⟩ := wellNamed_iff.mp h
      rw [paths_eq, List.nodup_cons, List.nodup_flatMap]
      refine ⟨fun hmem => ?_, nodup_paths_of_mem children path name hchildren, hnames.disjoint path⟩
      obtain ⟨child, -, hp⟩ := List.mem_flatMap.mp hmem
      have hlength := (isPrefix_of_mem_paths child _ path hp).length_le
      simp at hlength

/-- Each child of a well-named namespace has every path once. -/
theorem nodup_paths_of_mem : ∀ (children : List Namespace) (path : List String) (parent : String),
    (∀ child ∈ children, child.WellNamed) →
      ∀ child ∈ children, (child.paths (path ++ [ownName parent child.name])).Nodup
  | [], _, _, _ => List.forall_mem_nil _
  | child :: children, path, parent, h => by
      rw [List.forall_mem_cons] at h ⊢
      exact ⟨nodup_paths child _ h.1, nodup_paths_of_mem children path parent h.2⟩

end

/-- In a namespace whose name is its path, so is the name of each child. -/
theorem name_eq_intercalate {ns child : Namespace} {path : List String} (hname : ns.name = ".".intercalate path)
    (hne : ns.name ≠ "") (h : ns.NamesChildren) (hchild : child ∈ ns.children) :
    child.name = ".".intercalate (path ++ [ownName ns.name child.name]) ∧ child.name ≠ "" := by
  rw [← childName_eq_intercalate hname hne]
  have hfull := h.childName_ownName hchild
  exact ⟨hfull.symm, hfull ▸ childName_ne_empty hne⟩

mutual

/-- The names in a tree are its paths, with dots between the parts. -/
theorem map_name_all : ∀ (ns : Namespace) (path : List String), ns.WellNamed → ns.name = ".".intercalate path →
    ns.name ≠ "" → ns.all.map (·.name) = (ns.paths path).map (String.intercalate ".")
  | ⟨id, name, parent, enums, classes, children⟩, path, h, hname, hne => by
      obtain ⟨hnames, hchildren⟩ := wellNamed_iff.mp h
      rw [all, paths, List.map_cons, List.map_cons, ← hname]
      refine congrArg _ (map_name_allOf children path name hchildren fun child hchild => ?_)
      exact name_eq_intercalate hname hne hnames hchild

/-- The names below a well-named namespace are its paths, joined by dots. -/
theorem map_name_allOf : ∀ (children : List Namespace) (path : List String) (parent : String),
    (∀ child ∈ children, child.WellNamed) →
    (∀ child ∈ children, child.name = ".".intercalate (path ++ [ownName parent child.name]) ∧ child.name ≠ "") →
      (allOf children).map (·.name) = (pathsOf path parent children).map (String.intercalate ".")
  | [], _, _, _, _ => rfl
  | child :: children, path, parent, h, hnames => by
      rw [List.forall_mem_cons] at h hnames
      rw [allOf, pathsOf, List.map_append, List.map_append, map_name_all child _ h.1 hnames.1.1 hnames.1.2,
        map_name_allOf children path parent h.2 hnames.2]

end

end Graph.Namespace

namespace Document

open ClientForge.Graph

namespace NamespaceEntry

mutual

/-- An entry that stands at a path and those inside it, each with its path. -/
def spaces (path : List String) : NamespaceEntry → List (List String × NamespaceEntry)
  | ⟨name, enums, classes, namespaces⟩ => (path, ⟨name, enums, classes, namespaces⟩) :: spacesOf path namespaces

def spacesOf (path : List String) : List NamespaceEntry → List (List String × NamespaceEntry)
  | [] => []
  | entry :: entries => entry.spaces (path ++ [entry.name]) ++ spacesOf path entries

end

theorem mem_spaces_self (entry : NamespaceEntry) (path : List String) : path ∈ (entry.spaces path).map Prod.fst := by
  cases entry
  exact List.mem_cons_self

/-- The paths of a document, once for each entry of a namespace. -/
def paths (entry : NamespaceEntry) : List (List String) := (entry.spaces [entry.name]).map Prod.fst

/-- Paths of a document that read the same with dots are the same. -/
def PathsApart (entry : NamespaceEntry) : Prop :=
  ∀ p ∈ entry.paths, ∀ q ∈ entry.paths, ".".intercalate p = ".".intercalate q → p = q

instance (entry : NamespaceEntry) : Decidable entry.PathsApart :=
  inferInstanceAs (Decidable (∀ p ∈ entry.paths, ∀ q ∈ entry.paths, ".".intercalate p = ".".intercalate q → p = q))

end NamespaceEntry

/-! ### Declaring -/

section Declaring

variable {ns child : Namespace} {before after : List Namespace} {d d₀ : Declared} {name : String}

/-- Children keep distinct names when an entry goes to one of them or opens a new one. -/
theorem Opens.namesChildren (h : Opens (childName ns.name name) ns d before child after d₀) (hns : ns.NamesChildren)
    {grown : Namespace} (hgrown : grown.ref = child.ref) :
    ({ ns with children := before ++ grown :: after } : Namespace).NamesChildren := by
  have hname : grown.name = child.name := congrArg NamespaceRef.name hgrown
  cases h with
  | found hchildren hchild =>
      have hnames : (before ++ grown :: after).map (·.name) = ns.children.map (·.name) := by
        simp [hchildren, hname]
      refine ⟨hnames ▸ hns.nodup, fun other hother => ?_⟩
      obtain ⟨same, hsame, heq⟩ := List.mem_map.mp (hnames ▸ List.mem_map_of_mem hother)
      obtain ⟨segment, hsegment⟩ := hns.below same hsame
      exact ⟨segment, heq ▸ hsegment⟩
  | new hfresh =>
      refine ⟨?_, fun other hother => ?_⟩
      · rw [List.map_append, List.nodup_append]
        refine ⟨hns.nodup, List.nodup_singleton _, fun a ha b hb => ?_⟩
        obtain rfl : b = childName ns.name name := (List.mem_singleton.mp hb).trans hname
        exact fun heq => hfresh (heq ▸ ha)
      · rcases List.mem_append.mp hother with hother | hother
        · exact hns.below other hother
        · obtain rfl := List.mem_singleton.mp hother
          exact ⟨name, hname⟩

/-- The child that an entry goes to is well named, and so are its siblings. -/
theorem Opens.wellNamed (h : Opens name ns d before child after d₀) (hns : ns.WellNamed) :
    child.WellNamed ∧ ∀ other ∈ before ++ after, other.WellNamed := by
  have hchildren := (Namespace.wellNamed_iff.mp hns).2
  cases h with
  | found hsplit _ =>
      rw [hsplit] at hchildren
      exact ⟨hchildren _ (by simp), fun other hother => hchildren other (by grind)⟩
  | new _ =>
      refine ⟨Namespace.wellNamed_iff.mpr ⟨⟨List.nodup_nil, nofun⟩, nofun⟩, ?_⟩
      simpa using hchildren

mutual

/-- Declaring an entry keeps a namespace well named. -/
theorem wellNamed_declare : ∀ (entry : NamespaceEntry) (ns : Namespace) (d : Declared), ns.WellNamed →
    ((declare entry ns).run d).1.WellNamed
  | ⟨_, enums, classes, namespaces⟩, ns, d, h => by
      obtain ⟨hnames, hchildren⟩ := Namespace.wellNamed_iff.mp h
      exact wellNamed_declareChildren namespaces _ _ (Namespace.wellNamed_iff.mpr ⟨⟨hnames.1, hnames.2⟩, hchildren⟩)

/-- So does declaring the entries inside it. -/
theorem wellNamed_declareChildren : ∀ (entries : List NamespaceEntry) (ns : Namespace) (d : Declared), ns.WellNamed →
    ((declareChildren entries ns).run d).1.WellNamed
  | [], _, _, h => h
  | entry :: entries, ns, d, h => by
      obtain ⟨before, child, after, d₀, hopens, hrun⟩ := run_declareChildren_cons entry entries ns d
      obtain ⟨hchild, hothers⟩ := hopens.wellNamed h
      rw [hrun]
      refine wellNamed_declareChildren entries _ _ (Namespace.wellNamed_iff.mpr ⟨?_, fun other hother => ?_⟩)
      · exact hopens.namesChildren (Namespace.wellNamed_iff.mp h).1 (ref_declare entry child d₀)
      · rcases List.mem_append.mp hother with hother | hother
        · exact hothers other (List.mem_append_left _ hother)
        · rcases List.mem_cons.mp hother with rfl | hother
          · exact wellNamed_declare entry child d₀ hchild
          · exact hothers other (List.mem_append_right _ hother)

end

/-- A child that grows by some paths adds these to its parent. -/
theorem Opens.mem_paths_iff (h : Opens (childName ns.name name) ns d before child after d₀) {grown : Namespace}
    (hgrown : grown.ref = child.ref) {path p : List String} {P : Prop} (hstart : p = path ++ [name] → P)
    (hpaths : p ∈ grown.paths (path ++ [name]) ↔ p ∈ child.paths (path ++ [name]) ∨ P) :
    p ∈ ({ ns with children := before ++ grown :: after } : Namespace).paths path ↔ p ∈ ns.paths path ∨ P := by
  have hname : grown.name = childName ns.name name := (congrArg NamespaceRef.name hgrown).trans h.name_eq
  rw [Namespace.mem_paths_iff, Namespace.mem_paths_iff]
  simp only [List.mem_append, List.mem_cons, or_and_right, exists_or, exists_eq_left, hname, ownName_childName, hpaths]
  cases h with
  | found hchildren hchild =>
      simp only [hchildren, List.mem_append, List.mem_cons, or_and_right, exists_or, exists_eq_left, hchild,
        ownName_childName]
      grind
  | new _ =>
      have hnew : p ∈ ((newNamespace ns.id (childName ns.name name)).run d).1.paths (path ++ [name]) ↔
          p = path ++ [name] := List.mem_singleton
      simp only [hnew, List.not_mem_nil, false_and, exists_false, or_false]
      grind

mutual

/-- Declaring an entry in a namespace adds the paths of the entry to those of the namespace. -/
theorem mem_paths_declare : ∀ (entry : NamespaceEntry) (ns : Namespace) (d : Declared) (path p : List String),
    p ∈ ((declare entry ns).run d).1.paths path ↔ p ∈ ns.paths path ∨ p ∈ (entry.spaces path).map Prod.fst
  | ⟨_, enums, classes, namespaces⟩, ns, d, path, p => by
      have hself : p = path → p ∈ ns.paths path := fun heq => Namespace.mem_paths_iff.mpr (.inl heq)
      refine (mem_paths_declareChildren namespaces _ _ path p).trans ?_
      rw [Namespace.paths_lists]
      rw [NamespaceEntry.spaces, List.map_cons, List.mem_cons]
      grind

/-- The paths after declaring are those of before and those of the entries. -/
theorem mem_paths_declareChildren : ∀ (entries : List NamespaceEntry) (ns : Namespace) (d : Declared)
    (path p : List String), p ∈ ((declareChildren entries ns).run d).1.paths path ↔
      p ∈ ns.paths path ∨ p ∈ (NamespaceEntry.spacesOf path entries).map Prod.fst
  | [], ns, d, path, p => by
      rw [NamespaceEntry.spacesOf, List.map_nil, declareChildren]
      exact (or_iff_left List.not_mem_nil).symm
  | entry :: entries, ns, d, path, p => by
      obtain ⟨before, child, after, d₀, hopens, hrun⟩ := run_declareChildren_cons entry entries ns d
      have hentry := mem_paths_declare entry child d₀ (path ++ [entry.name]) p
      have hstart : p = path ++ [entry.name] → p ∈ (entry.spaces (path ++ [entry.name])).map Prod.fst := by
        rintro rfl
        exact entry.mem_spaces_self _
      rw [hrun, mem_paths_declareChildren entries _ _ path p,
        hopens.mem_paths_iff (ref_declare entry child d₀) hstart hentry, NamespaceEntry.spacesOf, List.map_append,
        List.mem_append, or_assoc]

end

end Declaring

/-! ### Decoding -/

section Decoded

variable {entry : NamespaceEntry} {g : Graph}

theorem root_ref_of_graphOf (h : graphOf entry = .ok g) : g.root.ref = ⟨⟨0⟩, entry.name⟩ := by
  obtain ⟨-, classes, -, rfl⟩ := graphOf_eq_ok_iff_declaredOf.mp h
  exact ref_declare entry _ _

theorem name_ne_empty_of_graphOf (h : graphOf entry = .ok g) : entry.name ≠ "" := by
  obtain ⟨hblank, -⟩ := graphOf_eq_ok_iff_declaredOf.mp h
  intro hempty
  rw [hempty] at hblank
  revert hblank
  decide

theorem wellNamed_of_graphOf (h : graphOf entry = .ok g) : g.root.WellNamed := by
  obtain ⟨-, classes, -, rfl⟩ := graphOf_eq_ok_iff_declaredOf.mp h
  refine wellNamed_declare entry _ _ (Namespace.wellNamed_iff.mpr ⟨⟨List.nodup_nil, nofun⟩, nofun⟩)

/-- The paths of the graph are those of the document. -/
theorem mem_paths_of_graphOf (h : graphOf entry = .ok g) {p : List String} :
    p ∈ g.root.paths [entry.name] ↔ p ∈ entry.paths := by
  obtain ⟨-, classes, -, rfl⟩ := graphOf_eq_ok_iff_declaredOf.mp h
  refine (mem_paths_declare entry _ _ [entry.name] p).trans (or_iff_right_of_imp fun hp => ?_)
  obtain rfl : p = [entry.name] := List.mem_singleton.mp hp
  exact entry.mem_spaces_self _

/-- The names of all namespaces are the paths from the root, joined by dots. -/
theorem map_name_namespaces (h : graphOf entry = .ok g) :
    g.namespaces.map (·.name) = (g.root.paths [entry.name]).map (String.intercalate ".") := by
  have hname : g.root.name = entry.name := congrArg NamespaceRef.name (root_ref_of_graphOf h)
  exact Namespace.map_name_all g.root [entry.name] (wellNamed_of_graphOf h) hname (hname ▸ name_ne_empty_of_graphOf h)

theorem nodup_names_iff (h : graphOf entry = .ok g) : (g.namespaces.map (·.name)).Nodup ↔ entry.PathsApart := by
  rw [map_name_namespaces h, List.nodup_map_iff_inj_on (Namespace.nodup_paths _ _ (wellNamed_of_graphOf h))]
  simp only [mem_paths_of_graphOf h, NamespaceEntry.PathsApart]

/-- Where every namespace inside the root has a name without dots, paths are told apart. -/
theorem pathsApart_of_plain (h : graphOf entry = .ok g)
    (hplain : ∀ p ∈ entry.paths, ∀ segment ∈ p.tail, '.' ∉ segment.toList) : entry.PathsApart := by
  intro p hp q hq hjoin
  obtain ⟨rest, rfl⟩ := Namespace.isPrefix_of_mem_paths _ _ _ ((mem_paths_of_graphOf h).mpr hp)
  obtain ⟨rest', rfl⟩ := Namespace.isPrefix_of_mem_paths _ _ _ ((mem_paths_of_graphOf h).mpr hq)
  exact congrArg _ (Text.intercalate_cons_inj (hplain _ hp) (hplain _ hq) hjoin)

/-- The namespaces of a decoded graph are one for each path of the document, named by the path with dots between the
parts. They always differ in identity. They differ in name, and then identity and name come to the same, if and only if
no two paths read the same with dots; it is enough that inside the root no namespace has a dot in its own name. -/
theorem names_identify_namespaces_iff {text : String} {source : Source} (h : decode text = .ok source) :
    ∃ entry, Outcome.ofText text = .read entry ∧
      (source.graph.namespaces.map (·.name)).Perm (entry.paths.dedup.map (String.intercalate ".")) ∧
      (source.graph.namespaces.map (·.id)).Nodup ∧
      ((source.graph.namespaces.map (·.name)).Nodup ↔ entry.PathsApart) ∧
      ((∀ m ∈ source.graph.namespaces, ∀ n ∈ source.graph.namespaces, m.id = n.id ↔ m.name = n.name) ↔
        entry.PathsApart) ∧
      ((∀ p ∈ entry.paths, ∀ segment ∈ p.tail, '.' ∉ segment.toList) → entry.PathsApart) := by
  obtain ⟨entry, hread, hg, -⟩ := decode_eq_ok_iff.mp h
  have hids := (linked_of_graphOf hg).spaces
  refine ⟨entry, hread, ?_, hids, nodup_names_iff hg, ?_, pathsApart_of_plain hg⟩
  · rw [map_name_namespaces hg]
    refine List.Perm.map _ ((List.perm_ext_iff_of_nodup ?_ (List.nodup_dedup _)).mpr fun p => ?_)
    · exact Namespace.nodup_paths _ _ (wellNamed_of_graphOf hg)
    · rw [mem_paths_of_graphOf hg, List.mem_dedup]
  · rw [← nodup_names_iff hg, List.nodup_map_iff_inj_on hids.of_map]
    refine forall₂_congr fun m hm => forall₂_congr fun n hn =>
      ⟨fun hsame hname => ?_, fun hsame => ⟨?_, fun hname => ?_⟩⟩
    · exact List.inj_on_of_nodup_map hids hm hn (hsame.mpr hname)
    · exact fun hid => congrArg _ (List.inj_on_of_nodup_map hids hm hn hid)
    · exact congrArg _ (hsame hname)

/-- A document with a namespace inside another, and one that is named like the path to it. -/
def dottedText : String := "name: A\nnamespaces:\n- name: b.c\n- name: b\n  namespaces:\n  - name: c\n"

/-- A document with the same namespace in two places. -/
def repeatedText : String := "name: A\nnamespaces:\n- name: b\n- name: b\n  namespaces:\n  - name: c\n"

/-- A dot in a name makes two namespaces share a name, and entering a namespace twice does not. -/
theorem dotted_shares_names_and_repeated_does_not :
    (∃ source entry, decode dottedText = .ok source ∧ Outcome.ofText dottedText = .read entry ∧
      source.graph.namespaces.map (·.ref) =
        [⟨⟨0⟩, "A"⟩, ⟨⟨1⟩, "A.b.c"⟩, ⟨⟨2⟩, "A.b"⟩, ⟨⟨3⟩, "A.b.c"⟩] ∧ ¬entry.PathsApart) ∧
    ∃ source entry, decode repeatedText = .ok source ∧ Outcome.ofText repeatedText = .read entry ∧
      source.graph.namespaces.map (·.ref) = [⟨⟨0⟩, "A"⟩, ⟨⟨1⟩, "A.b"⟩, ⟨⟨2⟩, "A.b.c"⟩] ∧ entry.PathsApart := by
  have hspaces : (decode dottedText).toOption.map (·.graph.namespaces.map (·.ref)) =
        some [⟨⟨0⟩, "A"⟩, ⟨⟨1⟩, "A.b.c"⟩, ⟨⟨2⟩, "A.b"⟩, ⟨⟨3⟩, "A.b.c"⟩] ∧
      (decode repeatedText).toOption.map (·.graph.namespaces.map (·.ref)) =
        some [⟨⟨0⟩, "A"⟩, ⟨⟨1⟩, "A.b"⟩, ⟨⟨2⟩, "A.b.c"⟩] := by
    decide +kernel
  have hnames : ∀ g : Graph, g.namespaces.map (·.name) = (g.namespaces.map (·.ref)).map (·.name) := by
    intro g
    rw [List.map_map]
    rfl
  obtain ⟨hdotted, hrepeated⟩ := hspaces
  constructor
  · obtain ⟨source, hdecode, hrefs⟩ := exists_ok_of_toOption hdotted
    obtain ⟨entry, hread, -, -, hnodup, -⟩ := names_identify_namespaces_iff hdecode
    refine ⟨source, entry, hdecode, hread, hrefs, ?_⟩
    rw [← hnodup, hnames, hrefs]
    decide
  · obtain ⟨source, hdecode, hrefs⟩ := exists_ok_of_toOption hrepeated
    obtain ⟨entry, hread, -, -, hnodup, -⟩ := names_identify_namespaces_iff hdecode
    refine ⟨source, entry, hdecode, hread, hrefs, ?_⟩
    rw [← hnodup, hnames, hrefs]
    decide

end Decoded

end Document

end ClientForge
