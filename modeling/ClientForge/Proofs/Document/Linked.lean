import ClientForge.Proofs.Document.Listings
import ClientForge.Proofs.Document.References
import ClientForge.Proofs.Graph.Valid

/-!
# Decoded graphs are linked

A decoded graph refers to nothing but its own elements: its types name what namespaces list, every element is
listed at its home, namespaces know the one they stand in, and members know their class (`Graph.Linked`). Validation
asks for some of this, and so it finds nothing missing there.

* `Namespace.all_perm`: the namespaces of a tree are its root and the children of all of them;
* `Linked.outermost_eq_root`: from every namespace the parents lead up to the root;
* **`linked_of_graphOf`.** The graph of a document is linked.
* `mem_violations_iff`: of links, validation misses only those of mappings that lead to no class;
* **`linked_of_decode`.** Both together, for every text that is decoded.
-/

namespace ClientForge

namespace Graph

/-! ### Trees of namespaces -/

namespace Namespace

mutual

/-- The namespaces of a tree are its root and the children of all of them. -/
theorem all_perm : ∀ ns : Namespace, ns.all.Perm (ns :: ns.all.flatMap (·.children))
  | ⟨id, name, parent, enums, classes, children⟩ => by
      rw [all, List.flatMap_cons]
      exact (allOf_perm children).cons _

theorem allOf_perm : ∀ nss : List Namespace, (allOf nss).Perm (nss ++ (allOf nss).flatMap (·.children))
  | [] => .nil
  | ns :: nss => by
      rw [allOf, List.flatMap_append]
      exact ((all_perm ns).append (allOf_perm nss)).trans ((List.perm_append_comm_assoc _ nss _).cons ns)

end

/-- Where namespaces have distinct identities, each but the root is a child of exactly one. -/
theorem existsUnique_parent {root n : Namespace} (hnodup : (root.all.map (·.id)).Nodup) (hn : n ∈ root.all)
    (hroot : n ≠ root) : ∃! p, p ∈ root.all ∧ n ∈ p.children := by
  have hperm := all_perm root
  obtain ⟨p, hp, hchild⟩ := List.mem_flatMap.mp ((List.mem_cons.mp (hperm.mem_iff.mp hn)).resolve_left hroot)
  refine ⟨p, ⟨hp, hchild⟩, ?_⟩
  rintro q ⟨hq, hchild'⟩
  have hchildren := (List.nodup_cons.mp (hperm.nodup_iff.mp hnodup.of_map)).2
  have hdisjoint := (List.nodup_flatMap.mp hchildren).2
  have : Std.Symm (Function.onFun List.Disjoint Namespace.children) := ⟨fun _ _ h _ hx hy => h hy hx⟩
  by_contra hne
  exact hdisjoint.forall hq hp hne hchild' hchild

end Namespace

/-! ### Linked graphs -/

/-- Whether a class or enum is among those that namespaces list. -/
def IsListed (g : Graph) : Definition → Prop
  | .ofClass c => c ∈ g.allClasses
  | .ofEnum x => x ∈ g.allEnums

/-- A graph is closed, and its elements know where they stand. -/
structure Linked (g : Graph) : Prop where
  /-- Whatever a type refers to is listed. -/
  closed : ∀ c ∈ g.classes, ∀ t ∈ c.typeRefs, ∀ id, t.definition = some id →
    ∃ d, g.definition? id = some d ∧ g.IsListed d
  /-- The namespace that is the home of an element lists it. -/
  home : ∀ d, g.Holds d → ∃ n ∈ g.namespaces, d.home = some n.ref ∧ n.Lists d.id
  spaces : (g.namespaces.map (·.id)).Nodup
  /-- Every namespace but the root is a child of exactly one. -/
  listed : ∀ n ∈ g.namespaces, n ≠ g.root → ∃! p, p ∈ g.namespaces ∧ n ∈ p.children
  /-- The parent of a child is the namespace that lists it. -/
  parent : ∀ p ∈ g.namespaces, ∀ n ∈ p.children, n.parent = some p.id
  root_parent : g.root.parent = none
  /-- The identity of a class, by which its members know it, leads to it. -/
  identity : ∀ c ∈ g.classes, g.class? c.id = some c
  tied : ∀ c ∈ g.classes, c.Tied

variable {g : Graph}

/-! ### Ways up -/

theorem Linked.namespace?_id (h : g.Linked) {p : Namespace} (hp : p ∈ g.namespaces) : g.namespace? p.id = some p := by
  cases hfound : g.namespace? p.id with
  | none => simpa using List.find?_eq_none.mp hfound p hp
  | some q =>
      have hid : q.id = p.id := by simpa using List.find?_some hfound
      rw [List.inj_on_of_nodup_map h.spaces (List.mem_of_find?_eq_some hfound) hp hid]

/-- The first step up from a child is to the namespace that lists it. -/
theorem Linked.ascend_child (h : g.Linked) {p n : Namespace} (hp : p ∈ g.namespaces) (hn : n ∈ p.children)
    (steps : Nat) : g.ascend (steps + 1) n = g.ascend steps p := by
  rw [ascend, h.parent p hp n hn, Option.bind_some, h.namespace?_id hp]

theorem child_mem_namespaces {p n : Namespace} (hp : p ∈ g.namespaces) (hn : n ∈ p.children) : n ∈ g.namespaces :=
  (Namespace.all_perm g.root).mem_iff.mpr (List.mem_cons_of_mem _ (List.mem_flatMap.mpr ⟨p, hp, hn⟩))

mutual

/-- From a namespace the way up leads to all that it stands below, in fewer steps than these have namespaces. -/
theorem Linked.ascend_of_mem_all (h : g.Linked) : ∀ ns : Namespace, ns ∈ g.namespaces → ∀ n ∈ ns.all,
    ∃ k < ns.all.length, ∀ steps, g.ascend (k + steps) n = g.ascend steps ns
  | ⟨id, name, parent, enums, classes, children⟩, hns, n, hn => by
      rcases Document.mem_all.mp hn with rfl | hn
      · exact ⟨0, by simp [Namespace.all], by simp⟩
      · obtain ⟨k, hk, child, hchild, hascend⟩ := h.ascend_of_mem_allOf children
          (fun child hchild => child_mem_namespaces hns hchild) n hn
        refine ⟨k + 1, by simpa [Namespace.all] using hk, fun steps => ?_⟩
        rw [Nat.add_assoc, Nat.add_comm 1, hascend, h.ascend_child hns hchild]

/-- From anywhere below some namespaces, fewer steps than there are namespaces lead up to one of them. -/
theorem Linked.ascend_of_mem_allOf (h : g.Linked) : ∀ nss : List Namespace, (∀ ns ∈ nss, ns ∈ g.namespaces) →
    ∀ n ∈ Namespace.allOf nss, ∃ k < (Namespace.allOf nss).length, ∃ ns ∈ nss,
      ∀ steps, g.ascend (k + steps) n = g.ascend steps ns
  | [], _, _, hn => by cases hn
  | ns :: nss, hnss, n, hn => by
      rw [List.forall_mem_cons] at hnss
      rw [Namespace.allOf, List.length_append]
      rcases List.mem_append.mp hn with hn | hn
      · obtain ⟨k, hk, hascend⟩ := h.ascend_of_mem_all ns hnss.1 n hn
        exact ⟨k, by omega, ns, List.mem_cons_self, hascend⟩
      · obtain ⟨k, hk, other, hother, hascend⟩ := h.ascend_of_mem_allOf nss hnss.2 n hn
        exact ⟨k, by omega, other, List.mem_cons_of_mem _ hother, hascend⟩

end

/-- In a linked graph the outermost namespace is the root, seen from any. -/
theorem Linked.outermost_eq_root (h : g.Linked) {n : Namespace} (hn : n ∈ g.namespaces) : g.outermost n = g.root := by
  have hroot : g.root ∈ g.namespaces := Document.mem_all.mpr (.inl rfl)
  obtain ⟨k, hk, hascend⟩ := h.ascend_of_mem_all g.root hroot n hn
  have hk : k + (g.namespaces.length - k) = g.namespaces.length := Nat.add_sub_of_le (Nat.le_of_lt hk)
  rw [outermost, ← hk, hascend]
  cases g.namespaces.length - k with
  | zero => rfl
  | succ steps => rw [ascend, h.root_parent, Option.bind_none]

/-- What a namespace of the graph lists is listed. -/
theorem isListed_of_lists {n : Namespace} {id : DefinitionId} {d : Definition} (hn : n ∈ g.namespaces)
    (hlists : n.Lists id) (hid : g.definition? id = some d) : g.IsListed d := by
  cases id with
  | ofClass id =>
      obtain ⟨c, hc, rfl⟩ := Option.map_eq_some_iff.mp hid
      exact List.mem_flatMap.mpr ⟨n, hn, List.mem_filterMap.mpr ⟨id, hlists, hc⟩⟩
  | ofEnum id =>
      obtain ⟨x, hx, rfl⟩ := Option.map_eq_some_iff.mp hid
      exact List.mem_flatMap.mpr ⟨n, hn, List.mem_filterMap.mpr ⟨id, hlists, hx⟩⟩

/-! ### Validation -/

/-- A rule asks for a parent, or for the class that a discriminator leads to. -/
def Rule.AsksLink (rule : Rule) : Prop :=
  rule.code = "missing_parent" ∨ rule.code = "unreachable_discriminator"

/-- A mapping leads to a class. -/
def DiscriminatorMapping.NamesClass (m : DiscriminatorMapping) : Prop :=
  ∃ t id, m.type = some t ∧ t.definition = some (.ofClass id)

section Validation

variable {c : ClassDef} {v : Violation}

/-- Where the parent of a method is known, no rule for its kind asks for a link. -/
theorem not_asksLink_of_kindViolations {m : Method} {element : String} (hparent : g.parentOf m = some c)
    (hv : v ∈ g.kindViolations element m) : ¬v.rule.AsksLink := by
  have hif : ∀ (p : Prop) [Decidable p] (rule : Rule), ¬rule.AsksLink →
      v ∈ (if p then [⟨rule, element⟩] else []) → ¬v.rule.AsksLink := by
    intro p _ rule hrule hmem
    split at hmem
    · obtain rfl := List.mem_singleton.mp hmem
      exact hrule
    · cases hmem
  unfold kindViolations at hv
  split at hv
  · exact hif _ _ (by simp [Rule.AsksLink, Rule.code]) hv
  · split at hv
    · obtain rfl := List.mem_singleton.mp hv
      simp [Rule.AsksLink, Rule.code]
    · split at hv
      · cases hv
      · next hgenerator =>
        obtain rfl := List.mem_singleton.mp hv
        rcases rule_of_generatorOf hgenerator with ⟨-, hnone⟩ | hrule | ⟨http, hrule | hrule⟩
        · rw [hparent] at hnone
          cases hnone
        all_goals simp [hrule, Rule.AsksLink, Rule.code]
  · exact hif _ _ (by simp [Rule.AsksLink, Rule.code]) hv
  · exact hif _ _ (by simp [Rule.AsksLink, Rule.code]) hv
  · cases hv

/-- Where a method knows its class, no rule for it asks for a link. -/
theorem not_asksLink_of_methodViolations {m : Method} (hid : g.class? c.id = some c) (hparent : m.parent = some c.id)
    (hv : v ∈ g.methodViolations c m) : ¬v.rule.AsksLink := by
  simp only [methodViolations, List.mem_append] at hv
  rcases hv with ((hv | hv) | hv) | hv
  · simp [hparent] at hv
  · split at hv
    · obtain rfl := List.mem_singleton.mp hv
      simp [Rule.AsksLink, Rule.code]
    · cases hv
  · split at hv
    · cases hv
    · split at hv
      · cases hv
      · obtain rfl := List.mem_singleton.mp hv
        simp [Rule.AsksLink, Rule.code]
  · have hparentOf : g.parentOf m = some c := by rw [parentOf, hparent, Option.bind_some, hid]
    exact not_asksLink_of_kindViolations hparentOf hv

theorem not_asksLink_of_propertyViolations {p : Property} (hv : v ∈ g.propertyViolations c p) :
    ¬v.rule.AsksLink := by
  unfold propertyViolations at hv
  split at hv
  · cases hv
  · split at hv
    · cases hv
    · obtain rfl := List.mem_singleton.mp hv
      simp [Rule.AsksLink, Rule.code]

/-- In a linked graph only mappings can lack what links ask for. -/
theorem mem_classViolations_iff (hlinked : g.Linked) (hc : c ∈ g.classes) (hv : v.rule.AsksLink) :
    v ∈ g.classViolations c ↔ v ∈ g.mappingViolations c.qualifiedName [] c.discriminator.mappings := by
  simp only [classViolations, List.mem_append, List.mem_flatMap]
  constructor
  · rintro (((hmem | hmem) | ⟨p, hp, hmem⟩) | ⟨m, hm, hmem⟩)
    · split at hmem
      · cases hmem
      · next hindexer =>
        obtain rfl := List.mem_singleton.mp hmem
        simp [rule_of_indexerOf hindexer, Rule.AsksLink, Rule.code] at hv
    · exact hmem
    · exact absurd hv (not_asksLink_of_propertyViolations hmem)
    · have hparent := (hlinked.tied c hc).method_parent m hm
      exact absurd hv (not_asksLink_of_methodViolations (hlinked.identity c hc) hparent hmem)
  · exact fun hmem => .inl (.inl (.inr hmem))

/-- Of the rules for mappings, only the one that a mapping leads to a listed class asks for a link; keys that are
missing or come twice do not matter. -/
theorem mem_mappingViolations_iff {element : String} {seen : List String} {mappings : List DiscriminatorMapping}
    (hv : v.rule.AsksLink) : v ∈ g.mappingViolations element seen mappings ↔
      ∃ m ∈ mappings, g.isListedClass m.type = false ∧
        v = ⟨.foreignMapping m.key ((m.type.map g.refText).getD "<nil>"), element⟩ := by
  induction mappings generalizing seen with
  | nil => simp [mappingViolations]
  | cons m mappings ih =>
      have hduplicate : v ≠ ⟨.duplicateMapping m.key, element⟩ := by
        rintro rfl
        simp [Rule.AsksLink, Rule.code] at hv
      rw [mappingViolations, List.mem_append, List.mem_append, ih]
      cases hlisted : g.isListedClass m.type <;> simp [hduplicate, hlisted]

/-- A mapping of a linked graph leads to a listed class if it leads to a class at all. -/
theorem isListedClass_iff_namesClass (hlinked : g.Linked) (hc : c ∈ g.classes) {m : DiscriminatorMapping}
    (hm : m ∈ c.discriminator.mappings) : g.isListedClass m.type = true ↔ m.NamesClass := by
  rw [isListedClass_iff]
  constructor
  · rintro ⟨target, htarget, -⟩
    obtain ⟨t, ht, hclass⟩ := Option.bind_eq_some_iff.mp htarget
    unfold classOf at hclass
    split at hclass
    · next id hid => exact ⟨t, id, ht, hid⟩
    · cases hclass
  · rintro ⟨t, id, ht, hid⟩
    have hmem : t ∈ c.typeRefs := by
      have hmapping : t ∈ c.discriminator.mappings.flatMap (·.type.toList) :=
        List.mem_flatMap.mpr ⟨m, hm, by simp [ht]⟩
      simp [ClassDef.typeRefs, -List.mem_flatMap, hmapping]
    obtain ⟨d, hd, hlisted⟩ := hlinked.closed c hc t hmem _ hid
    obtain ⟨target, htarget, rfl⟩ := Option.map_eq_some_iff.mp hd
    refine ⟨target, ?_, target, hlisted, rfl⟩
    rw [ht, Option.bind_some, classOf, hid]
    exact htarget

/-- Of links, validation finds in a linked graph only mappings that lead to no class. -/
theorem mem_violations_iff (hlinked : g.Linked) (hv : v.rule.AsksLink) :
    v ∈ g.violations ↔ ∃ c ∈ g.allClasses, ∃ m ∈ c.discriminator.mappings, ¬m.NamesClass ∧
      v = ⟨.foreignMapping m.key ((m.type.map g.refText).getD "<nil>"), c.qualifiedName⟩ := by
  rw [violations, List.mem_flatMap]
  refine exists_congr fun c => and_congr_right fun hc => ?_
  have hmem := mem_classes_of_mem_allClasses hc
  rw [mem_classViolations_iff hlinked hmem hv, mem_mappingViolations_iff hv]
  refine exists_congr fun m => and_congr_right fun hm => ?_
  rw [← isListedClass_iff_namesClass hlinked hmem hm, Bool.not_eq_true]

end Validation

end Graph

namespace Document

open ClientForge.Graph

/-! ### Decoding -/

/-- A graph and the declarations that it is made from. -/
structure Built (d : Declared) (g : Graph) : Prop where
  recorded : d.Recorded
  listed : ∀ x ∈ d.all, g.root.ListsAt x.home x.definition
  numbered : g.root.numbers.Nodup
  root_parent : g.root.parent = none
  nested : g.root.Nested
  placeOf : ∀ id, d.placeOf id = (g.definition? id).bind Definition.home
  read : ∀ c ∈ g.classes, ∃ names place id e, names.declared = d.all ∧ classOf names place id e = .ok c

/-- Each class is at home where it was declared. -/
theorem place_eq_home {names : Names} {placed : List PlacedClass} {classes : List ClassDef}
    (h : (placed.zipIdx.mapM fun (c, i) => classOf names c.place ⟨i⟩ c.entry) = .ok classes) (i : Nat) :
    placed[i]?.bind (some ·.place) = classes[i]?.bind (·.home) := by
  cases hplaced : placed[i]? with
  | none =>
      have hlength := (mapM_eq_ok.mp h).length_eq
      rw [List.length_zipIdx] at hlength
      rw [List.getElem?_eq_none_iff, hlength, ← List.getElem?_eq_none_iff] at hplaced
      rw [hplaced]
      rfl
  | some p =>
      have hzip : placed.zipIdx[i]? = some (p, i) := by simp [List.getElem?_zipIdx, hplaced]
      obtain ⟨c, hc, hclass⟩ := exists_getElem?_of_mapM h hzip
      rw [hc]
      exact (read_of_classOf hclass).home.symm

theorem built_of_graphOf {entry : NamespaceEntry} {g : Graph} (h : graphOf entry = .ok g) : ∃ d, Built d g := by
  obtain ⟨-, root, declared, hdeclare, classes, hclasses, rfl⟩ := graphOf_eq_ok_iff.mp h
  obtain ⟨hlisted, hrecorded, hnumbered, hroot, hnested⟩ := listings_of_declare hdeclare
  refine ⟨_, hrecorded, hlisted, hnumbered, hroot, hnested, fun id => ?_, fun c hc => ?_⟩
  · cases id with
    | ofEnum id =>
        rw [definition?, Option.bind_map]
        rfl
    | ofClass id =>
        have hhome := place_eq_home hclasses id.index
        rw [Array.getElem?_toList] at hhome
        rw [definition?, Option.bind_map, class?, List.getElem?_toArray]
        exact hhome
  · obtain ⟨⟨declaration, i⟩, -, hclass⟩ := exists_of_mem_right (mapM_eq_ok.mp hclasses) (List.mem_toArray.mp hc)
    exact ⟨_, _, _, _, rfl, hclass⟩

section Built

variable {d : Declared} {g : Graph}

/-- Every element that a class refers to is one of the graph and listed. -/
theorem Built.closed (h : Built d g) {c : ClassDef} (hc : c ∈ g.classes) {t : TypeRef} (ht : t ∈ c.typeRefs)
    {id : DefinitionId} (hid : t.definition = some id) : ∃ x, g.definition? id = some x ∧ g.IsListed x := by
  obtain ⟨names, place, _, e, hdeclared, hclass⟩ := h.read c hc
  obtain ⟨x, hx, rfl⟩ := known_of_classOf hclass t ht id hid
  rw [hdeclared] at hx
  have hplace := (h.recorded x.definition x.home).mpr ⟨x, hx, rfl, rfl⟩
  rw [h.placeOf] at hplace
  obtain ⟨found, hfound, -⟩ := Option.bind_eq_some_iff.mp hplace
  obtain ⟨n, hn, -, hlists⟩ := h.listed x hx
  exact ⟨found, hfound, isListed_of_lists hn hlists hfound⟩

/-- An element is listed in the namespace that it has for its home. -/
theorem Built.home (h : Built d g) {id : DefinitionId} {x : Definition} (hid : g.definition? id = some x)
    {place : NamespaceRef} (hplace : x.home = some place) :
    ∃ n ∈ g.namespaces, n.ref = place ∧ n.Lists id := by
  have hhome : d.placeOf id = some place := by
    rw [h.placeOf, hid]
    exact hplace
  obtain ⟨y, hy, rfl, rfl⟩ := (h.recorded id place).mp hhome
  exact h.listed y hy

end Built

theorem linked_of_graphOf {entry : NamespaceEntry} {g : Graph} (h : graphOf entry = .ok g) : g.Linked := by
  have hplaced := placed_of_graphOf h
  have hhoused := housed_of_graphOf h
  obtain ⟨declared, hbuilt⟩ := built_of_graphOf h
  have hspaces : (g.namespaces.map (·.id)).Nodup := by
    have hnumbered : ((g.namespaces.map (·.id)).map (·.index)).Nodup := by
      rw [List.map_map]
      exact hbuilt.numbered
    exact hnumbered.of_map
  constructor
  case closed => exact fun c hc t ht id hid => hbuilt.closed hc ht hid
  case home =>
    intro d hd
    obtain ⟨place, hplace⟩ := Option.isSome_iff_exists.mp (hhoused.home_isSome d hd)
    obtain ⟨n, hn, rfl, hlists⟩ := hbuilt.home (definition?_id hplaced hhoused hd) hplace
    exact ⟨n, hn, hplace, hlists⟩
  case spaces => exact hspaces
  case listed => exact fun n hn hroot => Namespace.existsUnique_parent hspaces hn hroot
  case parent => exact hbuilt.nested
  case root_parent => exact hbuilt.root_parent
  case identity => exact fun c hc => hplaced.class_of_mem hc
  case tied =>
    intro c hc
    obtain ⟨names, place, id, e, -, hclass⟩ := hbuilt.read c hc
    exact tied_of_classOf hclass

/-- The graph of a decoded text is linked, and from every namespace the parents lead up to its root. Validation reports
no missing parent in it, and of mappings exactly those that lead to no class. -/
theorem linked_of_decode {text : String} {source : Source} (h : decode text = .ok source) :
    source.graph.Linked ∧
      (∀ n ∈ source.graph.namespaces, source.graph.outermost n = source.graph.root) ∧
      (∀ v ∈ source.graph.violations, v.rule.code ≠ "missing_parent") ∧
      ∀ v, v.rule.code = "unreachable_discriminator" → (v ∈ source.graph.violations ↔
        ∃ c ∈ source.graph.allClasses, ∃ m ∈ c.discriminator.mappings, ¬m.NamesClass ∧
          v = ⟨.foreignMapping m.key ((m.type.map source.graph.refText).getD "<nil>"), c.qualifiedName⟩) := by
  obtain ⟨entry, -, hg, -⟩ := decode_eq_ok_iff.mp h
  have hlinked := linked_of_graphOf hg
  refine ⟨hlinked, fun n hn => hlinked.outermost_eq_root hn, fun v hv hcode => ?_,
    fun v hcode => mem_violations_iff hlinked (.inr hcode)⟩
  obtain ⟨c, -, m, -, -, rfl⟩ := (mem_violations_iff hlinked (.inl hcode)).mp hv
  simp [Rule.code] at hcode

/-- A document with a class that inherits from one further down, in another namespace, and with a mapping that leads to
none. -/
def forwardBase : String :=
  "name: A\nclasses:\n- name: C\n  inherits: b.D\n  discriminator:\n    mappings:\n    - type: E\n" ++
    "namespaces:\n- name: b\n  classes:\n  - name: D\n"

/-- A class may refer to a base that comes later; the child namespace knows its parent, and an enum that a discriminator
leads to is the one fault that is left. -/
theorem forward_base_linked : ∃ source, decode forwardBase = .ok source ∧ source.graph.Linked ∧
    source.graph.namespaces.map (fun n => (n.name, n.parent, (source.graph.outermost n).name)) =
      [("A", none, "A"), ("A.b", some ⟨0⟩, "A")] ∧
    source.graph.violations = [⟨.foreignMapping "" "E", "A.C"⟩] ∧
    ∃ c ∈ source.graph.allClasses, ∃ m ∈ c.discriminator.mappings, m.key = "" ∧ ¬m.NamesClass := by
  have hfound : (decode forwardBase).toOption.map (fun source =>
        (source.graph.namespaces.map (fun n => (n.name, n.parent)), source.graph.root.name, source.graph.violations)) =
      some ([("A", none), ("A.b", some ⟨0⟩)], "A", [⟨.foreignMapping "" "E", "A.C"⟩]) := by
    decide +kernel
  obtain ⟨source, hdecode, hfacts⟩ := exists_ok_of_toOption hfound
  simp only [Prod.mk.injEq] at hfacts
  obtain ⟨hspaces, hroot, hviolations⟩ := hfacts
  obtain ⟨hlinked, hup, -, hmappings⟩ := linked_of_decode hdecode
  have hnames : source.graph.namespaces.map (fun n => (n.name, n.parent, (source.graph.outermost n).name)) =
      (source.graph.namespaces.map fun n => (n.name, n.parent)).map fun x => (x.1, x.2, "A") := by
    rw [List.map_map]
    refine List.map_congr_left fun n hn => ?_
    rw [hup n hn, hroot]
    rfl
  have hreported : ⟨.foreignMapping "" "E", "A.C"⟩ ∈ source.graph.violations := by simp [hviolations]
  obtain ⟨c, hc, m, hm, hnone, heq⟩ := (hmappings ⟨.foreignMapping "" "E", "A.C"⟩ rfl).mp hreported
  simp only [Violation.mk.injEq, Rule.foreignMapping.injEq] at heq
  refine ⟨source, hdecode, hlinked, ?_, hviolations, c, hc, m, hm, heq.1.1.symm, hnone⟩
  rw [hnames, hspaces]
  rfl

end Document

end ClientForge
