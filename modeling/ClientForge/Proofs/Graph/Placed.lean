import ClientForge.Graph.Validation

/-!
# Placed graphs

In a placed graph the identity of an element says where it stands: a class is known by its place in the
table of classes, a method by its class and its place there. So elements of one identity are the same
(`Placed.method_ext`), and following the identity of a class leads back to it (`Placed.class_of_mem`).
In a valid placed graph every method has the class that lists it as its parent (`parentOf_of_valid`).
-/

namespace ClientForge.Graph

structure Placed (g : Graph) : Prop where
  class_id : ∀ (i : Nat) (c : ClassDef), g.classes[i]? = some c → c.id = ⟨i⟩
  method_id : ∀ c ∈ g.classes, ∀ (i : Nat) (m : Method), c.methods[i]? = some m → m.id = ⟨c.id, i⟩

/-- Every class and every method stands at the place that its identity names. -/
def isPlaced (g : Graph) : Bool :=
  g.classes.toList.zipIdx.all fun (c, i) =>
    c.id == ⟨i⟩ && c.methods.zipIdx.all fun (m, j) => m.id == ⟨c.id, j⟩

theorem isPlaced_iff {g : Graph} : g.isPlaced = true ↔ g.Placed := by
  simp only [isPlaced, List.all_eq_true, Prod.forall, Bool.and_eq_true, beq_iff_eq,
    List.mk_mem_zipIdx_iff_getElem?, Array.getElem?_toList]
  constructor
  · intro h
    refine ⟨fun i c hc => (h c i hc).1, fun c hc i m hm => ?_⟩
    obtain ⟨k, hk⟩ := Array.mem_iff_getElem?.mp hc
    exact (h c k hk).2 m i hm
  · intro h c i hc
    exact ⟨h.class_id i c hc, fun m j hm => h.method_id c (Array.mem_of_getElem? hc) j m hm⟩

instance (g : Graph) : Decidable g.Placed := decidable_of_iff _ isPlaced_iff

namespace Placed

variable {g : Graph} {c : ClassDef}

theorem class_of_mem (h : g.Placed) (hc : c ∈ g.classes) : g.class? c.id = some c := by
  obtain ⟨i, hi⟩ := Array.mem_iff_getElem?.mp hc
  rw [h.class_id i c hi]
  exact hi

/-- Methods of one class with the same identity are the same. -/
theorem method_ext (h : g.Placed) (hc : c ∈ g.classes) {m n : Method} (hm : m ∈ c.methods)
    (hn : n ∈ c.methods) (heq : m.id = n.id) : m = n := by
  obtain ⟨i, hi⟩ := List.mem_iff_getElem?.mp hm
  obtain ⟨j, hj⟩ := List.mem_iff_getElem?.mp hn
  rw [h.method_id c hc i m hi, h.method_id c hc j n hj] at heq
  cases heq
  rw [hi] at hj
  exact Option.some.inj hj

theorem nodup_methods (h : g.Placed) (hc : c ∈ g.classes) : (c.methods.map (·.id)).Nodup := by
  rw [List.Nodup, List.pairwise_map, List.pairwise_iff_getElem]
  intro i j hi hj hij heq
  rw [h.method_id c hc i _ (List.getElem?_eq_getElem hi),
    h.method_id c hc j _ (List.getElem?_eq_getElem hj)] at heq
  cases heq
  exact Nat.lt_irrefl i hij

theorem owner_of_mem (h : g.Placed) (hc : c ∈ g.classes) {m : Method} (hm : m ∈ c.methods) : m.id.owner = c.id := by
  obtain ⟨i, hi⟩ := List.mem_iff_getElem?.mp hm
  rw [h.method_id c hc i m hi]

theorem nodup_classes (h : g.Placed) : (g.classes.toList.map (·.id)).Nodup := by
  rw [List.Nodup, List.pairwise_map, List.pairwise_iff_getElem]
  intro i j hi hj hij heq
  rw [Array.getElem_toList, Array.getElem_toList, h.class_id i _ (Array.getElem?_eq_getElem _),
    h.class_id j _ (Array.getElem?_eq_getElem _)] at heq
  cases heq
  exact Nat.lt_irrefl i hij

end Placed

theorem class_mem {g : Graph} {id : ClassId} {c : ClassDef} (h : g.class? id = some c) : c ∈ g.classes :=
  Array.mem_of_getElem? h

theorem classOf_mem {g : Graph} {t : TypeRef} {c : ClassDef} (h : g.classOf t = some c) : c ∈ g.classes := by
  unfold classOf at h
  split at h
  · exact class_mem h
  · cases h

theorem mem_classes_of_mem_allClasses {g : Graph} {c : ClassDef} (h : c ∈ g.allClasses) :
    c ∈ g.classes := by
  obtain ⟨ns, _, hns⟩ := List.mem_flatMap.mp h
  obtain ⟨id, _, hid⟩ := List.mem_filterMap.mp hns
  exact Array.mem_of_getElem? hid

/-- The classes that the root namespace lists are among all classes. -/
theorem mem_allClasses_of_root {g : Graph} {id : ClassId} {c : ClassDef} (hid : id ∈ g.root.classes)
    (hc : g.class? id = some c) : c ∈ g.allClasses := by
  have hroot : g.root ∈ g.namespaces := by
    unfold namespaces
    cases g.root
    exact List.mem_cons_self
  exact List.mem_flatMap.mpr ⟨g.root, hroot, List.mem_filterMap.mpr ⟨id, hid, hc⟩⟩

/-! ### Valid graphs -/

section Valid

variable {g : Graph} {c : ClassDef} {m : Method}

theorem classViolations_of_valid (hvalid : g.violations = []) (hc : c ∈ g.allClasses) :
    g.classViolations c = [] :=
  List.flatMap_eq_nil_iff.mp hvalid c hc

/-- Where no rule is broken at all, no method breaks one. -/
theorem methodViolations_of_valid (hvalid : g.violations = []) (hc : c ∈ g.allClasses)
    (hm : m ∈ c.methods) : g.methodViolations c m = [] := by
  have hclass := classViolations_of_valid hvalid hc
  unfold classViolations at hclass
  exact List.flatMap_eq_nil_iff.mp (List.append_eq_nil_iff.mp hclass).2 m hm

/-- In a valid graph the parent of a method is the class that lists it. -/
theorem parentOf_of_valid (hplaced : g.Placed) (hvalid : g.violations = [])
    (hc : c ∈ g.allClasses) (hm : m ∈ c.methods) : g.parentOf m = some c := by
  have hmethod := methodViolations_of_valid hvalid hc hm
  simp only [methodViolations, List.append_eq_nil_iff] at hmethod
  have hparent : m.parent = some c.id := by
    have hfirst := hmethod.1.1.1
    split at hfirst
    · rename_i heq
      simpa using heq
    · cases hfirst
  rw [parentOf, hparent]
  exact hplaced.class_of_mem (mem_classes_of_mem_allClasses hc)

/-- A command builder of a valid graph names at most one source for its command. -/
theorem commandSources_of_valid (hvalid : g.violations = []) (hc : c ∈ g.allClasses)
    (hm : m ∈ c.commandBuilders) : g.commandSources m ≤ 1 := by
  obtain ⟨hmem, hkind⟩ := List.mem_filter.mp hm
  have hkind : m.kind = .commandBuilder := by simpa [Method.isCommandBuilder] using hkind
  have hmethod := methodViolations_of_valid hvalid hc hmem
  simp only [methodViolations, List.append_eq_nil_iff, kindViolations, hkind] at hmethod
  have hlast := hmethod.2
  split at hlast
  · cases hlast
  · omega

end Valid

end ClientForge.Graph
