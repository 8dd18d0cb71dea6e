import ClientForge.Document.Decode
import ClientForge.Proofs.Failure
import ClientForge.Proofs.Graph.Placed
import Mathlib.Data.List.TakeDrop
import Mathlib.Data.List.TakeWhile

/-!
# Decoded graphs are placed

Decoding numbers the classes of a document and the methods of a class in the order in which they stand, and
links to other members leave the numbers as they are. So the graph of a document is placed
(`placed_of_graphOf`).

What reading an entry gives is said once for methods, for links and for classes: `read_of_unlinkedMethod`,
`read_of_link` and `read_of_classOf`. So is what one more entry does to a namespace (`run_declareChildren_cons`), what
a graph is made of (`graphOf_eq_ok_iff`), and when a text is decoded (`decode_eq_ok_iff`).
-/

namespace ClientForge.Document

open ClientForge.Graph

/-- What goes through a list gives each element a result at its own place. -/
theorem getElem?_of_mapM {ε α β : Type} {f : α → Except ε β} {xs : List α} {ys : List β}
    (h : xs.mapM f = .ok ys) {i : Nat} {y : β} (hy : ys[i]? = some y) :
    ∃ x, xs[i]? = some x ∧ f x = .ok y := by
  induction xs generalizing ys i with
  | nil =>
      cases h
      cases hy
  | cons x xs ih =>
      rw [List.mapM_cons] at h
      obtain ⟨y₀, hfirst, h⟩ := bind_eq_ok.mp h
      obtain ⟨rest, hrest, h⟩ := bind_eq_ok.mp h
      cases h
      cases i with
      | zero =>
          cases hy
          exact ⟨x, rfl, hfirst⟩
      | succ i => exact ih hrest hy

/-- What goes through a list has a result for each place in it. -/
theorem exists_getElem?_of_mapM {ε α β : Type} {f : α → Except ε β} {xs : List α} {ys : List β}
    (h : xs.mapM f = .ok ys) {i : Nat} {x : α} (hx : xs[i]? = some x) : ∃ y, ys[i]? = some y ∧ f x = .ok y := by
  have hlength := (mapM_eq_ok.mp h).length_eq
  obtain ⟨hi, -⟩ := List.getElem?_eq_some_iff.mp hx
  have hy : ys[i]? = some (ys[i]) := List.getElem?_eq_getElem (by omega)
  obtain ⟨x', hx', hfx⟩ := getElem?_of_mapM h hy
  rw [hx] at hx'
  cases hx'
  exact ⟨_, hy, hfx⟩

/-! ### Reading entries -/

section Members

/-- What the method of an entry is made of. -/
structure MethodRead (names : Names) (place : NamespaceRef) (slot : MethodId) (e : MethodEntry) (m : Method) :
    Prop where
  id : m.id = slot
  parent : m.parent = some slot.owner
  returnType : e.returnType.mapM (names.type place) = .ok m.returnType
  errorMappings : e.errorMappings.mapM (errorMapping names place) = .ok m.errorMappings
  parameters : (e.parameters.zipIdx.mapM fun (p, i) => parameter names place ⟨slot, i⟩ p) = .ok m.parameters

/-- What linking does to a method: only its links change, and they are to members of the class. -/
structure LinkRead (c : ClassDef) (m m' : Method) : Prop where
  eq : m' = { m with
    representedMethod := m'.representedMethod
    representedIndexer := m'.representedIndexer
    accessedProperty := m'.accessedProperty }
  represented_method : ∀ id, m'.representedMethod = some id →
    id.owner = c.id ∧ ∃ o, c.methods[id.index]? = some o ∧ o.isCommandBuilder = false
  represented_indexer : ∀ id, m'.representedIndexer = some id →
    id.owner = c.id ∧ ∃ x, c.indexers[id.index]? = some x
  accessed_property : ∀ id, m'.accessedProperty = some id →
    id.owner = c.id ∧ ∃ p, c.properties[id.index]? = some p

/-- What the class of an entry is made of. Its methods are linked against the class with all of them unlinked. -/
structure ClassRead (names : Names) (place : NamespaceRef) (slot : ClassId) (e : ClassEntry) (c : ClassDef) :
    Prop where
  id : c.id = slot
  name : c.name = e.name
  home : c.home = some place
  inherits : e.inherits.mapM (names.ref place) = .ok c.inherits
  implements : e.implements.mapM (names.ref place) = .ok c.implements
  discriminator : discriminator names place e.discriminator = .ok c.discriminator
  properties : e.properties.mapM (property names place slot) = .ok c.properties
  indexers : (e.indexers.zipIdx.mapM fun (x, i) => indexer names place ⟨slot, i⟩ x) = .ok c.indexers
  methods : ∃ unlinked,
    (e.methods.zipIdx.mapM fun (m, i) => unlinkedMethod names place ⟨slot, i⟩ m) = .ok unlinked ∧
      ((unlinked.zip e.methods).mapM fun (m, e) => link { c with methods := unlinked } m e) = .ok c.methods

variable {names : Names} {place : NamespaceRef}

/-- What a method is read as before its links are found. -/
theorem read_of_unlinkedMethod {id : MethodId} {e : MethodEntry} {m : Method}
    (h : unlinkedMethod names place id e = .ok m) : MethodRead names place id e m := by
  rw [unlinkedMethod, inContext, mapError_eq_ok] at h
  obtain ⟨_, _, h⟩ := bind_eq_ok.mp h
  obtain ⟨_, _, h⟩ := bind_eq_ok.mp h
  obtain ⟨returnType, hreturn, h⟩ := bind_eq_ok.mp h
  obtain ⟨errorMappings, herrors, h⟩ := bind_eq_ok.mp h
  obtain ⟨parameters, hparameters, h⟩ := bind_eq_ok.mp h
  cases h
  rw [inContext, mapError_eq_ok] at hreturn
  exact ⟨rfl, rfl, hreturn, herrors, hparameters⟩

/-- A link that is found leads to where the search ended. -/
theorem eq_of_linked {role name : String} {found : Option Nat} {i : Nat}
    (h : linked role name found = .ok (some i)) : found = some i := by
  unfold linked at h
  split at h
  · cases h
  · split at h
    · cases h
      rfl
    · cases h

/-- The index that a search ends with is one of the list. -/
theorem getElem?_of_lastIdx? {α : Type} {p : α → Bool} {xs : List α} {i : Nat} (h : lastIdx? p xs = some i) :
    ∃ x, xs[i]? = some x := by
  obtain ⟨⟨x, j⟩, hfound, rfl⟩ := Option.map_eq_some_iff.mp h
  have hmem := List.mem_reverse.mp (List.mem_of_find?_eq_some hfound)
  exact ⟨x, List.mk_mem_zipIdx_iff_getElem?.mp hmem⟩

theorem read_of_link {c : ClassDef} {m m' : Method} {e : MethodEntry} (h : link c m e = .ok m') :
    LinkRead c m m' := by
  rw [link, inContext, mapError_eq_ok] at h
  obtain ⟨method, hmethod, h⟩ := bind_eq_ok.mp h
  obtain ⟨indexer, hindexer, h⟩ := bind_eq_ok.mp h
  obtain ⟨property, hproperty, h⟩ := bind_eq_ok.mp h
  cases h
  refine ⟨rfl, fun id hid => ?_, fun id hid => ?_, fun id hid => ?_⟩
  · obtain ⟨i, rfl, rfl⟩ := Option.map_eq_some_iff.mp hid
    obtain ⟨hi, hfound, -⟩ := List.findIdx?_eq_some_iff_getElem.mp (eq_of_linked hmethod)
    rw [Bool.and_eq_true, Bool.not_eq_true'] at hfound
    exact ⟨rfl, _, List.getElem?_eq_getElem hi, hfound.2⟩
  · obtain ⟨i, rfl, rfl⟩ := Option.map_eq_some_iff.mp hid
    exact ⟨rfl, getElem?_of_lastIdx? (eq_of_linked hindexer)⟩
  · obtain ⟨i, rfl, rfl⟩ := Option.map_eq_some_iff.mp hid
    exact ⟨rfl, getElem?_of_lastIdx? (eq_of_linked hproperty)⟩

/-- What a class is read as. -/
theorem read_of_classOf {id : ClassId} {e : ClassEntry} {c : ClassDef} (h : classOf names place id e = .ok c) :
    ClassRead names place id e c := by
  rw [classOf, inContext, mapError_eq_ok] at h
  obtain ⟨_, _, h⟩ := bind_eq_ok.mp h
  obtain ⟨inherits, hinherits, h⟩ := bind_eq_ok.mp h
  obtain ⟨implements, himplements, h⟩ := bind_eq_ok.mp h
  obtain ⟨discriminator, hdiscriminator, h⟩ := bind_eq_ok.mp h
  obtain ⟨properties, hproperties, h⟩ := bind_eq_ok.mp h
  obtain ⟨indexers, hindexers, h⟩ := bind_eq_ok.mp h
  obtain ⟨unlinked, hunlinked, h⟩ := bind_eq_ok.mp h
  obtain ⟨methods, hmethods, h⟩ := bind_eq_ok.mp h
  cases h
  rw [inContext, mapError_eq_ok] at hinherits himplements
  exact ⟨rfl, rfl, rfl, hinherits, himplements, hdiscriminator, hproperties, hindexers, unlinked, hunlinked, hmethods⟩

/-- The class of an entry has the identity it was declared with, and its methods are numbered in order. -/
theorem classOf_placed {id : ClassId} {e : ClassEntry} {c : ClassDef}
    (h : classOf names place id e = .ok c) :
    c.id = id ∧ ∀ (i : Nat) (m : Method), c.methods[i]? = some m → m.id = ⟨id, i⟩ := by
  have hread := read_of_classOf h
  obtain ⟨unlinked, hunlinked, hmethods⟩ := hread.methods
  refine ⟨hread.id, fun i m hm => ?_⟩
  obtain ⟨⟨m₀, e₀⟩, hzip, hlink⟩ := getElem?_of_mapM hmethods hm
  obtain ⟨hm₀, _⟩ := List.getElem?_zip_eq_some.mp hzip
  obtain ⟨⟨e₁, j⟩, hindex, hmethod⟩ := getElem?_of_mapM hunlinked hm₀
  have hj : i = j := by
    rw [List.getElem?_zipIdx] at hindex
    obtain ⟨_, _, heq⟩ := Option.map_eq_some_iff.mp hindex
    cases heq
    omega
  rw [(read_of_link hlink).eq]
  exact hj ▸ (read_of_unlinkedMethod hmethod).id

end Members

/-! ### Declaring entries -/

/-- The child that an entry is declared in: the first with its name, or a new one behind all others. -/
inductive Opens (name : String) (ns : Namespace) (d : Declared) :
    List Namespace → Namespace → List Namespace → Declared → Prop
  | found {before after : List Namespace} {child : Namespace} (hchildren : ns.children = before ++ child :: after)
      (hname : child.name = name) : Opens name ns d before child after d
  | new (hname : name ∉ ns.children.map (·.name)) :
      Opens name ns d ns.children ((newNamespace ns.id name).run d).1 []
        ((newNamespace ns.id name).run d).2

/-- A child that an entry goes to, old or new, has the name that was sought. -/
theorem Opens.name_eq {ns child : Namespace} {before after : List Namespace} {d d₀ : Declared} {name : String}
    (h : Opens name ns d before child after d₀) : child.name = name := by
  cases h with
  | found _ hname => exact hname
  | new _ => rfl

/-- Declaring the first of some entries goes into one child; the others are declared after it. -/
theorem run_declareChildren_cons (entry : NamespaceEntry) (entries : List NamespaceEntry) (ns : Namespace)
    (d : Declared) : ∃ before child after d₀, Opens (childName ns.name entry.name) ns d before child after d₀ ∧
      (declareChildren (entry :: entries) ns).run d =
        (declareChildren entries { ns with children := before ++ ((declare entry child).run d₀).1 :: after }).run
          ((declare entry child).run d₀).2 := by
  have hspan := List.span_eq_takeWhile_dropWhile (fun n : Namespace => n.name != childName ns.name entry.name)
    ns.children
  have hjoin := List.takeWhile_append_dropWhile (p := fun n : Namespace => n.name != childName ns.name entry.name)
    (l := ns.children)
  cases hafter : ns.children.dropWhile (·.name != childName ns.name entry.name) with
  | nil =>
      rw [hafter] at hspan hjoin
      rw [List.append_nil] at hjoin
      have hname : childName ns.name entry.name ∉ ns.children.map (·.name) := by
        intro hmem
        obtain ⟨other, hother, heq⟩ := List.mem_map.mp hmem
        have hne := List.dropWhile_eq_nil_iff.mp hafter other hother
        simp [heq] at hne
      refine ⟨_, _, _, _, .new hname, ?_⟩
      rw [declareChildren, hspan, hjoin]
      rfl
  | cons child after =>
      rw [hafter] at hspan hjoin
      have hname : child.name = childName ns.name entry.name := by
        have hhead := List.head?_dropWhile_not (fun n : Namespace => n.name != childName ns.name entry.name) ns.children
        rw [hafter] at hhead
        simpa using hhead
      refine ⟨_, _, _, _, .found hjoin.symm hname, ?_⟩
      rw [declareChildren, hspan]
      rfl

mutual

/-- Declaring leaves a namespace what it is. -/
theorem ref_declare : ∀ (entry : NamespaceEntry) (ns : Namespace) (d : Declared),
    ((declare entry ns).run d).1.ref = ns.ref
  | ⟨_, _, _, namespaces⟩, _, _ => ref_declareChildren namespaces _ _

/-- Declaring children changes neither the identity nor the name of a namespace. -/
theorem ref_declareChildren : ∀ (entries : List NamespaceEntry) (ns : Namespace) (d : Declared),
    ((declareChildren entries ns).run d).1.ref = ns.ref
  | [], _, _ => rfl
  | entry :: entries, ns, d => by
      obtain ⟨_, _, _, _, -, hrun⟩ := run_declareChildren_cons entry entries ns d
      rw [hrun]
      exact ref_declareChildren entries _ _

end

/-! ### Graphs -/

/-- What the graph of a document is made of. -/
theorem graphOf_eq_ok_iff {entry : NamespaceEntry} {g : Graph} :
    graphOf entry = .ok g ↔ Text.isBlankText entry.name = false ∧
      ∃ root declared, (declare entry { id := ⟨0⟩, name := entry.name }).run {} = (root, declared) ∧
        ∃ classes, (declared.classes.toList.zipIdx.mapM fun (c, i) =>
            classOf ⟨root.ref, declared.all⟩ c.place ⟨i⟩ c.entry) = .ok classes ∧
          g = { root, classes := classes.toArray, enums := declared.enums } := by
  simp only [graphOf]
  cases Text.isBlankText entry.name with
  | true => simp [bind, Except.bind, throw, throwThe, MonadExceptOf.throw]
  | false =>
      simp only [Bool.false_eq_true, if_false, true_and]
      constructor
      · intro h
        obtain ⟨classes, hclasses, h⟩ := bind_eq_ok.mp h
        cases h
        exact ⟨_, _, rfl, classes, hclasses, rfl⟩
      · rintro ⟨root, declared, hdeclare, classes, hclasses, rfl⟩
        rw [hdeclare]
        exact bind_eq_ok.mpr ⟨classes, hclasses, rfl⟩

/-- A text is decoded if it describes a document that has a graph. -/
theorem decode_eq_ok_iff {text : String} {source : Source} :
    decode text = .ok source ↔ ∃ entry, Outcome.ofText text = .read entry ∧ graphOf entry = .ok source.graph ∧
      source.hash = Text.Digest.sha256 text := by
  unfold decode
  cases Outcome.ofText text with
  | read entry =>
      simp only [Outcome.read.injEq, exists_eq_left']
      constructor
      · intro h
        obtain ⟨g, hg, h⟩ := bind_eq_ok.mp h
        cases h
        exact ⟨hg, rfl⟩
      · rintro ⟨hg, hhash⟩
        exact bind_eq_ok.mpr ⟨source.graph, hg, by rw [← hhash]; rfl⟩
  | _ => simp

theorem placed_of_graphOf {entry : NamespaceEntry} {g : Graph} (h : graphOf entry = .ok g) :
    g.Placed := by
  obtain ⟨-, root, declared, -, classes, hclasses, rfl⟩ := graphOf_eq_ok_iff.mp h
  have hplaced : ∀ (i : Nat) (c : ClassDef), classes[i]? = some c →
      c.id = ⟨i⟩ ∧ ∀ (j : Nat) (m : Method), c.methods[j]? = some m → m.id = ⟨⟨i⟩, j⟩ := by
    intro i c hc
    obtain ⟨⟨declaration, j⟩, hindex, hclass⟩ := getElem?_of_mapM hclasses hc
    rw [List.getElem?_zipIdx] at hindex
    obtain ⟨_, _, heq⟩ := Option.map_eq_some_iff.mp hindex
    cases heq
    simpa using classOf_placed hclass
  constructor
  · intro i c hc
    exact (hplaced i c (by simpa using hc)).1
  · intro c hc i m hm
    obtain ⟨k, hk⟩ := Array.mem_iff_getElem?.mp hc
    obtain ⟨hid, hmethods⟩ := hplaced k c (by simpa using hk)
    rw [hid]
    exact hmethods i m hm

end ClientForge.Document
