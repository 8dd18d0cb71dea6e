import ClientForge.Proofs.Document.Homes

/-!
# References in decoded classes

What a type in a document means is looked up among the declarations, so a type of a decoded class refers to a
declared element or to none (`known_of_ref`, `known_of_type`). A method stands for members of its own class:
links are places in the lists of that class, and linking leaves the lists as long as they were.

* **`known_of_classOf`.** All references of a decoded class are to declared elements.
* **`tied_of_classOf`.** The members of a decoded class belong to it, and what its methods stand for does too.
-/

namespace ClientForge

namespace Graph

mutual

/-- The references in a type, those in the members of a composed one included. -/
def TypeExpr.refs : TypeExpr → List TypeRef
  | .scalar ref => [ref]
  | .composed _ _ members _ => TypeExpr.refsOf members

def TypeExpr.refsOf : List TypeExpr → List TypeRef
  | [] => []
  | t :: ts => t.refs ++ TypeExpr.refsOf ts

end

def Property.typeRefs (p : Property) : List TypeRef := p.type.toList.flatMap TypeExpr.refs

def Indexer.typeRefs (x : Indexer) : List TypeRef := x.indexType :: x.returnType.toList

def Method.typeRefs (m : Method) : List TypeRef :=
  m.returnType.toList.flatMap TypeExpr.refs ++ m.parameters.flatMap (·.type.refs) ++ m.errorMappings.map (·.type)

/-- All references of a class and its members. -/
def ClassDef.typeRefs (c : ClassDef) : List TypeRef :=
  c.inherits.toList ++ c.implements ++ c.discriminator.mappings.flatMap (·.type.toList) ++
    c.properties.flatMap Property.typeRefs ++ c.indexers.flatMap Indexer.typeRefs ++
    c.methods.flatMap Method.typeRefs

/-- The members of a class belong to it, and its methods stand for members of it. -/
structure ClassDef.Tied (c : ClassDef) : Prop where
  property_parent : ∀ p ∈ c.properties, p.parent = some c.id
  method_parent : ∀ m ∈ c.methods, m.parent = some c.id
  indexer_owner : ∀ x ∈ c.indexers, x.id.owner = c.id
  indexer_parent : ∀ x ∈ c.indexers, x.parent = some c.id
  represented_method : ∀ m ∈ c.methods, ∀ id, m.representedMethod = some id →
    id.owner = c.id ∧ ∃ o, c.methods[id.index]? = some o ∧ o.isCommandBuilder = false
  represented_indexer : ∀ m ∈ c.methods, ∀ id, m.representedIndexer = some id →
    id.owner = c.id ∧ ∃ x, c.indexers[id.index]? = some x
  accessed_property : ∀ m ∈ c.methods, ∀ id, m.accessedProperty = some id →
    id.owner = c.id ∧ ∃ p, c.properties[id.index]? = some p

end Graph

namespace Document

open ClientForge.Graph

/-! ### Types -/

/-- A reference is to a declared element, or to none. -/
def Names.Knows (names : Names) (t : TypeRef) : Prop :=
  ∀ id, t.definition = some id → ∃ x ∈ names.declared, x.definition = id

section Types

variable {names : Names} {place : NamespaceRef}

theorem mem_of_lookup {name : String} {x : Declaration} (h : names.lookup name place = .ok (some x)) :
    x ∈ names.declared := by
  unfold Names.lookup at h
  split at h
  · next hfound =>
    cases h
    obtain ⟨fullName, -, hx⟩ := List.exists_of_findSome?_eq_some hfound
    exact List.mem_of_find?_eq_some hx
  · split at h
    · cases h
    · next hone =>
      cases h
      have hmem : x ∈ names.declared.filter (·.name == name) := by
        rw [hone]
        exact List.mem_singleton_self x
      exact (List.mem_filter.mp hmem).1
    · cases h

theorem known_of_ref {t : TypeEntry} {r : TypeRef} (h : names.ref place t = .ok r) : names.Knows r := by
  simp only [Names.ref] at h
  split at h
  · cases h
  split at h
  · cases h
  obtain ⟨found, hfound, h⟩ := bind_eq_ok.mp h
  split at h
  · cases h
  · split at h
    · cases h
      rintro id ⟨⟩
      exact ⟨_, mem_of_lookup hfound, rfl⟩
    · cases h
      rintro id ⟨⟩

mutual

/-- The names in a type were resolved, however deep they stand in unions and intersections. -/
theorem known_of_type : ∀ (t : TypeEntry) (type : TypeExpr), names.type place t = .ok type →
    ∀ r ∈ type.refs, names.Knows r
  | ⟨name, collection, nullable, union, intersection⟩, type, h => by
      rw [Names.type] at h
      split at h
      · obtain ⟨members, hmembers, h⟩ := bind_eq_ok.mp h
        cases h
        exact known_of_types union members hmembers
      · split at h
        · obtain ⟨members, hmembers, h⟩ := bind_eq_ok.mp h
          cases h
          exact known_of_types intersection members hmembers
        · obtain ⟨ref, href, h⟩ := bind_eq_ok.mp h
          cases h
          intro r hr
          obtain rfl := List.mem_singleton.mp hr
          exact known_of_ref href

/-- The same for the types that another one is composed of. -/
theorem known_of_types : ∀ (ts : List TypeEntry) (types : List TypeExpr), names.types place ts = .ok types →
    ∀ r ∈ TypeExpr.refsOf types, names.Knows r
  | [], types, h => by
      cases h
      exact List.forall_mem_nil _
  | t :: ts, types, h => by
      obtain ⟨first, hfirst, h⟩ := bind_eq_ok.mp h
      obtain ⟨rest, hrest, h⟩ := bind_eq_ok.mp h
      cases h
      exact List.forall_mem_append.mpr ⟨known_of_type t first hfirst, known_of_types ts rest hrest⟩

end

end Types

/-! ### Members -/

section Members

variable {names : Names} {place : NamespaceRef}

/-- If each result refers to declared elements only, so do all of them together. -/
theorem known_of_mapM {α β : Type} {f : α → Except Failure β} {refs : β → List TypeRef}
    (hf : ∀ a b, f a = .ok b → ∀ r ∈ refs b, names.Knows r) {xs : List α} {ys : List β}
    (h : xs.mapM f = .ok ys) : ∀ r ∈ ys.flatMap refs, names.Knows r := by
  intro r hr
  obtain ⟨y, hy, hr⟩ := List.mem_flatMap.mp hr
  obtain ⟨x, -, hx⟩ := exists_of_mem_right (mapM_eq_ok.mp h) hy
  exact hf x y hx r hr

/-- What may be left out has no names if it is. -/
theorem known_of_option {α β : Type} {f : α → Except Failure β} {refs : β → List TypeRef}
    (hf : ∀ a b, f a = .ok b → ∀ r ∈ refs b, names.Knows r) {x : Option α} {y : Option β}
    (h : x.mapM f = .ok y) : ∀ r ∈ y.toList.flatMap refs, names.Knows r := by
  cases x with
  | none =>
      cases h
      exact List.forall_mem_nil _
  | some a =>
      obtain ⟨b, hb, h⟩ := bind_eq_ok.mp h
      cases h
      simpa using hf a b hb

/-- A property knows its class, and the names in its type were resolved. -/
theorem read_of_property {owner : ClassId} {e : PropertyEntry} {p : Property}
    (h : property names place owner e = .ok p) : p.parent = some owner ∧ ∀ r ∈ p.typeRefs, names.Knows r := by
  rw [property, inContext, mapError_eq_ok] at h
  obtain ⟨_, _, h⟩ := bind_eq_ok.mp h
  obtain ⟨_, _, h⟩ := bind_eq_ok.mp h
  obtain ⟨type, htype, h⟩ := bind_eq_ok.mp h
  cases h
  refine ⟨rfl, ?_⟩
  simpa [Property.typeRefs] using known_of_type e.type type htype

/-- An indexer has its own identity, knows its class, and the names in its types were resolved. -/
theorem read_of_indexer {id : IndexerId} {e : IndexerEntry} {x : Indexer} (h : indexer names place id e = .ok x) :
    x.id = id ∧ x.parent = some id.owner ∧ ∀ r ∈ x.typeRefs, names.Knows r := by
  rw [indexer, inContext, mapError_eq_ok] at h
  obtain ⟨indexType, hindex, h⟩ := bind_eq_ok.mp h
  obtain ⟨returnType, hreturn, h⟩ := bind_eq_ok.mp h
  cases h
  refine ⟨rfl, rfl, ?_⟩
  simp only [Indexer.typeRefs, Option.toList_some, List.forall_mem_cons]
  exact ⟨known_of_ref hindex, known_of_ref hreturn, List.forall_mem_nil _⟩

/-- The names in the type of a parameter were resolved. -/
theorem known_of_parameter {id : ParameterId} {e : ParameterEntry} {p : Parameter}
    (h : parameter names place id e = .ok p) : ∀ r ∈ p.type.refs, names.Knows r := by
  rw [parameter, inContext, mapError_eq_ok] at h
  obtain ⟨_, _, h⟩ := bind_eq_ok.mp h
  obtain ⟨type, htype, h⟩ := bind_eq_ok.mp h
  cases h
  exact known_of_type e.type type htype

/-- The class of an error was resolved. -/
theorem known_of_errorMapping {e : ErrorMappingEntry} {mapping : ErrorMapping}
    (h : errorMapping names place e = .ok mapping) : names.Knows mapping.type := by
  rw [errorMapping, inContext, mapError_eq_ok] at h
  obtain ⟨type, htype, h⟩ := bind_eq_ok.mp h
  cases h
  exact known_of_ref htype

/-- The names in a method were resolved: of its return type, its parameters and its errors. -/
theorem MethodRead.known {id : MethodId} {e : MethodEntry} {m : Method} (h : MethodRead names place id e m) :
    ∀ r ∈ m.typeRefs, names.Knows r := by
  simp only [Method.typeRefs, List.forall_mem_append]
  refine ⟨⟨known_of_option known_of_type h.returnType, ?_⟩, ?_⟩
  · exact known_of_mapM (fun _ _ h => known_of_parameter h) h.parameters
  · rw [List.map_eq_flatMap]
    exact known_of_mapM (fun _ _ h => by simpa using known_of_errorMapping h) h.errorMappings

/-- The classes that a discriminator leads to were resolved. -/
theorem known_of_discriminator {e : Option DiscriminatorEntry} {d : Discriminator}
    (h : discriminator names place e = .ok d) : ∀ r ∈ d.mappings.flatMap (·.type.toList), names.Knows r := by
  cases e with
  | none =>
      cases h
      exact List.forall_mem_nil _
  | some e =>
      obtain ⟨mappings, hmappings, h⟩ := bind_eq_ok.mp h
      cases h
      refine known_of_mapM (fun entry mapping hmapping => ?_) hmappings
      rw [discriminatorMapping, inContext, mapError_eq_ok] at hmapping
      obtain ⟨type, htype, hmapping⟩ := bind_eq_ok.mp hmapping
      cases hmapping
      simpa using known_of_ref htype

end Members

/-! ### Classes -/

section Classes

variable {names : Names} {place : NamespaceRef} {id : ClassId} {e : ClassEntry} {c : ClassDef}

/-- Each method comes from an unlinked one, which it leaves at its place. -/
theorem ClassRead.method (h : ClassRead names place id e c) :
    ∃ unlinked : List Method,
      (∀ m ∈ c.methods, ∃ u i e', MethodRead names place ⟨id, i⟩ e' u ∧
        LinkRead { c with methods := unlinked } u m) ∧
      ∀ (i : Nat) (u : Method), unlinked[i]? = some u → ∃ m, c.methods[i]? = some m ∧ m.kind = u.kind := by
  obtain ⟨unlinked, hunlinked, hmethods⟩ := h.methods
  refine ⟨unlinked, fun m hm => ?_, fun i u hu => ?_⟩
  · obtain ⟨⟨u, e'⟩, hzip, hlink⟩ := exists_of_mem_right (mapM_eq_ok.mp hmethods) hm
    obtain ⟨⟨entry, i⟩, -, hmethod⟩ := exists_of_mem_right (mapM_eq_ok.mp hunlinked) (List.of_mem_zip hzip).1
    exact ⟨u, i, entry, read_of_unlinkedMethod hmethod, read_of_link hlink⟩
  · obtain ⟨⟨entry, j⟩, hentry, -⟩ := getElem?_of_mapM hunlinked hu
    rw [List.getElem?_zipIdx] at hentry
    obtain ⟨entry, hentry, -⟩ := Option.map_eq_some_iff.mp hentry
    have hzip : (unlinked.zip e.methods)[i]? = some (u, entry) := List.getElem?_zip_eq_some.mpr ⟨hu, hentry⟩
    obtain ⟨m, hm, hlink⟩ := exists_getElem?_of_mapM hmethods hzip
    exact ⟨m, hm, by rw [(read_of_link hlink).eq]⟩

theorem known_of_classOf (h : classOf names place id e = .ok c) : ∀ r ∈ c.typeRefs, names.Knows r := by
  have hread := read_of_classOf h
  simp only [ClassDef.typeRefs, List.forall_mem_append]
  refine ⟨⟨⟨⟨⟨?_, ?_⟩, known_of_discriminator hread.discriminator⟩, ?_⟩, ?_⟩, ?_⟩
  · rw [← List.flatMap_singleton' c.inherits.toList]
    exact known_of_option (fun _ _ h => by simpa using known_of_ref h) hread.inherits
  · rw [← List.flatMap_singleton' c.implements]
    exact known_of_mapM (fun _ _ h => by simpa using known_of_ref h) hread.implements
  · exact known_of_mapM (fun _ _ h => (read_of_property h).2) hread.properties
  · exact known_of_mapM (fun _ _ h => (read_of_indexer h).2.2) hread.indexers
  · intro r hr
    obtain ⟨unlinked, hfrom, -⟩ := hread.method
    obtain ⟨m, hm, hr⟩ := List.mem_flatMap.mp hr
    obtain ⟨u, i, e', hmethod, hlink⟩ := hfrom m hm
    rw [hlink.eq] at hr
    exact hmethod.known r hr

theorem tied_of_classOf (h : classOf names place id e = .ok c) : c.Tied := by
  have hread := read_of_classOf h
  obtain ⟨unlinked, hfrom, hkept⟩ := hread.method
  constructor
  case property_parent =>
    intro p hp
    obtain ⟨_, -, hproperty⟩ := exists_of_mem_right (mapM_eq_ok.mp hread.properties) hp
    rw [(read_of_property hproperty).1, hread.id]
  case method_parent =>
    intro m hm
    obtain ⟨u, i, e', hmethod, hlink⟩ := hfrom m hm
    rw [hlink.eq, hread.id]
    exact hmethod.parent
  case indexer_owner =>
    intro x hx
    obtain ⟨_, -, hindexer⟩ := exists_of_mem_right (mapM_eq_ok.mp hread.indexers) hx
    rw [(read_of_indexer hindexer).1, hread.id]
  case indexer_parent =>
    intro x hx
    obtain ⟨_, -, hindexer⟩ := exists_of_mem_right (mapM_eq_ok.mp hread.indexers) hx
    rw [(read_of_indexer hindexer).2.1, hread.id]
  case represented_method =>
    intro m hm id hid
    obtain ⟨u, i, e', -, hlink⟩ := hfrom m hm
    obtain ⟨howner, o, ho, hkind⟩ := hlink.represented_method id hid
    -- The method that was found is unlinked: the one that took its place has the same kind.
    obtain ⟨o', ho', hsame⟩ := hkept _ o ho
    refine ⟨howner, o', ho', ?_⟩
    rw [Method.isCommandBuilder, hsame]
    exact hkind
  case represented_indexer =>
    intro m hm
    obtain ⟨u, i, e', -, hlink⟩ := hfrom m hm
    exact hlink.represented_indexer
  case accessed_property =>
    intro m hm
    obtain ⟨u, i, e', -, hlink⟩ := hfrom m hm
    exact hlink.accessed_property

end Classes

end Document

end ClientForge
