import ClientForge.Proofs.Document.Paths
import ClientForge.Proofs.Document.Tables

/-!
# What decoding keeps

A document lists classes and enums in namespaces, at any depth and in any number of entries for one namespace. Declaring
goes through these entries one by one and records each class and each enum behind those before it (`records_declare`);
filling in the classes reads each member from its entry.

* `keeps_property`, `keeps_indexer`, `keeps_method`: what a member has of its entry;
* **`keeps_classes`**, **`keeps_enums`.** The tables of a graph are the entries of the document, in order.
* **`entries_kept_once`.** So a walk through a decoded graph meets each class and each enum of the document once, in the
  namespace of its path, with one member for each entry of a member.
-/

namespace ClientForge.Document

open ClientForge.Graph

namespace NamespaceEntry

/-- The classes of a document, each with the path of the namespace entry that holds it. -/
def placedClasses (entry : NamespaceEntry) : List (List String × ClassEntry) :=
  (entry.spaces [entry.name]).flatMap fun x => x.2.classes.map (x.1, ·)

/-- The enums of a document, each with the path of the namespace entry that holds it. -/
def placedEnums (entry : NamespaceEntry) : List (List String × EnumEntry) :=
  (entry.spaces [entry.name]).flatMap fun x => x.2.enums.map (x.1, ·)

end NamespaceEntry

/-! ### Declaring -/

/-- What an enum has of its entry. -/
structure EnumRead (x : List String × EnumEntry) (e : Enum) : Prop where
  name : e.name = x.2.name
  home : ∃ place, e.home = some place ∧ place.name = ".".intercalate x.1
  options : e.options = x.2.options.map fun o => ⟨o.name, o.serializationName, o.text.documentation⟩
  flags : e.flags = x.2.flags
  documentation : e.documentation = x.2.text.documentation

/-- A class that waits for its members has its entry and the name of its namespace. -/
structure ClassPlaced (x : List String × ClassEntry) (c : PlacedClass) : Prop where
  entry : c.entry = x.2
  place : c.place.name = ".".intercalate x.1

/-- Namespace entries have been declared, one after another: what they list comes behind what there was. -/
structure Records (d : Declared) (spaces : List (List String × NamespaceEntry)) (d' : Declared) : Prop where
  enums : ∃ new, d'.enums.toList = d.enums.toList ++ new ∧
    List.Forall₂ EnumRead (spaces.flatMap fun x => x.2.enums.map (x.1, ·)) new
  classes : ∃ new, d'.classes.toList = d.classes.toList ++ new ∧
    List.Forall₂ ClassPlaced (spaces.flatMap fun x => x.2.classes.map (x.1, ·)) new

section Declaring

variable {d d₁ d₂ : Declared} {xs ys : List (List String × NamespaceEntry)}

theorem Records.refl (d : Declared) : Records d [] d :=
  ⟨⟨[], by simp, .nil⟩, ⟨[], by simp, .nil⟩⟩

theorem Records.trans (h : Records d xs d₁) (h' : Records d₁ ys d₂) : Records d (xs ++ ys) d₂ := by
  obtain ⟨⟨enums, henums, hread⟩, ⟨classes, hclasses, hplaced⟩⟩ := h
  obtain ⟨⟨enums', henums', hread'⟩, ⟨classes', hclasses', hplaced'⟩⟩ := h'
  constructor
  · refine ⟨enums ++ enums', by rw [henums', henums, List.append_assoc], ?_⟩
    rw [List.flatMap_append]
    exact List.rel_append hread hread'
  · refine ⟨classes ++ classes', by rw [hclasses', hclasses, List.append_assoc], ?_⟩
    rw [List.flatMap_append]
    exact List.rel_append hplaced hplaced'

section Tables

variable {α β γ : Type} {f : α → Declare β} (table : Declared → Array γ)

/-- Steps that each add an element to a table add them in order. -/
theorem pushed_mapM {R : α → γ → Prop} (hf : ∀ a d, ∃ x, table ((f a).run d).2 = (table d).push x ∧ R a x) (as : List α)
    (d : Declared) : ∃ new, (table ((as.mapM f).run d).2).toList = (table d).toList ++ new ∧ List.Forall₂ R as new := by
  induction as generalizing d with
  | nil => exact ⟨[], (List.append_nil _).symm, .nil⟩
  | cons a as ih =>
      obtain ⟨x, hx, hread⟩ := hf a d
      obtain ⟨new, hnew, hrest⟩ := ih ((f a).run d).2
      rw [List.mapM_cons]
      refine ⟨x :: new, hnew.trans ?_, .cons hread hrest⟩
      rw [hx, Array.toList_push, List.append_assoc]
      rfl

/-- Steps that leave a table alone leave it alone together. -/
theorem kept_mapM (hf : ∀ a d, table ((f a).run d).2 = table d) (as : List α) (d : Declared) :
    table ((as.mapM f).run d).2 = table d := by
  induction as generalizing d with
  | nil => rfl
  | cons a as ih =>
      rw [List.mapM_cons]
      exact (ih ((f a).run d).2).trans (hf a d)

end Tables

/-- What one entry lists itself is recorded behind what there was. -/
theorem records_own (e : NamespaceEntry) {place : NamespaceRef} {path : List String}
    (hplace : place.name = ".".intercalate path) (d : Declared) : Records d [(path, e)]
      ((e.classes.mapM (declareClass place)).run ((e.enums.mapM (declareEnum place)).run d).2).2 := by
  have henum : ∀ x d, ∃ new, ((declareEnum place x).run d).2.enums = d.enums.push new ∧ EnumRead (path, x) new := by
    intro x d
    refine ⟨_, rfl, ?_⟩
    exact ⟨rfl, ⟨place, rfl, hplace⟩, rfl, rfl, rfl⟩
  have hclass : ∀ x d, ∃ new, ((declareClass place x).run d).2.classes = d.classes.push new ∧
      ClassPlaced (path, x) new := by
    intro x d
    exact ⟨⟨place, x⟩, rfl, rfl, hplace⟩
  obtain ⟨enums, henums, hread⟩ := pushed_mapM Declared.enums henum e.enums d
  have hkept := kept_mapM Declared.classes (fun x d => (rfl : ((declareEnum place x).run d).2.classes = _)) e.enums d
  obtain ⟨classes, hclasses, hplaced⟩ := pushed_mapM Declared.classes hclass e.classes
    ((e.enums.mapM (declareEnum place)).run d).2
  have hkept' := kept_mapM Declared.enums (fun x d => (rfl : ((declareClass place x).run d).2.enums = _)) e.classes
    ((e.enums.mapM (declareEnum place)).run d).2
  refine ⟨⟨enums, by rw [hkept', henums], ?_⟩, ⟨classes, by rw [hclasses, hkept], ?_⟩⟩
  · simpa using hread
  · simpa using hplaced

/-- Finding or opening a child records nothing. -/
theorem Opens.records {name : String} {ns child : Namespace} {before after : List Namespace}
    (h : Opens name ns d before child after d₁) : Records d [] d₁ := by
  cases h with
  | found _ _ => exact .refl d
  | new _ => exact ⟨⟨[], (List.append_nil _).symm, .nil⟩, ⟨[], (List.append_nil _).symm, .nil⟩⟩

mutual

/-- Declaring an entry that stands at a path records what it holds, and what those inside it hold. -/
theorem records_declare : ∀ (entry : NamespaceEntry) (ns : Namespace) (d : Declared) (path : List String),
    ns.name = ".".intercalate path → ns.name ≠ "" → Records d (entry.spaces path) ((declare entry ns).run d).2
  | ⟨_, enums, classes, namespaces⟩, ns, d, path, hname, hne => by
      exact (records_own ⟨_, enums, classes, namespaces⟩ (show ns.ref.name = _ from hname) d).trans
        (records_declareChildren namespaces _ _ path hname hne)

/-- The entries inside a namespace are recorded under their paths, in the order of the document. -/
theorem records_declareChildren : ∀ (entries : List NamespaceEntry) (ns : Namespace) (d : Declared)
    (path : List String), ns.name = ".".intercalate path → ns.name ≠ "" →
      Records d (NamespaceEntry.spacesOf path entries) ((declareChildren entries ns).run d).2
  | [], _, d, _, _, _ => .refl d
  | entry :: entries, ns, d, path, hname, hne => by
      obtain ⟨before, child, after, d₀, hopens, hrun⟩ := run_declareChildren_cons entry entries ns d
      have hjoin : childName ns.name entry.name = ".".intercalate (path ++ [entry.name]) :=
        childName_eq_intercalate hname hne
      have hchild : child.name ≠ "" := by
        rw [hopens.name_eq]
        exact childName_ne_empty hne
      have hfirst := records_declare entry child d₀ (path ++ [entry.name]) (hopens.name_eq.trans hjoin) hchild
      have hstart : Records d [] d₀ := hopens.records
      rw [hrun]
      exact (hstart.trans hfirst).trans (records_declareChildren entries _ _ path hname hne)

end

end Declaring

/-! ### Members -/

section Pairing

variable {α β γ : Type} {xs : List α} {ys : List β} {zs : List γ}

/-- Lists that are related to the same list are related to each other. -/
theorem forall₂_comp {R : α → β → Prop} {S : β → γ → Prop} (h : List.Forall₂ R xs ys) (h' : List.Forall₂ S ys zs) :
    List.Forall₂ (fun x z => ∃ y, R x y ∧ S y z) xs zs := by
  induction h generalizing zs with
  | nil =>
      cases h'
      exact .nil
  | cons hxy _ ih =>
      cases h' with
      | cons hyz hrest => exact .cons ⟨_, hxy, hyz⟩ (ih hrest)

/-- What goes through a list a second time meets what it has made of each element, beside the element. -/
theorem forall₂_zip_again {R : α → β → Prop} {S : β × α → γ → Prop} (h : List.Forall₂ R xs ys)
    (h' : List.Forall₂ S (ys.zip xs) zs) : List.Forall₂ (fun x z => ∃ y, R x y ∧ S (y, x) z) xs zs := by
  induction h generalizing zs with
  | nil =>
      cases h'
      exact .nil
  | cons hxy _ ih =>
      cases h' with
      | cons hz hrest => exact .cons ⟨_, hxy, hz⟩ (ih hrest)

/-- Where numbers do not matter, they can be forgotten. -/
theorem forall₂_of_zipIdx {R : α × Nat → β → Prop} (h : List.Forall₂ R xs.zipIdx ys) :
    List.Forall₂ (fun x y => ∃ i, R (x, i) y) xs ys := by
  rw [← List.zipIdx_map_fst 0 xs, List.forall₂_map_left_iff]
  exact h.imp fun x y hxy => ⟨x.2, hxy⟩

end Pairing

/-- What a property has of its entry. -/
structure PropertyKept (owner : ClassId) (e : PropertyEntry) (p : Property) : Prop where
  name : p.name = e.name
  serializationName : p.serializationName = e.serializationName
  kind : propertyKind e.kind = .ok p.kind
  access : accessLevel e.access = .ok p.access
  defaultValue : p.defaultValue = e.defaultValue
  readOnly : p.readOnly = e.readOnly
  inBase : p.inBase = e.inBase
  documentation : p.documentation = e.text.documentation
  parent : p.parent = some owner

/-- What an indexer has of its entry. -/
structure IndexerKept (owner : ClassId) (e : IndexerEntry) (x : Indexer) : Prop where
  name : x.name = e.name
  serializationName : x.serializationName = e.serializationName
  parameterName : x.parameterName = e.parameterName
  documentation : x.documentation = e.text.documentation
  parent : x.parent = some owner
  owner : x.id.owner = owner

/-- What a parameter has of its entry. -/
structure ParameterKept (e : ParameterEntry) (p : Parameter) : Prop where
  name : p.name = e.name
  serializationName : p.serializationName = e.serializationName
  kind : parameterKind e.kind = .ok p.kind
  optional : p.optional = e.optional
  defaultValue : p.defaultValue = e.defaultValue
  possibleValues : p.possibleValues = e.possibleValues
  documentation : p.documentation = e.text.documentation

/-- What a method has of its entry. -/
structure MethodKept (owner : ClassId) (e : MethodEntry) (m : Method) : Prop where
  name : m.name = e.name
  kind : methodKind e.kind = .ok m.kind
  access : accessLevel e.access = .ok m.access
  parameters : List.Forall₂ ParameterKept e.parameters m.parameters
  http : m.http = if e.http.isEmpty then none else some (Text.upper e.http)
  errorCodes : m.errorMappings.map (·.code) = e.errorMappings.map (·.code)
  acceptedResponseTypes : m.acceptedResponseTypes = e.acceptedResponseTypes
  bodyContentType : m.bodyContentType = e.bodyContentType
  paging : m.paging = e.paging.map fun p => ⟨p.itemName, p.nextLinkName, p.operationName⟩
  baseUrl : m.baseUrl = e.baseUrl
  serializerModules : m.serializerModules = e.serializerModules
  deserializerModules : m.deserializerModules = e.deserializerModules
  documentation : m.documentation = e.text.documentation
  parent : m.parent = some owner

section Members

variable {names : Names} {place : NamespaceRef}

/-- A property keeps what its entry says. -/
theorem keeps_property {owner : ClassId} {e : PropertyEntry} {p : Property}
    (h : property names place owner e = .ok p) : PropertyKept owner e p := by
  rw [property, inContext, mapError_eq_ok] at h
  obtain ⟨kind, hkind, h⟩ := bind_eq_ok.mp h
  obtain ⟨access, haccess, h⟩ := bind_eq_ok.mp h
  obtain ⟨type, -, h⟩ := bind_eq_ok.mp h
  cases h
  exact ⟨rfl, rfl, hkind, haccess, rfl, rfl, rfl, rfl, rfl⟩

/-- An indexer keeps what its entry says. -/
theorem keeps_indexer {id : IndexerId} {e : IndexerEntry} {x : Indexer} (h : indexer names place id e = .ok x) :
    IndexerKept id.owner e x := by
  rw [indexer, inContext, mapError_eq_ok] at h
  obtain ⟨indexType, -, h⟩ := bind_eq_ok.mp h
  obtain ⟨returnType, -, h⟩ := bind_eq_ok.mp h
  cases h
  exact ⟨rfl, rfl, rfl, rfl, rfl, rfl⟩

/-- A parameter keeps what its entry says. -/
theorem keeps_parameter {id : ParameterId} {e : ParameterEntry} {p : Parameter}
    (h : parameter names place id e = .ok p) : ParameterKept e p := by
  rw [parameter, inContext, mapError_eq_ok] at h
  obtain ⟨kind, hkind, h⟩ := bind_eq_ok.mp h
  obtain ⟨type, -, h⟩ := bind_eq_ok.mp h
  cases h
  exact ⟨rfl, rfl, hkind, rfl, rfl, rfl, rfl⟩

/-- The class of an error keeps its code. -/
theorem code_of_errorMapping {e : ErrorMappingEntry} {mapping : ErrorMapping}
    (h : errorMapping names place e = .ok mapping) : mapping.code = e.code := by
  rw [errorMapping, inContext, mapError_eq_ok] at h
  obtain ⟨type, -, h⟩ := bind_eq_ok.mp h
  cases h
  rfl

/-- A method keeps what its entry says, with its parameters and errors in order. -/
theorem keeps_unlinkedMethod {id : MethodId} {e : MethodEntry} {m : Method}
    (h : unlinkedMethod names place id e = .ok m) : MethodKept id.owner e m := by
  rw [unlinkedMethod, inContext, mapError_eq_ok] at h
  obtain ⟨kind, hkind, h⟩ := bind_eq_ok.mp h
  obtain ⟨access, haccess, h⟩ := bind_eq_ok.mp h
  obtain ⟨returnType, -, h⟩ := bind_eq_ok.mp h
  obtain ⟨errorMappings, herrors, h⟩ := bind_eq_ok.mp h
  obtain ⟨parameters, hparameters, h⟩ := bind_eq_ok.mp h
  cases h
  have hcodes : errorMappings.map (·.code) = e.errorMappings.map (·.code) := by
    rw [← List.forall₂_eq_eq_eq, List.forall₂_map_left_iff, List.forall₂_map_right_iff]
    exact ((mapM_eq_ok.mp herrors).imp fun _ _ => code_of_errorMapping).flip
  have hkept : List.Forall₂ ParameterKept e.parameters parameters := by
    refine (forall₂_of_zipIdx (mapM_eq_ok.mp hparameters)).imp ?_
    rintro x p ⟨i, hp⟩
    exact keeps_parameter hp
  exact ⟨rfl, hkind, haccess, hkept, rfl, hcodes, rfl, rfl, rfl, rfl, rfl, rfl, rfl, rfl⟩

/-- A method is linked after all methods of its class are there; that changes nothing that it has of its entry. -/
theorem keeps_method {owner : ClassId} {c : ClassDef} {e e' : MethodEntry} {u m : Method}
    (hread : MethodKept owner e u) (h : link c u e' = .ok m) : MethodKept owner e m := by
  rw [(read_of_link h).eq]
  exact { hread with }

variable {id : ClassId} {e : ClassEntry} {c : ClassDef}

/-- A class keeps its kind and its documentation. -/
theorem header_of_classOf (h : classOf names place id e = .ok c) :
    classKind e.kind = .ok c.kind ∧ c.documentation = e.text.documentation := by
  rw [classOf, inContext, mapError_eq_ok] at h
  obtain ⟨kind, hkind, h⟩ := bind_eq_ok.mp h
  obtain ⟨inherits, -, h⟩ := bind_eq_ok.mp h
  obtain ⟨implements, -, h⟩ := bind_eq_ok.mp h
  obtain ⟨discriminator, -, h⟩ := bind_eq_ok.mp h
  obtain ⟨properties, -, h⟩ := bind_eq_ok.mp h
  obtain ⟨indexers, -, h⟩ := bind_eq_ok.mp h
  obtain ⟨unlinked, -, h⟩ := bind_eq_ok.mp h
  obtain ⟨methods, -, h⟩ := bind_eq_ok.mp h
  cases h
  exact ⟨hkind, rfl⟩

theorem ClassRead.keeps_properties (h : ClassRead names place id e c) :
    List.Forall₂ (PropertyKept id) e.properties c.properties :=
  (mapM_eq_ok.mp h.properties).imp fun _ _ => keeps_property

theorem ClassRead.keeps_indexers (h : ClassRead names place id e c) :
    List.Forall₂ (IndexerKept id) e.indexers c.indexers := by
  refine (forall₂_of_zipIdx (mapM_eq_ok.mp h.indexers)).imp ?_
  rintro entry x ⟨i, hx⟩
  exact keeps_indexer hx

theorem ClassRead.keeps_methods (h : ClassRead names place id e c) :
    List.Forall₂ (MethodKept id) e.methods c.methods := by
  obtain ⟨unlinked, hunlinked, hmethods⟩ := h.methods
  have hfirst := forall₂_of_zipIdx (mapM_eq_ok.mp hunlinked)
  refine (forall₂_zip_again hfirst (mapM_eq_ok.mp hmethods)).imp ?_
  rintro entry m ⟨u, ⟨i, hu⟩, hlink⟩
  exact keeps_method (keeps_unlinkedMethod hu) hlink

end Members

/-! ### Graphs -/

/-- An element stands in the namespace whose name is a path, and is listed there. -/
def StandsAt (g : Graph) (path : List String) (d : Definition) : Prop :=
  ∃ n ∈ g.namespaces, n.name = ".".intercalate path ∧ d.home = some n.ref ∧ n.Lists d.id

/-- What a class of a graph has of its entry. -/
structure ClassKept (g : Graph) (x : List String × ClassEntry) (c : ClassDef) : Prop where
  name : c.name = x.2.name
  kind : classKind x.2.kind = .ok c.kind
  documentation : c.documentation = x.2.text.documentation
  home : StandsAt g x.1 (.ofClass c)
  properties : List.Forall₂ (PropertyKept c.id) x.2.properties c.properties
  indexers : List.Forall₂ (IndexerKept c.id) x.2.indexers c.indexers
  methods : List.Forall₂ (MethodKept c.id) x.2.methods c.methods

/-- What an enum of a graph has of its entry. -/
structure EnumKept (g : Graph) (x : List String × EnumEntry) (e : Enum) : Prop where
  read : EnumRead x e
  home : StandsAt g x.1 (.ofEnum e)

section Graphs

variable {entry : NamespaceEntry} {g : Graph}

/-- An element stands at the path that the name of its home is joined from. -/
theorem standsAt_of_home (hlinked : g.Linked) {d : Definition} (hd : g.Holds d) {place : NamespaceRef}
    (hhome : d.home = some place) {path : List String} (hplace : place.name = ".".intercalate path) :
    StandsAt g path d := by
  obtain ⟨n, hn, hhome', hlists⟩ := hlinked.home d hd
  obtain rfl : n.ref = place := Option.some.inj (hhome'.symm.trans hhome)
  exact ⟨n, hn, hplace, hhome', hlists⟩

theorem records_declaredOf (h : graphOf entry = .ok g) :
    Records {} (entry.spaces [entry.name]) (declaredOf entry) :=
  records_declare entry { id := ⟨0⟩, name := entry.name } {} [entry.name] rfl (name_ne_empty_of_graphOf h)

/-- The table of classes has the classes of the document, in order. -/
theorem keeps_classes (h : graphOf entry = .ok g) :
    List.Forall₂ (ClassKept g) entry.placedClasses g.classes.toList := by
  have hlinked := linked_of_graphOf h
  obtain ⟨new, hnew, hplaced⟩ := (records_declaredOf h).classes
  obtain ⟨-, classes, hclasses, hg⟩ := graphOf_eq_ok_iff_declaredOf.mp h
  have htable : g.classes.toList = classes := by rw [hg]
  have hnew : (declaredOf entry).classes.toList = new := hnew
  rw [hnew] at hclasses
  have hread := forall₂_comp hplaced (forall₂_of_zipIdx (mapM_eq_ok.mp hclasses))
  have hmem : ∀ c ∈ classes, c ∈ g.classes := fun c hc => Array.mem_def.mpr (htable ▸ hc)
  rw [htable]
  refine ((List.forall₂_and_left _ _).mpr ⟨hmem, hread.flip⟩).flip.imp ?_
  rintro ⟨path, e⟩ c ⟨hc, placed, ⟨rfl, hplace⟩, i, hclass⟩
  have hread := read_of_classOf hclass
  obtain ⟨hkind, hdocumentation⟩ := header_of_classOf hclass
  have hheld : g.Holds (.ofClass c) := holds_class (hlinked.identity c hc)
  have hid := hread.id.symm
  exact ⟨hread.name, hkind, hdocumentation, standsAt_of_home hlinked hheld hread.home hplace,
    hid ▸ hread.keeps_properties, hid ▸ hread.keeps_indexers, hid ▸ hread.keeps_methods⟩

/-- The table of enums has the enums of the document, in order. -/
theorem keeps_enums (h : graphOf entry = .ok g) : List.Forall₂ (EnumKept g) entry.placedEnums g.enums.toList := by
  have hlinked := linked_of_graphOf h
  have hhoused := housed_of_graphOf h
  obtain ⟨new, hnew, hread⟩ := (records_declaredOf h).enums
  obtain ⟨-, classes, -, hg⟩ := graphOf_eq_ok_iff_declaredOf.mp h
  have htable : g.enums.toList = new := by
    rw [hg]
    exact hnew
  have hmem : ∀ e ∈ new, e ∈ g.enums := fun e he => Array.mem_def.mpr (htable ▸ he)
  rw [htable]
  refine ((List.forall₂_and_left _ _).mpr ⟨hmem, hread.flip⟩).flip.imp ?_
  rintro x e ⟨he, hread⟩
  obtain ⟨place, hhome, hplace⟩ := hread.home
  obtain ⟨i, hi⟩ := Array.mem_iff_getElem?.mp he
  have hheld : g.Holds (.ofEnum e) := ⟨.ofEnum ⟨i⟩, by simp [definition?, enum?, hi]⟩
  exact ⟨hread, standsAt_of_home hlinked hheld hhome hplace⟩

theorem nodup_enums (h : g.Housed) : (g.enums.toList.map (·.id)).Nodup := by
  rw [List.Nodup, List.pairwise_map, List.pairwise_iff_getElem]
  intro i j hi hj hij heq
  rw [Array.getElem_toList, Array.getElem_toList, h.enum_id i _ (Array.getElem?_eq_getElem _),
    h.enum_id j _ (Array.getElem?_eq_getElem _)] at heq
  cases heq
  exact Nat.lt_irrefl i hij

end Graphs

/-- A decoded graph has the classes and enums of the document and no others. Whichever namespace entry lists a class or
an enum, and however often one namespace is entered, a walk through the graph meets one element for it, in the
namespace whose name is the path of the entry; each class has one property, indexer and method for each of its entries,
in order. -/
theorem entries_kept_once {text : String} {source : Source} (h : decode text = .ok source) :
    ∃ entry, Outcome.ofText text = .read entry ∧
      (∃ classes, source.graph.allClasses.Perm classes ∧
        List.Forall₂ (ClassKept source.graph) entry.placedClasses classes) ∧
      (source.graph.allClasses.map (·.id)).Nodup ∧
      (∃ enums, source.graph.allEnums.Perm enums ∧
        List.Forall₂ (EnumKept source.graph) entry.placedEnums enums) ∧
      (source.graph.allEnums.map (·.id)).Nodup := by
  obtain ⟨entry, hread, hg, -⟩ := decode_eq_ok_iff.mp h
  have hclasses := allClasses_perm hg
  have henums := allEnums_perm hg
  refine ⟨entry, hread, ⟨_, hclasses, keeps_classes hg⟩, ?_, ⟨_, henums, keeps_enums hg⟩, ?_⟩
  · exact (hclasses.map _).nodup_iff.mpr (placed_of_graphOf hg).nodup_classes
  · exact (henums.map _).nodup_iff.mpr (nodup_enums (housed_of_graphOf hg))

/-- A document with two entries for one namespace, which both have a class of the same name. -/
def twiceEntered : String :=
  "name: A\nnamespaces:\n- name: b\n  classes:\n" ++
    "  - name: C\n    properties: [{name: q, type: byte}, {name: p, type: byte}]\n" ++
    "- name: b\n  enums: [{name: E}]\n  classes: [{name: C}]\n"

def twiceEntry : NamespaceEntry where
  name := "A"
  namespaces := [
    { name := "b"
      classes := [{
        name := "C"
        properties := [{ name := "q", type := { name := "byte" } }, { name := "p", type := { name := "byte" } }] }] },
    { name := "b", enums := [{ name := "E" }], classes := [{ name := "C" }] }]

/-- Classes of one name in a namespace that is entered twice are all kept, each with its members in order. -/
theorem twice_entered_kept : ∃ source, decode twiceEntered = .ok source ∧
    Outcome.ofText twiceEntered = .read twiceEntry ∧
    twiceEntry.placedClasses.map (fun x => (x.1, x.2.name, x.2.properties.map (·.name))) =
      [(["A", "b"], "C", ["q", "p"]), (["A", "b"], "C", [])] ∧
    source.graph.allClasses.map (fun c => (c.qualifiedName, c.properties.map (·.name))) =
      [("A.b.C", ["q", "p"]), ("A.b.C", [])] ∧
    source.graph.allEnums.map (·.qualifiedName) = ["A.b.E"] ∧
    (∃ classes, source.graph.allClasses.Perm classes ∧
      List.Forall₂ (ClassKept source.graph) twiceEntry.placedClasses classes) ∧
    ∃ enums, source.graph.allEnums.Perm enums ∧ List.Forall₂ (EnumKept source.graph) twiceEntry.placedEnums enums := by
  have hsample : Outcome.ofText twiceEntered = .read twiceEntry ∧
      (graphOf twiceEntry).toOption.map (fun g =>
        (g.allClasses.map fun c => (c.qualifiedName, c.properties.map (·.name)), g.allEnums.map (·.qualifiedName))) =
        some ([("A.b.C", ["q", "p"]), ("A.b.C", [])], ["A.b.E"]) := by
    decide +kernel
  obtain ⟨hread, hgraph⟩ := hsample
  obtain ⟨g, hg, hlists⟩ := exists_ok_of_toOption hgraph
  obtain ⟨hclasses, henums⟩ := Prod.mk.inj hlists
  have hdecode : decode twiceEntered = .ok ⟨g, Text.Digest.sha256 twiceEntered⟩ :=
    decode_eq_ok_iff.mpr ⟨twiceEntry, hread, hg, rfl⟩
  obtain ⟨entry, hread', hkept, -, hkept', -⟩ := entries_kept_once hdecode
  obtain rfl : twiceEntry = entry := Outcome.read.inj (hread.symm.trans hread')
  exact ⟨_, hdecode, hread, rfl, hclasses, henums, hkept, hkept'⟩

end ClientForge.Document
