import ClientForge.Proofs.Graph.Valid
import Mathlib.Data.List.Nodup
import Mathlib.Logic.ExistsUnique

/-!
# Well-formed graphs

Validation runs through the classes of a graph and lists the rules that they break. Here the rules are said
without it, one after the other, for a class (`ClassDef.WellFormed`) and for a method in it
(`Method.WellFormed`). Validation is exact:

* `indexerOf_eq_ok_iff`: a class has one indexer at most, where methods that stand for the same one count once;
* `generatorOf_eq_ok_iff`: a request has its generator if its class has exactly one for the HTTP method;
* `kindViolations_eq_nil_iff`: what the kind of a method asks of it;
* **`valid_iff_wellFormed`.** A graph breaks no rule exactly if all its classes are well-formed.
-/

namespace ClientForge.Graph

/-! ### The rules -/

/-- Whether an indexer belongs to a class: it is declared there, or a method of the class stands for it. -/
def HasIndexer (g : Graph) (c : ClassDef) (x : Indexer) : Prop :=
  x ∈ c.indexers ∨ ∃ m ∈ c.methods, g.representedIndexer m = some x

/-- The kinds of class in which a kind of property has its place. A kind that is not mentioned has it in all. -/
structure PropertyKind.FitsIn (kind : PropertyKind) (place : ClassKind) : Prop where
  query : kind = .queryParameter → place = .queryParameters
  request : kind ∈ [.pathParameters, .urlTemplate, .requestAdapter] → place = .requestBuilder
  configuration : kind ∈ [.headers, .options, .queryParameters] → place = .requestConfiguration

/-- The kinds of class in which a kind of method has its place. A kind that is not mentioned has it in all. -/
structure MethodKind.FitsIn (kind : MethodKind) (place : ClassKind) : Prop where
  request : kind ∈ [.requestGenerator, .requestExecutor, .clientConstructor, .rawUrlConstructor,
    .requestBuilderWithParameters, .commandBuilder, .indexerBackwardCompatibility] → place = .requestBuilder
  data : kind ∈ [.serializer, .deserializer, .factory] → place = .model ∨ place = .errorDefinition
  query : kind = .queryParametersMapper → place = .queryParameters

/-- Whether a command builder stands for the construction of a client. -/
def BuildsClient (g : Graph) (m : Method) : Prop :=
  ∃ o, g.representedMethod m = some o ∧ o.kind = .clientConstructor

/-- A method of a class keeps the rules. -/
structure Method.WellFormed (g : Graph) (c : ClassDef) (m : Method) : Prop where
  parent : m.parent = some c.id
  result : m.returnType = none → m.kind ∈ [.constructor, .clientConstructor, .rawUrlConstructor]
  place : m.kind.FitsIn c.kind
  http : m.kind = .requestGenerator ∨ m.kind = .requestExecutor → m.http.isSome
  generator : m.kind = .requestExecutor →
    ∃! x, x ∈ c.methods ∧ x.kind = .requestGenerator ∧ x.http = m.http
  /-- No two of the three sources of a command are set. -/
  source : m.kind = .commandBuilder →
    ¬(m.representedIndexer.isSome ∧ m.accessedProperty.isSome) ∧
      ¬(m.representedIndexer.isSome ∧ g.BuildsClient m) ∧ ¬(m.accessedProperty.isSome ∧ g.BuildsClient m)
  input : m.kind = .queryParametersMapper → ∃ p ∈ m.parameters, p.kind = .queryParametersMapper

/-- A class keeps the rules. -/
structure ClassDef.WellFormed (g : Graph) (c : ClassDef) : Prop where
  indexer : ∀ x y, g.HasIndexer c x → g.HasIndexer c y → x.id = y.id
  keys : c.discriminator.mappings.Pairwise fun a b => a.key ≠ b.key
  targets : ∀ a ∈ c.discriminator.mappings, ∃ t target,
    a.type = some t ∧ g.classOf t = some target ∧ target ∈ g.allClasses
  properties : ∀ p ∈ c.properties, p.kind.FitsIn c.kind
  methods : ∀ m ∈ c.methods, m.WellFormed g c

/-- All classes that namespaces list keep the rules. -/
def WellFormed (g : Graph) : Prop := ∀ c ∈ g.allClasses, c.WellFormed g

variable {g : Graph} {c : ClassDef} {m : Method}

/-! ### One of a kind -/

section Single

variable {α : Type} {xs : List α}

theorem length_le_one_iff (h : xs.Nodup) : xs.length ≤ 1 ↔ ∀ x ∈ xs, ∀ y ∈ xs, x = y := by
  cases xs with
  | nil => simp
  | cons x rest =>
      cases rest with
      | nil => simp
      | cons y rest =>
          have hne : x ≠ y := fun heq => (List.nodup_cons.mp h).1 (heq ▸ List.mem_cons_self)
          refine iff_of_false (by simp) fun hall => ?_
          exact hne (hall x List.mem_cons_self y (List.mem_cons_of_mem _ List.mem_cons_self))

theorem eq_singleton_iff (h : xs.Nodup) : (∃ x, xs = [x]) ↔ ∃! x, x ∈ xs := by
  constructor
  · rintro ⟨x, rfl⟩
    exact ⟨x, List.mem_singleton_self x, fun y hy => List.mem_singleton.mp hy⟩
  · rintro ⟨x, hx, hall⟩
    have hshort : xs.length ≤ 1 :=
      (length_le_one_iff h).mpr fun y hy z hz => (hall y hy).trans (hall z hz).symm
    have hlong : 0 < xs.length := List.length_pos_of_mem hx
    exact List.length_eq_one_iff.mp (by omega)

end Single

/-! ### Indexers -/

section Indexers

/-- What is left has the same identities, but for those that were seen before. -/
theorem mem_distinctIndexers {seen : List IndexerId} {xs : List Indexer} {id : IndexerId} :
    id ∈ (distinctIndexers seen xs).map (·.id) ↔ id ∈ xs.map (·.id) ∧ id ∉ seen := by
  induction xs generalizing seen with
  | nil => simp [distinctIndexers]
  | cons x xs ih =>
      unfold distinctIndexers
      by_cases hseen : x.id ∈ seen
      · have hx : id = x.id → id ∈ seen := fun heq => heq ▸ hseen
        rw [if_pos (by simpa using hseen), ih, List.map_cons, List.mem_cons]
        grind
      · rw [if_neg (by simpa using hseen), List.map_cons, List.mem_cons, ih, List.map_cons, List.mem_cons]
        grind

theorem nodup_distinctIndexers (seen : List IndexerId) (xs : List Indexer) :
    ((distinctIndexers seen xs).map (·.id)).Nodup := by
  induction xs generalizing seen with
  | nil => simp [distinctIndexers]
  | cons x xs ih =>
      unfold distinctIndexers
      split
      · exact ih seen
      · rw [List.map_cons, List.nodup_cons]
        refine ⟨fun hmem => ?_, ih _⟩
        exact (mem_distinctIndexers.mp hmem).2 List.mem_cons_self

theorem mem_declaredIndexers {id : IndexerId} :
    id ∈ (g.declaredIndexers c).map (·.id) ↔ ∃ x, g.HasIndexer c x ∧ x.id = id := by
  rw [declaredIndexers, mem_distinctIndexers]
  simp [HasIndexer, or_and_right, exists_or]

theorem indexerOf_eq_ok_iff :
    (∃ x, g.indexerOf c = .ok x) ↔ ∀ x y, g.HasIndexer c x → g.HasIndexer c y → x.id = y.id := by
  have hnodup : ((g.declaredIndexers c).map (·.id)).Nodup := nodup_distinctIndexers _ _
  have hlength : (∃ x, g.indexerOf c = .ok x) ↔ ((g.declaredIndexers c).map (·.id)).length ≤ 1 := by
    unfold indexerOf
    cases g.declaredIndexers c with
    | nil => simp
    | cons x rest => cases rest <;> simp
  rw [hlength, length_le_one_iff hnodup]
  constructor
  · intro hall x y hx hy
    exact hall _ (mem_declaredIndexers.mpr ⟨x, hx, rfl⟩) _ (mem_declaredIndexers.mpr ⟨y, hy, rfl⟩)
  · intro hall i hi j hj
    obtain ⟨x, hx, rfl⟩ := mem_declaredIndexers.mp hi
    obtain ⟨y, hy, rfl⟩ := mem_declaredIndexers.mp hj
    exact hall x y hx hy

end Indexers

/-! ### Places -/

/-- The kinds of classes that a property fits into, as the rules list them. -/
theorem PropertyKind.fitsIn_iff {kind : PropertyKind} {place : ClassKind} :
    kind.FitsIn place ↔ ∀ places, propertyPlaces kind = some places → place ∈ places := by
  constructor
  · rintro ⟨hquery, hrequest, hconfiguration⟩
    cases kind <;> simp_all [propertyPlaces]
  · intro h
    constructor <;> cases kind <;> simp_all [propertyPlaces]

/-- The kinds of classes that a method fits into, as the rules list them. -/
theorem MethodKind.fitsIn_iff {kind : MethodKind} {place : ClassKind} :
    kind.FitsIn place ↔ ∀ places, methodPlaces kind = some places → place ∈ places := by
  constructor
  · rintro ⟨hrequest, hdata, hquery⟩
    cases kind <;> simp_all [methodPlaces]
  · intro h
    constructor <;> cases kind <;> simp_all [methodPlaces]

theorem propertyViolations_eq_nil_iff {p : Property} :
    g.propertyViolations c p = [] ↔ p.kind.FitsIn c.kind := by
  rw [PropertyKind.fitsIn_iff, propertyViolations]
  cases propertyPlaces p.kind <;> simp

/-! ### Methods -/

/-- A request has its generator if its class has exactly one for the HTTP method. -/
theorem generatorOf_eq_ok_iff (hparent : g.parentOf m = some c) (hnodup : c.methods.Nodup) (hhttp : m.http.isSome) :
    (∃ x, g.generatorOf m = .ok x) ↔
      ∃! x, x ∈ c.methods ∧ x.kind = .requestGenerator ∧ x.http = m.http := by
  obtain ⟨http, hhttp⟩ := Option.isSome_iff_exists.mp hhttp
  have hfound : (∃ x, g.generatorOf m = .ok x) ↔ ∃ x, generatorsFor c http = [x] := by
    simp only [generatorOf, hparent, hhttp]
    cases generatorsFor c http with
    | nil => simp
    | cons x rest => cases rest <;> simp
  have hgenerators : (generatorsFor c http).Nodup := hnodup.filter _
  rw [hfound, eq_singleton_iff hgenerators]
  simp [generatorsFor, hhttp]

/-- At most one source of commands is to say that no two come together. -/
theorem commandSources_le_one_iff :
    g.commandSources m ≤ 1 ↔
      ¬(m.representedIndexer.isSome ∧ m.accessedProperty.isSome) ∧
        ¬(m.representedIndexer.isSome ∧ g.BuildsClient m) ∧ ¬(m.accessedProperty.isSome ∧ g.BuildsClient m) := by
  have hclient : (g.representedMethod m).any (·.kind == .clientConstructor) = true ↔ g.BuildsClient m := by
    simp [BuildsClient, Option.any_eq_true]
  unfold commandSources
  rw [← hclient]
  cases m.representedIndexer.isSome <;> cases m.accessedProperty.isSome <;>
    cases (g.representedMethod m).any (·.kind == .clientConstructor) <;> decide

/-- What the kind of a method asks of it, once the method knows its class. -/
theorem kindViolations_eq_nil_iff {element : String} (hparent : g.parentOf m = some c) (hnodup : c.methods.Nodup) :
    g.kindViolations element m = [] ↔
      (m.kind = .requestGenerator ∨ m.kind = .requestExecutor → m.http.isSome) ∧
      (m.kind = .requestExecutor → ∃! x, x ∈ c.methods ∧ x.kind = .requestGenerator ∧ x.http = m.http) ∧
      (m.kind = .commandBuilder → g.commandSources m ≤ 1) ∧
      (m.kind = .queryParametersMapper → ∃ p ∈ m.parameters, p.kind = .queryParametersMapper) := by
  unfold kindViolations
  cases hkind : m.kind
  case requestExecutor =>
    cases hhttp : m.http with
    | none => simp
    | some http =>
        have hgenerator := generatorOf_eq_ok_iff hparent hnodup (by simp [hhttp])
        rw [hhttp] at hgenerator
        cases hfound : g.generatorOf m <;> simp [hfound] at hgenerator ⊢ <;> exact hgenerator
  case queryParametersMapper => simp [Method.parameterOfKind]
  all_goals simp [Option.isSome_iff_ne_none]

/-- A method of a placed graph breaks no rule exactly if it is well formed. -/
theorem methodViolations_eq_nil_iff_wellFormed (hplaced : g.Placed) (hc : c ∈ g.classes) :
    g.methodViolations c m = [] ↔ m.WellFormed g c := by
  have hnodup : c.methods.Nodup := (hplaced.nodup_methods hc).of_map
  rw [methodViolations_eq_nil_iff, ← MethodKind.fitsIn_iff]
  have hparentOf : m.parent = some c.id → g.parentOf m = some c := by
    intro hparent
    rw [parentOf, hparent]
    exact hplaced.class_of_mem hc
  have hresult : (m.kind.isConstructor = false → m.returnType.isSome) ↔
      (m.returnType = none → m.kind ∈ [.constructor, .clientConstructor, .rawUrlConstructor]) := by
    cases m.returnType <;> cases m.kind <;> simp [MethodKind.isConstructor]
  rw [hresult]
  constructor
  · rintro ⟨hparent, hresult, hplace, hkind⟩
    rw [kindViolations_eq_nil_iff (hparentOf hparent) hnodup, commandSources_le_one_iff] at hkind
    obtain ⟨hhttp, hgenerator, hsource, hinput⟩ := hkind
    exact ⟨hparent, hresult, hplace, hhttp, hgenerator, hsource, hinput⟩
  · rintro ⟨hparent, hresult, hplace, hhttp, hgenerator, hsource, hinput⟩
    rw [kindViolations_eq_nil_iff (hparentOf hparent) hnodup, commandSources_le_one_iff]
    exact ⟨hparent, hresult, hplace, hhttp, hgenerator, hsource, hinput⟩

/-! ### Classes -/

/-- In a placed graph a listed class is found again by its identity. -/
theorem isListedClass_iff_mem (hplaced : g.Placed) {t : Option TypeRef} :
    g.isListedClass t = true ↔
      ∃ ref target, t = some ref ∧ g.classOf ref = some target ∧ target ∈ g.allClasses := by
  rw [isListedClass_iff]
  constructor
  · rintro ⟨target, htarget, listed, hlisted, hid⟩
    obtain ⟨ref, rfl, hclass⟩ := Option.bind_eq_some_iff.mp htarget
    -- the listed class has the identity of the target, and identities lead to one class only
    have hfound := hplaced.class_of_mem (mem_classes_of_mem_allClasses hlisted)
    rw [hid, hplaced.class_of_mem (classOf_mem hclass)] at hfound
    cases hfound
    exact ⟨ref, target, rfl, hclass, hlisted⟩
  · rintro ⟨ref, target, rfl, hclass, hlisted⟩
    exact ⟨target, hclass, target, hlisted, rfl⟩

theorem classViolations_eq_nil_iff (hplaced : g.Placed) (hc : c ∈ g.classes) :
    g.classViolations c = [] ↔ c.WellFormed g := by
  have hparts : g.classViolations c = [] ↔ (∃ x, g.indexerOf c = .ok x) ∧
      g.mappingViolations c.qualifiedName [] c.discriminator.mappings = [] ∧
      (∀ p ∈ c.properties, g.propertyViolations c p = []) ∧ ∀ m ∈ c.methods, g.methodViolations c m = [] := by
    unfold classViolations
    cases g.indexerOf c <;> simp
  simp only [hparts, indexerOf_eq_ok_iff, mappingViolations_eq_nil_iff, propertyViolations_eq_nil_iff,
    methodViolations_eq_nil_iff_wellFormed hplaced hc, isListedClass_iff_mem hplaced]
  constructor
  · rintro ⟨hindexer, ⟨-, hkeys, htargets⟩, hproperties, hmethods⟩
    exact ⟨hindexer, List.pairwise_map.mp hkeys, htargets, hproperties, hmethods⟩
  · rintro ⟨hindexer, hkeys, htargets, hproperties, hmethods⟩
    refine ⟨hindexer, ⟨?_, List.pairwise_map.mpr hkeys, htargets⟩, hproperties, hmethods⟩
    exact fun _ _ => List.not_mem_nil

/-- A graph breaks no rule exactly if all its classes keep all of them. -/
theorem valid_iff_wellFormed (hplaced : g.Placed) : g.violations = [] ↔ g.WellFormed := by
  rw [violations, List.flatMap_eq_nil_iff]
  exact forall₂_congr fun c hc => classViolations_eq_nil_iff hplaced (mem_classes_of_mem_allClasses hc)

namespace ShelfSample

def template : Property := { name := "UrlTemplate", kind := .urlTemplate, parent := some ⟨0⟩ }

/-- A method of the request builder. -/
def method (place : Nat) (name : String) (kind : MethodKind) (http : Option String) : Method :=
  { id := ⟨⟨0⟩, place⟩, name, kind, http, returnType := some (.scalar { name := "Book" }), parent := some ⟨0⟩ }

def item : Indexer :=
  { id := ⟨⟨0⟩, 0⟩, name := "Item", indexType := { name := "string" }, returnType := some { name := "Book" }
    parent := some ⟨0⟩ }

/-- A request builder that prepares requests for reading and sends those for an HTTP method. Its command stands
for the indexer that the class declares. -/
def books (http : String) : ClassDef :=
  { id := ⟨0⟩, name := "Books", kind := .requestBuilder, home := some ⟨⟨0⟩, "Sdk"⟩, properties := [template]
    methods :=
      [method 0 "ToGet" .requestGenerator (some "GET"), method 1 "Send" .requestExecutor (some http),
        { method 2 "BuildItemCommand" .commandBuilder none with representedIndexer := some ⟨⟨0⟩, 0⟩ }]
    indexers := [item] }

def book : ClassDef :=
  { id := ⟨1⟩, name := "Book", home := some ⟨⟨0⟩, "Sdk"⟩
    discriminator :=
      { propertyName := "kind", mappings := [⟨"book", some { name := "Book", definition := some (.ofClass ⟨1⟩) }⟩] } }

def shelf (http : String) : Graph :=
  { root := { id := ⟨0⟩, name := "Sdk", classes := [⟨0⟩, ⟨1⟩] }, classes := #[books http, book], enums := #[] }

end ShelfSample

open ShelfSample

/-- Requests for reading have their generator. Sent for writing they have none, and that is the only rule which is
broken then. -/
theorem reading_well_formed_and_writing_not :
    ((shelf "GET").Placed ∧ (shelf "GET").WellFormed) ∧
      (shelf "POST").Placed ∧ (shelf "POST").violations = [⟨.missingGenerator "POST", "Sdk.Books.Send"⟩] ∧
        ¬(shelf "POST").WellFormed := by
  have hget : (shelf "GET").Placed := by decide
  have hpost : (shelf "POST").Placed := by decide
  have hbroken : (shelf "POST").violations = [⟨.missingGenerator "POST", "Sdk.Books.Send"⟩] := by decide
  refine ⟨⟨hget, (valid_iff_wellFormed hget).mp (by decide)⟩, hpost, hbroken, fun h => ?_⟩
  rw [(valid_iff_wellFormed hpost).mpr h] at hbroken
  cases hbroken

end ClientForge.Graph
