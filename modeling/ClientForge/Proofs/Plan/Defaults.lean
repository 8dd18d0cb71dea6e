import ClientForge.Proofs.Plan.Validated

/-!
# Defaults

A constructor goes through four phases: it assigns defaults, takes over path parameters, takes over the adapter, and
sets up a client. Every operation of a constructor belongs to one of them (`inPhases_constructor`).

The defaults that it assigns are those of the properties of its class. Sorting decides their order, and as sorting is
stable, properties of one kind and name stay in the order of declaration (`stable_defaultProperties`). What is assigned
is an option, where the default is what an option of the property's enum is called.

* **`constructor_assigns_defaults_first`.** What a constructor assigns, and when.
-/

namespace ClientForge.Plan

open ClientForge.Graph

/-! ### Phases -/

/-- The parts of a constructor. -/
inductive Phase where
  | defaults
  /-- Path parameters or a raw URL are taken over. -/
  | seeding
  /-- The adapter is taken over. -/
  | forwarding
  /-- The adapter of a client is set up. -/
  | setup
deriving DecidableEq, Repr

/-- Phases in the order in which they come. -/
def Phase.place : Phase → Nat
  | defaults => 0
  | seeding => 1
  | forwarding => 2
  | setup => 3

/-- The phase that an operation belongs to, if a constructor can have it. -/
def Operation.phase? : Operation → Option Phase
  | .assignDefault .. => some .defaults
  | .seedPathParameters .. | .seedRawUrl .. => some .seeding
  | .forwardParameter .. => some .forwarding
  | .registerSerializer _ | .registerDeserializer _ | .setBaseUrl .. | .addBaseUrlParameter ..
  | .enableBackingStore .. | .configureRetry .. | .configureRedirect .. => some .setup
  | _ => none

/-- One phase after the other, with path parameters taken over at most once. -/
structure InPhases (operations : List Operation) : Prop where
  known : ∀ o ∈ operations, ∃ phase, o.phase? = some phase
  ordered : operations.Pairwise fun o o' =>
    ∀ phase ∈ o.phase?, ∀ phase' ∈ o'.phase?, phase.place ≤ phase'.place
  seeded : operations.countP (·.phase? = some .seeding) ≤ 1

/-- All operations belong to one phase. -/
def AllIn (phase : Phase) (operations : List Operation) : Prop := ∀ o ∈ operations, o.phase? = some phase

section Phases

variable {phase : Phase} {xs ys : List Operation}

theorem AllIn.append (hxs : AllIn phase xs) (hys : AllIn phase ys) : AllIn phase (xs ++ ys) := fun o ho =>
  (List.mem_append.mp ho).elim (hxs o) (hys o)

/-- Phases in order, none of them after the last one given. -/
def UpTo (last : Phase) (operations : List Operation) : Prop :=
  InPhases operations ∧ ∀ o ∈ operations, ∀ phase ∈ o.phase?, phase.place ≤ last.place

theorem countP_seeding_eq_zero (h : ∀ o ∈ xs, ∀ phase ∈ o.phase?, phase ≠ .seeding) :
    xs.countP (·.phase? = some .seeding) = 0 := by
  refine List.countP_eq_zero.mpr fun o ho => ?_
  simpa using fun hphase => h o ho _ hphase rfl

/-- Operations of one phase are in the order of the phases. -/
theorem AllIn.ordered (h : AllIn phase xs) : xs.Pairwise fun o o' =>
    ∀ phase ∈ o.phase?, ∀ phase' ∈ o'.phase?, phase.place ≤ phase'.place := by
  refine List.pairwise_of_forall_mem_list fun o ho o' ho' => ?_
  simp [h o ho, h o' ho']

/-- A phase can be put behind phases that come before it. -/
theorem UpTo.append {last : Phase} (hxs : UpTo last xs) (hys : AllIn phase ys) (hlater : last.place < phase.place)
    (honce : phase = .seeding → ys.length ≤ 1) : UpTo phase (xs ++ ys) := by
  obtain ⟨hphases, hlast⟩ := hxs
  refine ⟨⟨?_, ?_, ?_⟩, ?_⟩
  · intro o ho
    rcases List.mem_append.mp ho with ho | ho
    · exact hphases.known o ho
    · exact ⟨phase, hys o ho⟩
  · refine List.pairwise_append.mpr ⟨hphases.ordered, hys.ordered, fun o ho o' ho' before hbefore => ?_⟩
    rw [hys o' ho']
    have := hlast o ho before hbefore
    simp only [Option.mem_some_iff, forall_eq']
    omega
  · rw [List.countP_append]
    by_cases hseeding : phase = .seeding
    · subst hseeding
      have hnone := countP_seeding_eq_zero fun o ho before hbefore (heq : before = .seeding) => by
        have := hlast o ho before hbefore
        rw [heq] at this
        omega
      have hone := List.countP_le_length (p := fun o : Operation => o.phase? = some .seeding) (l := ys)
      have := honce rfl
      omega
    · have hnone := countP_seeding_eq_zero fun o ho before hbefore (heq : before = .seeding) => by
        rw [hys o ho] at hbefore
        cases hbefore
        exact hseeding heq
      have := hphases.seeded
      omega
  · intro o ho before hbefore
    rcases List.mem_append.mp ho with ho | ho
    · have := hlast o ho before hbefore
      omega
    · rw [hys o ho] at hbefore
      cases hbefore
      exact Nat.le_refl _

end Phases

theorem phase?_defaultAssignment (g : Graph) (p : Property) : (defaultAssignment g p).phase? = some .defaults := by
  unfold defaultAssignment
  split
  · split <;> rfl
  · rfl

section Constructor

variable (c : Context) (cls : ClassDef) (m : Method)

theorem allIn_defaults : AllIn .defaults ((defaultProperties cls).map (defaultAssignment c.graph)) := by
  intro o ho
  obtain ⟨p, _, rfl⟩ := List.mem_map.mp ho
  exact phase?_defaultAssignment c.graph p

theorem allIn_seedOperations : AllIn .seeding (seedOperations cls m) := by
  unfold seedOperations AllIn
  split
  · simp
  · split
    · simp
    · split
      · dsimp only
        split <;> simp [Operation.phase?]
      · cases m.parameterOfKind .rawUrl <;> simp [Operation.phase?]
      · simp

theorem length_seedOperations_le : (seedOperations cls m).length ≤ 1 := by
  unfold seedOperations
  split
  · simp
  · split
    · simp
    · split
      · dsimp only
        split <;> simp
      · cases m.parameterOfKind .rawUrl <;> simp
      · simp

theorem allIn_forwardOperations : AllIn .forwarding (forwardOperations cls m) := by
  unfold forwardOperations AllIn
  split <;> simp [Operation.phase?]

theorem allIn_adapterOperations (o : Options) (adapter : Property) :
    AllIn .setup (adapterOperations o cls m adapter) := by
  unfold adapterOperations
  refine (((AllIn.append ?_ ?_).append ?_).append ?_).append ?_ <;> unfold AllIn
  · split <;> simp [Operation.phase?]
  · cases cls.propertyOfKind .pathParameters <;> simp [Operation.phase?]
  · cases m.parameterOfKind .backingStore <;> simp [Operation.phase?]
  · split <;> simp [Operation.phase?]
  · split <;> simp [Operation.phase?]

theorem allIn_clientOperations (o : Options) : AllIn .setup (clientOperations o cls m) := by
  unfold clientOperations
  refine (AllIn.append ?_ ?_).append ?_
  · simp [AllIn, Operation.phase?]
  · simp [AllIn, Operation.phase?]
  · split
    · exact allIn_adapterOperations cls m o _
    · simp [AllIn]

/-- The operations of a constructor after the defaults. -/
def laterOperations : List Operation :=
  seedOperations cls m ++ forwardOperations cls m ++
    if m.kind == .clientConstructor then clientOperations c.options cls m else []

/-- A constructor is the defaults, in order, and what comes later. -/
theorem constructor_eq :
    constructor c cls m = .ok
      { method := m
        operations := (defaultProperties cls).map (defaultAssignment c.graph) ++ laterOperations c cls m } := by
  simp [constructor, laterOperations]

theorem inPhases_constructor :
    InPhases ((defaultProperties cls).map (defaultAssignment c.graph) ++ laterOperations c cls m) := by
  have hsetup : AllIn .setup (if m.kind == .clientConstructor then clientOperations c.options cls m else []) := by
    split
    · exact allIn_clientOperations cls m c.options
    · simp [AllIn]
  have hdefaults : UpTo .defaults ((defaultProperties cls).map (defaultAssignment c.graph)) := by
    have h := allIn_defaults c cls
    have hnone := countP_seeding_eq_zero fun o ho phase hphase => by
      rw [h o ho] at hphase
      cases hphase
      decide
    exact ⟨⟨fun o ho => ⟨_, h o ho⟩, h.ordered, by omega⟩, fun o ho => by simp [h o ho]⟩
  have hseeded := hdefaults.append (allIn_seedOperations cls m) (by decide) fun _ => length_seedOperations_le cls m
  have hforwarded := hseeded.append (allIn_forwardOperations cls m) (by decide) nofun
  rw [laterOperations, ← List.append_assoc, ← List.append_assoc]
  exact (hforwarded.append hsetup (by decide) nofun).1

end Constructor

/-! ### The order of defaults -/

/-- Properties of later kinds come first, and properties of one kind by name. -/
def IsAssignedBefore (p q : Property) : Prop :=
  q.kind.rank < p.kind.rank ∨ p.kind.rank = q.kind.rank ∧ p.name ≤ q.name

theorem defaultsOrder_iff {p q : Property} : defaultsOrder p q = true ↔ IsAssignedBefore p q := by
  unfold defaultsOrder IsAssignedBefore
  split <;> rename_i hrank
  · simp [hrank]
  · simp [hrank]

/-- Defaults are ordered by kind and then by name, which is transitive. -/
theorem defaultsOrder_trans (p q r : Property) (hpq : defaultsOrder p q = true) (hqr : defaultsOrder q r = true) :
    defaultsOrder p r = true := by
  rw [defaultsOrder_iff] at *
  rcases hpq with hpq | ⟨hpq, hname⟩ <;> rcases hqr with hqr | ⟨hqr, hname'⟩
  · exact .inl (by omega)
  · exact .inl (by omega)
  · exact .inl (by omega)
  · exact .inr ⟨by omega, String.le_trans hname hname'⟩

theorem defaultsOrder_total (p q : Property) : (defaultsOrder p q || defaultsOrder q p) = true := by
  rw [Bool.or_eq_true, defaultsOrder_iff, defaultsOrder_iff]
  rcases Int.lt_trichotomy p.kind.rank q.kind.rank with h | h | h
  · exact .inr (.inl h)
  · exact (String.le_total p.name q.name).imp (fun hname => .inr ⟨h, hname⟩) fun hname => .inr ⟨h.symm, hname⟩
  · exact .inl (.inl h)

/-- The properties with a default, in the order of declaration. -/
def declaredDefaults (cls : ClassDef) : List Property := cls.properties.filter (!·.defaultValue.isEmpty)

theorem defaultProperties_perm (cls : ClassDef) : (defaultProperties cls).Perm (declaredDefaults cls) :=
  List.mergeSort_perm _ _

theorem pairwise_defaultProperties (cls : ClassDef) : (defaultProperties cls).Pairwise IsAssignedBefore :=
  (List.pairwise_mergeSort defaultsOrder_trans defaultsOrder_total _).imp defaultsOrder_iff.mp

/-- A property has a kind and a name. -/
def hasKindAndName (rank : Int) (name : String) (p : Property) : Bool := p.kind.rank == rank && p.name == name

/-- Properties of one kind and name keep the order of declaration. -/
theorem stable_defaultProperties (cls : ClassDef) (rank : Int) (name : String) :
    (defaultProperties cls).filter (hasKindAndName rank name) =
      (declaredDefaults cls).filter (hasKindAndName rank name) := by
  unfold defaultProperties
  rw [filter_mergeSort defaultsOrder_trans defaultsOrder_total]
  refine List.mergeSort_of_pairwise (List.pairwise_of_forall_mem_list fun p hp q hq => ?_)
  have hkept := fun r (hr : r ∈ (declaredDefaults cls).filter (hasKindAndName rank name)) => (List.mem_filter.mp hr).2
  simp only [hasKindAndName, Bool.and_eq_true, beq_iff_eq] at hkept
  obtain ⟨hprank, hpname⟩ := hkept p hp
  obtain ⟨hqrank, hqname⟩ := hkept q hq
  exact defaultsOrder_iff.mpr (.inr ⟨hprank.trans hqrank.symm, hpname.trans hqname.symm ▸ String.le_refl _⟩)

/-! ### What is assigned -/

/-- A default as a body assigns it. -/
structure Assignment where
  property : Property
  value : String
  /-- The enum of which the value is an option. -/
  enum : Option Enum

def Operation.assignment? : Operation → Option Assignment
  | .assignDefault property value enum => some ⟨property, value, enum⟩
  | _ => none

/-- The defaults that a body assigns, in order. -/
def Body.assigned (b : Body) : List Assignment := b.operations.filterMap Operation.assignment?

/-- A text is the name of an option or its serialized form. -/
def IsCalled (o : EnumOption) (text : String) : Prop := o.name = text ∨ o.serializationName = text

/-- What is assigned is the name of the first option of the property's enum that the default is a name of, and
otherwise the default itself. -/
structure Assignment.IsFaithful (g : Graph) (a : Assignment) : Prop where
  enum_iff : ∀ x, a.enum = some x ↔
    a.property.ref?.bind g.enumOf = some x ∧ ∃ o ∈ x.options, IsCalled o a.property.defaultValue
  option : ∀ x, a.enum = some x → ∃ front o back, x.options = front ++ o :: back ∧
    IsCalled o a.property.defaultValue ∧ (∀ other ∈ front, ¬IsCalled other a.property.defaultValue) ∧ a.value = o.name
  text : a.enum = none → a.value = a.property.defaultValue

/-- The option for a text is the first one that is called so. -/
theorem option?_eq_some_iff {x : Enum} {text : String} {o : EnumOption} :
    x.option? text = some o ↔
      IsCalled o text ∧ ∃ front back, x.options = front ++ o :: back ∧ ∀ other ∈ front, ¬IsCalled other text := by
  simp [Enum.option?, List.find?_eq_some_iff_append, IsCalled]

theorem option?_eq_none_iff {x : Enum} {text : String} :
    x.option? text = none ↔ ∀ o ∈ x.options, ¬IsCalled o text := by
  simp [Enum.option?, IsCalled]

/-- A default is assigned to its own property, as the option or the text that it stands for. -/
theorem assignment?_defaultAssignment (g : Graph) (p : Property) :
    ∃ a : Assignment, (defaultAssignment g p).assignment? = some a ∧ a.property = p ∧ a.IsFaithful g := by
  unfold defaultAssignment
  split
  · rename_i x hx
    split
    · rename_i o ho
      obtain ⟨hcalled, front, back, hoptions, hfront⟩ := option?_eq_some_iff.mp ho
      refine ⟨⟨p, o.name, some x⟩, rfl, rfl, fun y => ?_, fun y hy => ?_, nofun⟩
      · constructor
        · intro hy
          cases hy
          exact ⟨hx, o, hoptions ▸ List.mem_append_right _ List.mem_cons_self, hcalled⟩
        · rintro ⟨hy, -⟩
          exact hx.symm.trans hy
      · cases hy
        exact ⟨front, o, back, hoptions, hcalled, hfront, rfl⟩
    · rename_i hnone
      refine ⟨⟨p, p.defaultValue, none⟩, rfl, rfl, fun y => ⟨nofun, ?_⟩, nofun, fun _ => rfl⟩
      rintro ⟨hy, o, ho, hcalled⟩
      cases hx.symm.trans hy
      exact absurd hcalled (option?_eq_none_iff.mp hnone o ho)
  · rename_i hnone
    refine ⟨⟨p, p.defaultValue, none⟩, rfl, rfl, fun y => ⟨nofun, ?_⟩, nofun, fun _ => rfl⟩
    rintro ⟨hy, -⟩
    cases hnone.symm.trans hy

/-- After the defaults nothing is assigned. -/
theorem assignment?_laterOperations (c : Context) (cls : ClassDef) (m : Method) :
    (laterOperations c cls m).filterMap Operation.assignment? = [] := by
  refine List.filterMap_eq_nil_iff.mpr fun o ho => ?_
  have hlater : ∃ phase, o.phase? = some phase ∧ phase ≠ .defaults := by
    unfold laterOperations at ho
    rcases List.mem_append.mp ho with ho | ho
    · rcases List.mem_append.mp ho with ho | ho
      · exact ⟨_, allIn_seedOperations cls m o ho, by decide⟩
      · exact ⟨_, allIn_forwardOperations cls m o ho, by decide⟩
    · split at ho
      · exact ⟨_, allIn_clientOperations cls m c.options o ho, by decide⟩
      · cases ho
  obtain ⟨phase, hphase, hne⟩ := hlater
  cases o with
  | assignDefault => cases hphase; exact absurd rfl hne
  | _ => rfl

/-- What a constructor does about the defaults of its class. -/
structure AssignsDefaults (g : Graph) (cls : ClassDef) (b : Body) : Prop where
  /-- Each property with a default is assigned once, and no other. -/
  complete : (b.assigned.map (·.property)).Perm (declaredDefaults cls)
  ordered : (b.assigned.map (·.property)).Pairwise IsAssignedBefore
  /-- Properties of one kind and name come in the order of declaration. -/
  stable : ∀ rank name, (b.assigned.map (·.property)).filter (hasKindAndName rank name) =
    (declaredDefaults cls).filter (hasKindAndName rank name)
  faithful : ∀ a ∈ b.assigned, a.IsFaithful g
  /-- Defaults come before all else, and path parameters before the adapter. -/
  phases : InPhases b.operations

section Assigned

variable {c : Context} {cls : ClassDef} {m : Method} {body : Body}

/-- A constructor assigns the defaults of its class and nothing else. -/
theorem assigned_constructor (h : constructor c cls m = .ok body) :
    body.assigned = (defaultProperties cls).filterMap fun p => (defaultAssignment c.graph p).assignment? := by
  cases (constructor_eq c cls m).symm.trans h
  rw [Body.assigned, List.filterMap_append, assignment?_laterOperations, List.append_nil, List.filterMap_map]
  rfl

theorem map_property_assigned (h : constructor c cls m = .ok body) :
    body.assigned.map (·.property) = defaultProperties cls := by
  have hproperty (p : Property) : (defaultAssignment c.graph p).assignment?.map (·.property) = some p := by
    obtain ⟨a, ha, rfl, -⟩ := assignment?_defaultAssignment c.graph p
    rw [ha]
    rfl
  simp only [assigned_constructor h, List.map_filterMap, hproperty, List.filterMap_some]

theorem assignsDefaults_constructor (h : constructor c cls m = .ok body) : AssignsDefaults c.graph cls body where
  complete := map_property_assigned h ▸ defaultProperties_perm cls
  ordered := map_property_assigned h ▸ pairwise_defaultProperties cls
  stable := map_property_assigned h ▸ stable_defaultProperties cls
  faithful a ha := by
    rw [assigned_constructor h, List.mem_filterMap] at ha
    obtain ⟨p, _, hp⟩ := ha
    obtain ⟨a', ha', _, hfaithful⟩ := assignment?_defaultAssignment c.graph p
    cases hp.symm.trans ha'
    exact hfaithful
  phases := by
    cases (constructor_eq c cls m).symm.trans h
    exact inPhases_constructor c cls m

end Assigned

/-- Both kinds of constructors have the same handler. -/
theorem defaultHandlers_of_isConstructor {kind : MethodKind} (h : kind.isConstructor = true) :
    defaultHandlers kind = some { body := constructor } := by
  cases kind with
  | constructor | clientConstructor | rawUrlConstructor => rfl
  | _ => cases h

/-- A constructor of a class always has a body. -/
theorem synthesize_constructor {e : Engine} {cls : ClassDef} {m : Method}
    (hhandler : e.handlers m.kind = defaultHandlers m.kind) (hkind : m.kind.isConstructor = true)
    (hparent : e.context.graph.parentOf m = some cls) :
    ∃ body, constructor e.context cls m = .ok body ∧ e.synthesize m = .ok body := by
  refine ⟨_, constructor_eq e.context cls m, ?_⟩
  rw [synthesize_in_class (hhandler.trans (defaultHandlers_of_isConstructor hkind)) hparent, inContext, mapError_eq_ok]
  exact constructor_eq e.context cls m

/-- A constructor of any kind can be planned. It assigns the default of each property that has one, by kinds from the
last to the first and then by name, and in the order of declaration where both are the same. A default that names an
option of the property's enum, or of the enum of its elements, is that option. Defaults come first; path parameters or a
raw URL are taken over at most once, and the adapter is taken over after them. -/
theorem constructor_assigns_defaults_first {e : Engine} {cls : ClassDef} {m : Method}
    (hhandler : e.handlers m.kind = defaultHandlers m.kind) (hkind : m.kind.isConstructor = true)
    (hparent : e.context.graph.parentOf m = some cls) :
    ∃ body, e.synthesize m = .ok body ∧ AssignsDefaults e.context.graph cls body := by
  obtain ⟨body, hbody, hsynthesize⟩ := synthesize_constructor hhandler hkind hparent
  exact ⟨body, hsynthesize, assignsDefaults_constructor hbody⟩

namespace ThemeSample

def color : Enum :=
  { id := ⟨0⟩, name := "Color", home := some ⟨⟨0⟩, "Sdk"⟩
    options := [{ name := "Red" }, { name := "Blue", serializationName := "blue" }] }

def theme : Property :=
  { name := "Theme", type := some (.scalar { name := "Color", definition := some (.ofEnum ⟨0⟩) })
    defaultValue := "blue" }

def size (text : String) : Property := { name := "Size", defaultValue := text }

def url : Property := { name := "Url", kind := .urlTemplate, defaultValue := "/themes" }

/-- A parameter of the constructor. -/
def parameter (index : Nat) (name : String) (kind : ParameterKind) : Parameter :=
  { id := ⟨⟨⟨0⟩, 0⟩, index⟩, name, kind, type := .scalar { name } }

def create : Method :=
  { id := ⟨⟨0⟩, 0⟩, name := "Themes", kind := .constructor, parent := some ⟨0⟩
    parameters := [parameter 0 "adapter" .requestAdapter, parameter 1 "paths" .pathParameters] }

/-- A request builder with two properties of one name, and a default that is the serialized form of an option. -/
def themes : ClassDef :=
  { id := ⟨0⟩, name := "Themes", kind := .requestBuilder, home := some ⟨⟨0⟩, "Sdk"⟩, methods := [create]
    properties :=
      [theme, size "2", size "1", { name := "Plain" }, { name := "Paths", kind := .pathParameters },
        { name := "Adapter", kind := .requestAdapter }, url] }

def graph : Graph :=
  { root := { id := ⟨0⟩, name := "Sdk", classes := [⟨0⟩], enums := [⟨0⟩] }, classes := #[themes], enums := #[color] }

def engine : Engine := defaultEngine ⟨graph, Convention.csharpPolicy, {}⟩

theorem defaultProperties_themes : defaultProperties themes = [url, size "2", size "1", theme] := by
  have hdeclared : themes.properties.filter (!·.defaultValue.isEmpty) = [theme, size "2", size "1", url] := rfl
  have horder : defaultsOrder theme (size "2") = false ∧ defaultsOrder (size "1") url = false ∧
      defaultsOrder (size "2") url = false ∧ defaultsOrder (size "2") (size "1") = true ∧
      defaultsOrder theme (size "1") = false := by decide
  simp [defaultProperties, hdeclared, List.mergeSort, horder]

end ThemeSample

open ThemeSample in
/-- The template comes first because of its kind, the sizes stay in their order, and the theme is an option. -/
theorem themes_assigned_first :
    ∃ body, engine.synthesize create = .ok body ∧ AssignsDefaults graph themes body ∧
      body.assigned.map (fun a => (a.property.name, a.value, a.enum.isSome)) =
        [("Url", "/themes", false), ("Size", "2", false), ("Size", "1", false), ("Theme", "Blue", true)] ∧
      (body.operations.drop 4).map (·.phase?) = [some .seeding, some .forwarding] := by
  have hhandler : engine.handlers create.kind = defaultHandlers create.kind := rfl
  have hparent : engine.context.graph.parentOf create = some themes := rfl
  obtain ⟨body, hsynthesize, hdefaults⟩ := constructor_assigns_defaults_first hhandler rfl hparent
  obtain ⟨_, hbody, hsame⟩ := synthesize_constructor hhandler rfl hparent
  cases hsynthesize.symm.trans hsame
  refine ⟨body, hsynthesize, hdefaults, ?_, ?_⟩
  · rw [assigned_constructor hbody, defaultProperties_themes]
    rfl
  · cases (constructor_eq _ _ _).symm.trans hbody
    rw [defaultProperties_themes]
    rfl

end ClientForge.Plan
