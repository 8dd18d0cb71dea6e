import ClientForge.Command.Builder
import ClientForge.Proofs.Plan.Factory

/-!
# The elements of a body

Operations carry classes and enums with them. All of them come out of the tables of the graph: a handler finds
them by following references, and the class of the method itself is found by its identity.

* **`held_of_synthesize`.** The operations of a planned body carry only elements that the graph holds.
-/

namespace ClientForge

namespace Graph

/-- Whether an element stands in the tables of a graph. -/
def Holds (g : Graph) (d : Definition) : Prop := ∃ id, g.definition? id = some d

variable {g : Graph}

theorem holds_class {id : ClassId} {c : ClassDef} (h : g.class? id = some c) : g.Holds (.ofClass c) :=
  ⟨.ofClass id, by simp [definition?, h]⟩

theorem holds_enum {id : EnumId} {x : Enum} (h : g.enum? id = some x) : g.Holds (.ofEnum x) :=
  ⟨.ofEnum id, by simp [definition?, h]⟩

theorem holds_classOf {t : TypeRef} {c : ClassDef} (h : g.classOf t = some c) : g.Holds (.ofClass c) := by
  unfold classOf at h
  split at h
  · exact holds_class h
  · cases h

theorem holds_enumOf {t : TypeRef} {x : Enum} (h : g.enumOf t = some x) : g.Holds (.ofEnum x) := by
  unfold enumOf at h
  split at h
  · exact holds_enum h
  · cases h

theorem holds_parentOf {m : Method} {c : ClassDef} (h : g.parentOf m = some c) : g.Holds (.ofClass c) := by
  obtain ⟨id, _, hid⟩ := Option.bind_eq_some_iff.mp h
  exact holds_class hid

theorem holds_bind_classOf {t : Option TypeRef} {c : ClassDef} (h : t.bind g.classOf = some c) :
    g.Holds (.ofClass c) := by
  obtain ⟨_, _, hclass⟩ := Option.bind_eq_some_iff.mp h
  exact holds_classOf hclass

end Graph

namespace Plan

open ClientForge.Graph

/-- The classes and enums that an operation carries with it. -/
def Operation.elements : Operation → List Definition
  | .callBaseSerializer base => [.ofClass base]
  | .fieldMap base _ => base.toList.map .ofClass
  | .configureRequest _ type .. => type.toList.map .ofClass
  | .assignDefault _ _ enum => enum.toList.map .ofEnum
  | .discriminatorSwitch cases fallback => cases.map (.ofClass ·.type) ++ [.ofClass fallback]
  | .construct type => [.ofClass type]
  | .command (.initCommand init) => init.builder.toList.map .ofClass
  | .command (.instantiateBuilder b) => [.ofClass b.target]
  | _ => []

/-- Whether operations carry only elements of a graph. -/
def Held (g : Graph) (operations : List Operation) : Prop :=
  ∀ op ∈ operations, ∀ d ∈ op.elements, g.Holds d

section Lists

variable {g : Graph} {xs ys : List Operation}

@[simp]
theorem held_nil : Held g [] := by simp [Held]

@[simp]
theorem held_cons {op : Operation} : Held g (op :: xs) ↔ (∀ d ∈ op.elements, g.Holds d) ∧ Held g xs := by
  simp [Held]

@[simp]
theorem held_append : Held g (xs ++ ys) ↔ Held g xs ∧ Held g ys := by
  simp [Held, or_imp, forall_and]

/-- Operations without elements are held by any graph. -/
theorem held_of_elements_eq_nil (h : ∀ op ∈ xs, op.elements = []) : Held g xs := by
  intro op hop d hd
  rw [h op hop] at hd
  cases hd

theorem held_ite {p : Prop} [Decidable p] (hx : p → Held g xs) (hy : ¬p → Held g ys) :
    Held g (if p then xs else ys) := by
  split
  · exact hx ‹_›
  · exact hy ‹_›

end Lists

section Handlers

variable {c : Context} {cls : ClassDef} {m : Method} {body : Body}

theorem held_serializer (h : serializer c cls m = .ok body) : Held c.graph body.operations := by
  obtain ⟨slots, _, h⟩ := bind_eq_ok.mp h
  cases h
  simp only [held_append]
  refine ⟨⟨?_, held_of_elements_eq_nil ?_⟩, held_of_elements_eq_nil ?_⟩
  · cases hbase : c.graph.baseClass cls with
    | none => simp
    | some base => simpa [Operation.elements] using holds_bind_classOf hbase
  · simp [Operation.elements]
  · simp [Operation.elements]

theorem held_deserializer (h : deserializer c cls m = .ok body) : Held c.graph body.operations := by
  obtain ⟨slots, _, h⟩ := bind_eq_ok.mp h
  cases h
  have hbase : ∀ base, c.graph.baseClass cls = some base → c.graph.Holds (.ofClass base) :=
    fun _ h => holds_bind_classOf h
  simpa [Operation.elements] using hbase

theorem elements_contentOperation (g : Graph) (p : Parameter) : (contentOperation g m p).elements = [] := by
  simp only [contentOperation]
  split
  · split
    · rfl
    · split <;> rfl
  · rfl

theorem held_requestGenerator (h : requestGenerator c cls m = .ok body) : Held c.graph body.operations := by
  unfold requestGenerator at h
  split at h
  · cases h
  · obtain ⟨_, _, h⟩ := bind_eq_ok.mp h
    cases h
    simp only [held_append]
    refine ⟨⟨⟨held_of_elements_eq_nil ?_, held_of_elements_eq_nil ?_⟩, held_of_elements_eq_nil ?_⟩, ?_⟩
    · simp [Operation.elements]
    · split <;> simp [Operation.elements]
    · simp [elements_contentOperation]
    · have hconfig : ∀ (p : Parameter) (type : ClassDef), p.type.ref?.bind c.graph.classOf = some type →
          c.graph.Holds (.ofClass type) := fun _ _ h => holds_bind_classOf h
      simpa [Held, configuration, Operation.elements] using fun p _ => hconfig p

theorem held_requestExecutor (h : requestExecutor c cls m = .ok body) : Held c.graph body.operations := by
  obtain ⟨_, _, h⟩ := bind_eq_ok.mp h
  obtain ⟨_, _, h⟩ := bind_eq_ok.mp h
  cases h
  apply held_of_elements_eq_nil
  split <;> simp [Operation.elements]

theorem held_defaultAssignment (p : Property) : Held c.graph [defaultAssignment c.graph p] := by
  unfold defaultAssignment
  split
  · next x hx =>
    obtain ⟨t, _, ht⟩ := Option.bind_eq_some_iff.mp hx
    split
    · simpa [Operation.elements] using holds_enumOf ht
    · simp [Operation.elements]
  · simp [Operation.elements]

theorem elements_seedOperations : ∀ op ∈ seedOperations cls m, op.elements = [] := by
  unfold seedOperations
  split
  · simp
  · split
    · simp
    · split
      · dsimp only
        split <;> simp [Operation.elements]
      · simp [Operation.elements]
      · simp

theorem elements_clientOperations (o : Options) : ∀ op ∈ clientOperations o cls m, op.elements = [] := by
  have hadapter : ∀ adapter, ∀ op ∈ adapterOperations o cls m adapter, op.elements = [] := by
    intro adapter op hop
    simp only [adapterOperations, List.mem_append, List.mem_ite_nil_left, List.mem_singleton,
      Option.mem_toList, Option.map_eq_some_iff] at hop
    rcases hop with (((⟨_, rfl⟩ | ⟨_, _, rfl⟩) | ⟨_, _, rfl⟩) | ⟨_, rfl⟩) | ⟨_, rfl⟩ <;> rfl
  intro op hop
  simp only [clientOperations, List.mem_append, List.mem_map] at hop
  rcases hop with (⟨_, _, rfl⟩ | ⟨_, _, rfl⟩) | hop
  · rfl
  · rfl
  · split at hop
    · exact hadapter _ _ hop
    · cases hop

theorem held_constructor (h : constructor c cls m = .ok body) : Held c.graph body.operations := by
  cases h
  simp only [held_append]
  refine ⟨⟨⟨?_, held_of_elements_eq_nil elements_seedOperations⟩, held_of_elements_eq_nil ?_⟩,
    held_of_elements_eq_nil ?_⟩
  · intro op hop
    obtain ⟨p, _, rfl⟩ := List.mem_map.mp hop
    exact (held_cons.mp (held_defaultAssignment p)).1
  · unfold forwardOperations
    split <;> simp [Operation.elements]
  · split
    · exact elements_clientOperations c.options
    · simp

theorem held_factory (hcls : c.graph.Holds (.ofClass cls)) (h : factory c cls m = .ok body) :
    Held c.graph body.operations := by
  unfold factory at h
  split at h
  · obtain ⟨cases, hcases, h⟩ := bind_eq_ok.mp h
    cases h
    have htargets : ∀ k ∈ cases, c.graph.Holds (.ofClass k.type) := by
      intro k hk
      obtain ⟨x, _, hx⟩ := exists_of_mem_right (mapM_eq_ok.mp hcases) hk
      exact holds_bind_classOf (discriminatorCase_eq_ok.mp hx).2
    simpa [Operation.elements, or_imp, forall_and, hcls] using htargets
  · cases h
    simpa [Operation.elements] using hcls

/-- What leads to other request builders carries only references. -/
theorem held_builderWithParameters (h : builderWithParameters c cls m = .ok body) :
    Held c.graph body.operations := by
  unfold builderWithParameters at h
  split at h
  · cases h
  · split at h
    · cases h
    · cases h
      simp [builderOperation, Operation.elements]

theorem held_indexerMethod (h : indexerMethod c cls m = .ok body) : Held c.graph body.operations := by
  obtain ⟨_, _, h⟩ := bind_eq_ok.mp h
  split at h
  · cases h
  · split at h
    · cases h
    · split at h
      · cases h
      · cases h
        simp [builderOperation, Operation.elements]

theorem held_getter (h : getter c cls m = .ok body) : Held c.graph body.operations := by
  obtain ⟨_, _, h⟩ := bind_eq_ok.mp h
  cases h
  simp [Operation.elements]

theorem held_setter (h : setter c cls m = .ok body) : Held c.graph body.operations := by
  obtain ⟨_, _, h⟩ := bind_eq_ok.mp h
  split at h
  · cases h
  · cases h
    simp [Operation.elements]

theorem held_queryParametersMapper (h : queryParametersMapper c cls m = .ok body) :
    Held c.graph body.operations := by
  unfold queryParametersMapper at h
  split at h
  · cases h
  · cases h
    simp [Operation.elements]

end Handlers

end Plan

/-! ### Command builders -/

namespace Command

open ClientForge.Graph ClientForge.Plan

section Builders

variable {c : Context} {cls : ClassDef} {m : Method} {body : Body}

/-- A local for a builder carries its class. -/
theorem held_builderLocal {name : String} {target : ClassDef} (h : c.graph.Holds (.ofClass target)) :
    Held c.graph [builderLocal cls m name target] := by
  simpa [builderLocal, Operation.elements] using h

theorem elements_ownCommand : (Operation.command (.initCommand (ownCommand c cls m))).elements = [] := by
  unfold ownCommand
  split <;> rfl

theorem held_shared {sharing : Sharing} (h : shared c cls m = .ok sharing) :
    Held c.graph sharing.operations := by
  obtain ⟨x, _, h⟩ := bind_eq_ok.mp h
  split at h
  · cases h
    simp [elements_ownCommand]
  · next y target hx =>
    have htarget : c.graph.Holds (.ofClass target) := by
      obtain ⟨_, _, hmap⟩ := Option.bind_eq_some_iff.mp hx
      obtain ⟨_, htarget, hpair⟩ := Option.map_eq_some_iff.mp hmap
      cases hpair
      exact holds_bind_classOf htarget
    split at h
    · cases h
      simp [elements_ownCommand]
    · cases h
      simp only [held_append]
      constructor
      · exact held_ite (fun _ => held_builderLocal htarget) fun _ => held_nil
      · split
        · simpa [Operation.elements] using htarget
        · simp [elements_ownCommand]

theorem elements_addCommands (subs : List SubCommand) : ∀ op ∈ addCommands subs, op.elements = [] := by
  unfold addCommands
  split <;> simp [Operation.elements]

theorem held_rootBody : Held c.graph (rootBody cls m).operations := by
  apply held_of_elements_eq_nil
  simp only [rootBody]
  split <;> simp [Operation.elements]

theorem held_itemsBody {x : Indexer} (h : itemsBody c cls m x = .ok body) : Held c.graph body.operations := by
  unfold itemsBody at h
  split at h
  · cases h
  · next target htarget =>
    cases h
    rw [held_append]
    exact ⟨held_ite (fun _ => held_nil) fun _ => held_builderLocal (holds_bind_classOf htarget),
      by simp [Operation.elements]⟩

theorem held_navigationBody (h : navigationBody c cls m = .ok body) : Held c.graph body.operations := by
  obtain ⟨sharing, hshared, h⟩ := bind_eq_ok.mp h
  cases h
  simp only [held_append]
  refine ⟨⟨⟨held_shared hshared, ?_⟩, held_of_elements_eq_nil (elements_addCommands _)⟩,
    by simp [Operation.elements]⟩
  split
  · next target htarget =>
    exact held_ite (fun _ => held_nil) fun _ => held_builderLocal (holds_bind_classOf htarget)
  · simp

theorem held_executableBody (h : executableBody c cls m = .ok body) : Held c.graph body.operations := by
  unfold executableBody at h
  split at h
  · cases h
  · obtain ⟨_, _, h⟩ := bind_eq_ok.mp h
    obtain ⟨sharing, hshared, h⟩ := bind_eq_ok.mp h
    obtain ⟨_, _, h⟩ := bind_eq_ok.mp h
    cases h
    simp only [held_append]
    refine ⟨⟨⟨held_shared hshared, held_of_elements_eq_nil (elements_addCommands _)⟩,
      held_of_elements_eq_nil ?_⟩, held_of_elements_eq_nil ?_⟩ <;> simp [Operation.elements]

theorem held_commandBuilder (h : commandBuilder c cls m = .ok body) : Held c.graph body.operations := by
  unfold commandBuilder at h
  split at h
  · cases h
  · split at h
    · exact held_executableBody h
    · split at h
      · cases h
        exact held_rootBody
      · split at h
        · exact held_itemsBody h
        · exact held_navigationBody h

end Builders

end Command

/-! ### Engines -/

namespace Plan

open ClientForge.Graph

section Engines

variable {e : Engine} {m : Method} {body : Body}

/-- Whether an engine plans bodies for a target with or without commands. -/
def Engine.IsStandard (e : Engine) : Prop :=
  e.handlers = defaultHandlers ∨ e.handlers = Command.commandHandlers

/-- Bodies by the default handlers carry only elements of the graph, whatever the kind of the method. -/
theorem held_of_defaultHandlers {c : Context} {cls : ClassDef} {handler : Handler}
    (hcls : c.graph.Holds (.ofClass cls)) (hhandler : defaultHandlers m.kind = some handler)
    (h : handler.body c cls m = .ok body) : Held c.graph body.operations := by
  cases hkind : m.kind <;> rw [hkind] at hhandler <;> cases hhandler
  case serializer => exact held_serializer h
  case deserializer => exact held_deserializer h
  case requestGenerator => exact held_requestGenerator h
  case requestExecutor => exact @held_requestExecutor c cls m body h
  case constructor | clientConstructor | rawUrlConstructor => exact held_constructor h
  case requestBuilderWithParameters => exact held_builderWithParameters h
  case getter => exact held_getter h
  case setter => exact held_setter h
  case factory => exact held_factory hcls h
  case commandBuilder => cases h
  case queryParametersMapper => exact held_queryParametersMapper h
  case indexerBackwardCompatibility => exact held_indexerMethod h

theorem held_of_synthesize (he : e.IsStandard) (h : e.synthesize m = .ok body) :
    Held e.context.graph body.operations := by
  simp only [Engine.synthesize] at h
  split at h
  · cases h
  · next handler hhandler =>
    split at h
    · cases h
    · next cls hparent =>
      rw [inContext, mapError_eq_ok] at h
      rcases he with he | he <;> rw [he] at hhandler
      · exact held_of_defaultHandlers (holds_parentOf hparent) hhandler h
      · by_cases hkind : m.kind = .commandBuilder
        · rw [Command.commandHandlers, Handlers.set, if_pos hkind] at hhandler
          cases hhandler
          exact Command.held_commandBuilder h
        · rw [Command.commandHandlers, Handlers.set, if_neg hkind] at hhandler
          exact held_of_defaultHandlers (holds_parentOf hparent) hhandler h

end Engines

end Plan

end ClientForge
