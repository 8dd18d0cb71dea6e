import ClientForge.Proofs.Render.Asking

/-!
# What C# files ask for

The scripts of C# clients, with and without commands, name only elements of the graph.

* **`asks_classScript`.** The script of a class, from its bases to the last operation of its last method.
-/

namespace ClientForge.Render.CSharp

open ClientForge.Graph ClientForge.Plan ClientForge.Convention

section Types

variable {e : Engine} (c : Context)

@[simp]
theorem asks_propertyType (p : Property) : (propertyType c p).Asks e c.graph fun _ => True := by
  unfold propertyType
  split <;> simp

@[simp]
theorem asks_parameterType (p : Parameter) : (parameterType c p).Asks e c.graph fun _ => True := by
  unfold parameterType
  split
  case h_8 =>
    split
    · next config hconfig => simp [holds_bind_classOf hconfig]
    · simp
  all_goals simp

end Types

/-! ### Operations -/

section Operations

variable {e : Engine} (s : Site)

@[simp]
theorem asks_factory (t : TypeRef) : (factory s (s.graph.classOf t)).Asks e s.context.graph fun _ => True := by
  unfold factory
  split
  · next c hc =>
    have hheld : s.context.graph.Holds (.ofClass c) := holds_classOf hc
    simp [hheld]
  · simp

@[simp]
theorem asks_typeArgument (slot : ValueSlot) : (typeArgument s slot).Asks e s.context.graph fun _ => True := by
  unfold typeArgument
  split <;> simp

@[simp]
theorem asks_readValue (slot : ValueSlot) : (readValue s slot).Asks e s.context.graph fun _ => True := by
  have hfactory : (factory s (slot.property.ref?.bind s.graph.classOf)).Asks e s.context.graph fun _ => True := by
    cases slot.property.ref? with
    | none => exact asks_pure _
    | some t => exact asks_factory s t
  unfold readValue
  cases slot.variant <;> simp [hfactory]

@[simp]
theorem asks_errorTable (entries : List ErrorEntry) :
    (errorTable s entries).Asks e s.context.graph fun _ => True := by
  simp [errorTable]

@[simp]
theorem asks_send (x : Send) : (send s x).Asks e s.context.graph fun _ => True := by
  unfold send
  split <;> simp

/-- Configuring a request may name the class of its query parameters. -/
theorem asks_configureRequest (config : Parameter) {type : Option ClassDef} (queries options headers : Bool)
    (h : ∀ cls, type = some cls → s.context.graph.Holds (.ofClass cls)) :
    (configureRequest s config type queries options headers).Asks e s.context.graph fun _ => True := by
  cases type with
  | none => simp [configureRequest]
  | some cls => simp [configureRequest, h cls rfl]

/-- An operation names only the elements that it carries. -/
theorem asks_operation (op : Operation) (h : ∀ d ∈ op.elements, s.context.graph.Holds d) :
    (operation s op).Asks e s.context.graph fun _ => True := by
  cases op with
  | configureRequest config type queries options headers =>
      exact asks_configureRequest s config queries options headers fun cls hcls =>
        h _ (by simp [Operation.elements, hcls])
  | assignDefault q value enum =>
      cases enum with
      | none => simp [operation]
      | some x => simpa [operation, Operation.elements] using h
  | discriminatorSwitch cases fallback =>
      simp only [Operation.elements, List.mem_append, List.mem_map, List.mem_singleton] at h
      have hcases : ∀ k ∈ cases, s.context.graph.Holds (.ofClass k.type) := fun k hk => h _ (.inl ⟨k, hk, rfl⟩)
      have hfallback : s.context.graph.Holds (.ofClass fallback) := h _ (.inr rfl)
      simp only [operation, discriminatorSwitch, asks_block, asks_bind]
      exact ⟨asks_each fun k hk => by simp [hcases k hk], fun _ _ => by simp [hfallback]⟩
  | construct type => simpa [operation, Operation.elements] using h
  | readProperty q backing key => cases backing <;> simp [operation]
  | writeProperty q value backing key => cases backing <;> simp [operation]
  | _ => simp [operation, fieldMap, addEntries, constructBuilder, mapQueryName]

end Operations

/-! ### Commands -/

section Commands

variable {e : Engine} (s : Site) (options : List CommandOption)

@[simp]
theorem asks_attachment (a : Attachment) : (a.script s).Asks e s.context.graph fun _ => True := by
  cases a <;> simp [Attachment.script]

@[simp]
theorem asks_itemStatement (builder : String) (i : ItemStatement) :
    (i.script s builder).Asks e s.context.graph fun _ => True := by
  cases i <;> simp [ItemStatement.script]

@[simp]
theorem asks_initCommand (l : Locals) (init : InitCommand) :
    (initCommand s l init).Asks e s.context.graph fun _ => True := by
  unfold initCommand
  cases init.source <;> simp

@[simp]
theorem asks_optionType (o : CommandOption) : (optionType s o).Asks e s.context.graph fun _ => True := by
  unfold optionType
  split <;> simp

@[simp]
theorem asks_service (step : HandlerStep) : (service step).Asks e s.context.graph fun _ => True := by
  cases step <;> simp [service]

@[simp]
theorem asks_handlerStep (step : HandlerStep) :
    (handlerStep s options step).Asks e s.context.graph fun _ => True := by
  cases step with
  | send x => cases hvariant : x.variant <;> simp [handlerStep, sendCommand, hvariant]
  | writeOutput mode filter paged => cases mode <;> simp [handlerStep, writeOutput]
  | _ => simp [handlerStep, parseBody, openInputFile, buildRequest, sendPaged]

/-- So does a step of a command. -/
theorem asks_commandStep (l : Locals) (step : CommandStep)
    (h : ∀ d ∈ (Operation.command step).elements, s.context.graph.Holds d) :
    (commandStep s l step).Asks e s.context.graph fun _ => True := by
  cases step with
  | instantiateBuilder b =>
      have htarget : s.context.graph.Holds (.ofClass b.target) := by simpa [Operation.elements] using h
      simp [commandStep, instantiateBuilder, htarget]
  | _ => simp [commandStep, returnItemCommands, addOption, handler]

/-- So do operations in a row, with or without commands. -/
theorem asks_operations (commands : Bool) (l : Locals) {ops : List Operation} (h : Held s.context.graph ops) :
    (operations s commands l ops).Asks e s.context.graph fun _ => True := by
  induction ops generalizing l with
  | nil => exact asks_pure _
  | cons op ops ih =>
      obtain ⟨hop, hops⟩ := held_cons.mp h
      by_cases hcommand : ∃ step, op = .command step
      · obtain ⟨step, rfl⟩ := hcommand
        simp [operations, asks_commandStep s l step hop, asks_operation s _ hop, ih _ hops]
      · rw [operations]
        · simp [asks_operation s op hop, ih l hops]
        · exact fun step heq => hcommand ⟨step, heq⟩

end Commands

/-! ### Classes -/

section Classes

variable {e : Engine}

@[simp]
theorem asks_propertyScript (c : Context) (q : Property) :
    (propertyScript c q).Asks e c.graph fun _ => True := by
  unfold propertyScript
  simp only [asks_ite, asks_bind, asks_within, asks_propertyType, asks_lines, asks_pure, true_and]
  refine ⟨fun _ => trivial, fun _ type _ _ _ => ?_⟩
  split <;> simp

@[simp]
theorem asks_indexerScript (c : Context) (x : Indexer) :
    (indexerScript c x).Asks e c.graph fun _ => True := by
  unfold indexerScript
  dsimp only
  split <;> simp

@[simp]
theorem asks_signature (s : Site) : (signature s).Asks e s.context.graph fun _ => True := by
  have hparameters : (collect s.method.signature (parameterText s)).Asks e s.context.graph fun _ => True :=
    asks_collect fun q _ => by simp [parameterText]
  unfold signature
  simp only [asks_bind, hparameters, true_and]
  intro parameters _
  split <;> simp

@[simp]
theorem asks_nodeCheck (s : Site) : (nodeCheck s).Asks e s.context.graph fun _ => True := by
  unfold nodeCheck
  split <;> simp

/-- A method names only elements of the graph, since its body carries no others. -/
theorem asks_methodScript (he : e.IsStandard) (commands : Bool) (m : Method) :
    (methodScript commands e.context m).Asks e e.context.graph fun _ => True := by
  refine asks_atSite he fun host body _ hbody => ?_
  have hoperations := asks_operations (e := e) ⟨e.context, host, body⟩ commands {} hbody
  have hsignature := asks_signature (e := e) ⟨e.context, host, body⟩
  have hcheck := asks_nodeCheck (e := e) ⟨e.context, host, body⟩
  simp [hoperations, hsignature, hcheck]

/-- So does a class. -/
theorem asks_classScript (he : e.IsStandard) (commands : Bool) (cls : ClassDef) :
    (classScript commands e.context cls).Asks e e.context.graph fun _ => True := by
  have hruntime : (runtimeBases cls).Asks e e.context.graph fun _ => True := by
    simp [runtimeBases]
  have hmethods : ∀ m, (methodScript commands e.context m).Asks e e.context.graph fun _ => True :=
    asks_methodScript he commands
  simp [classScript, hruntime, hmethods]

end Classes

end ClientForge.Render.CSharp
