import ClientForge.Proofs.Render.Planning

/-!
# What C# files plan

Scripts of C# clients, with and without commands, ask for bodies of methods in one place only, where a method is begun.

* **`plans_classScript`.** The script of a class plans the methods that are emitted, one after another.
-/

namespace ClientForge.Render.CSharp

open ClientForge.Graph ClientForge.Plan ClientForge.Convention

/-! ### Types and operations -/

section Operations

variable {e : Engine}

@[simp]
theorem plans_propertyType (c : Context) (p : Property) : (propertyType c p).Plans e [] := by
  unfold propertyType
  split <;> simp

@[simp]
theorem plans_parameterType (c : Context) (p : Parameter) : (parameterType c p).Plans e [] := by
  unfold parameterType
  split
  case h_8 => split <;> simp
  all_goals simp

variable (s : Site)

@[simp]
theorem plans_factory (c : Option ClassDef) : (factory s c).Plans e [] := by
  cases c <;> simp [factory]

@[simp]
theorem plans_typeArgument (slot : ValueSlot) : (typeArgument s slot).Plans e [] := by
  unfold typeArgument
  split <;> simp

@[simp]
theorem plans_readValue (slot : ValueSlot) : (readValue s slot).Plans e [] := by
  unfold readValue
  cases slot.variant <;> simp

@[simp]
theorem plans_errorTable (entries : List ErrorEntry) : (errorTable s entries).Plans e [] := by
  simp [errorTable]

@[simp]
theorem plans_send (x : Send) : (send s x).Plans e [] := by
  unfold send
  split <;> simp

theorem plans_operation (op : Operation) : (operation s op).Plans e [] := by
  cases op with
  | configureRequest config type queries options headers => cases type <;> simp [operation, configureRequest]
  | assignDefault q value enum => cases enum <;> simp [operation]
  | readProperty q backing key => cases backing <;> simp [operation]
  | writeProperty q value backing key => cases backing <;> simp [operation]
  | _ => simp [operation, fieldMap, addEntries, constructBuilder, discriminatorSwitch, mapQueryName]

end Operations

/-! ### Commands -/

section Commands

variable {e : Engine} (s : Site) (options : List CommandOption)

@[simp]
theorem plans_attachment (a : Attachment) : (a.script s).Plans e [] := by
  cases a <;> simp [Attachment.script]

@[simp]
theorem plans_itemStatement (builder : String) (i : ItemStatement) : (i.script s builder).Plans e [] := by
  cases i <;> simp [ItemStatement.script]

@[simp]
theorem plans_initCommand (l : Locals) (init : InitCommand) : (initCommand s l init).Plans e [] := by
  unfold initCommand
  cases init.source <;> simp

@[simp]
theorem plans_optionType (o : CommandOption) : (optionType s o).Plans e [] := by
  unfold optionType
  split <;> simp

@[simp]
theorem plans_service (step : HandlerStep) : (service step).Plans e [] := by
  cases step <;> simp [service]

@[simp]
theorem plans_handlerStep (step : HandlerStep) : (handlerStep s options step).Plans e [] := by
  cases step with
  | send x => cases hvariant : x.variant <;> simp [handlerStep, sendCommand, hvariant]
  | writeOutput mode filter paged => cases mode <;> simp [handlerStep, writeOutput]
  | _ => simp [handlerStep, parseBody, openInputFile, buildRequest, sendPaged]

@[simp]
theorem plans_commandStep (l : Locals) (step : CommandStep) : (commandStep s l step).Plans e [] := by
  cases step <;> simp [commandStep, instantiateBuilder, returnItemCommands, addOption, handler]

theorem plans_operations (commands : Bool) (l : Locals) (ops : List Operation) :
    (operations s commands l ops).Plans e [] := by
  induction ops generalizing l with
  | nil => exact plans_pure _
  | cons op ops ih =>
      by_cases hcommand : ∃ step, op = .command step
      · obtain ⟨step, rfl⟩ := hcommand
        simp [operations, plans_operation, ih]
      · rw [operations]
        · simp [plans_operation, ih]
        · exact fun step heq => hcommand ⟨step, heq⟩

end Commands

/-! ### Classes -/

section Classes

variable {e : Engine}

theorem plans_enumScript (c : Context) (x : Enum) : (enumScript c x).Plans e [] := by
  simp [enumScript, enumOption]

@[simp]
theorem plans_propertyScript (c : Context) (q : Property) : (propertyScript c q).Plans e [] := by
  unfold propertyScript
  simp only [plans_ite, plans_bind_nil, plans_within, plans_propertyType, plans_lines, plans_pure, true_and]
  refine ⟨fun _ => trivial, fun _ type _ _ _ => ?_⟩
  split <;> simp

@[simp]
theorem plans_indexerScript (c : Context) (x : Indexer) : (indexerScript c x).Plans e [] := by
  unfold indexerScript
  dsimp only
  split <;> simp

@[simp]
theorem plans_signature (s : Site) : (signature s).Plans e [] := by
  unfold signature
  refine plans_bind_nil.mpr ⟨plans_collect fun q => by simp [parameterText], fun parameters _ => ?_⟩
  dsimp only
  split <;> simp

@[simp]
theorem plans_nodeCheck (s : Site) : (nodeCheck s).Plans e [] := by
  unfold nodeCheck
  split <;> simp

theorem plans_methodScript (commands : Bool) (c : Context) (m : Method) :
    (methodScript commands c m).Plans e [m] :=
  plans_atSite c fun s => by simp [plans_operations]

/-- A class plans the bodies of the methods that are emitted, in order. -/
theorem plans_classScript (commands : Bool) (c : Context) (cls : ClassDef) :
    (classScript commands c cls).Plans e (cls.methods.filter (isEmitted commands)) := by
  have hruntime : (runtimeBases cls).Plans e [] := by simp [runtimeBases]
  refine plans_after (plans_need _) fun _ _ => plans_after (plans_needAll _) fun _ _ =>
    plans_after (plans_collect (plans_refText c)) fun base _ => plans_after hruntime fun runtime _ =>
    plans_after (plans_collect (plans_refText c)) fun implemented _ => plans_after (plans_lines _) fun _ _ => ?_
  refine plans_block (plans_after (plans_each_nil (plans_propertyScript c)) fun _ _ =>
    plans_after (plans_each_nil (plans_indexerScript c)) fun _ _ => ?_)
  exact plans_each_method (plans_methodScript commands c) _

end Classes

end ClientForge.Render.CSharp
