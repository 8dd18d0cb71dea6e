import ClientForge.Proofs.Render.Asking

/-!
# What TypeScript files ask for

The scripts of TypeScript clients name only elements of the graph.

* **`asks_classScript`.** The script of a class, from its bases to the last operation of its last method.
-/

namespace ClientForge.Render.TypeScript

open ClientForge.Graph ClientForge.Plan ClientForge.Convention

section Types

variable {e : Engine} (c : Context)

@[simp]
theorem asks_runtime (g : Graph) (name : String) : (runtime name).Asks e g fun _ => True := by
  simp [runtime]

@[simp]
theorem asks_typeOf (t : Option TypeExpr) : (typeOf c t).Asks e c.graph fun _ => True := by
  unfold typeOf
  split <;> simp

@[simp]
theorem asks_typeOfRef (t : TypeRef) : (typeOfRef c t).Asks e c.graph fun _ => True := asks_typeOf c _

@[simp]
theorem asks_propertyType (p : Property) : (propertyType c p).Asks e c.graph fun _ => True := by
  unfold propertyType
  split <;> simp

@[simp]
theorem asks_parameterType (p : Parameter) : (parameterType c p).Asks e c.graph fun _ => True := by
  unfold parameterType
  split
  case h_7 =>
    split
    · next config hconfig => simp [holds_bind_classOf hconfig]
    · simp
  all_goals simp

end Types

/-! ### Operations -/

section Operations

variable {e : Engine} (s : Site)

@[simp]
theorem asks_factory (t : TypeRef) : (factory s (s.graph.classOf t)).Asks e s.context.graph fun _ => True := by
  unfold factory
  split
  · next c hc =>
    have hheld : s.context.graph.Holds (.ofClass c) := holds_classOf hc
    simp [hheld]
  · simp

@[simp]
theorem asks_readValue (slot : ValueSlot) : (readValue s slot).Asks e s.context.graph fun _ => True := by
  unfold readValue
  dsimp only
  split <;> simp

/-- Configuring a request may name the class of its query parameters. -/
theorem asks_configureRequest (config : Parameter) {type : Option ClassDef} (queries options headers : Bool)
    (h : ∀ cls, type = some cls → s.context.graph.Holds (.ofClass cls)) :
    (configureRequest s config type queries options headers).Asks e s.context.graph fun _ => True := by
  cases type with
  | none => simp [configureRequest]
  | some cls => simp [configureRequest, h cls rfl]

@[simp]
theorem asks_resultArgument (t : TypeRef) : (resultArgument s t).Asks e s.context.graph fun _ => True := by
  have hfactory := asks_factory (e := e) s t
  unfold resultArgument
  split
  · next hc => rwa [hc] at hfactory
  · simp

/-- An operation names only the elements that it carries. -/
theorem asks_operation (op : Operation) (h : ∀ d ∈ op.elements, s.context.graph.Holds d) :
    (operation s op).Asks e s.context.graph fun _ => True := by
  cases op with
  | configureRequest config type queries options headers =>
      exact asks_configureRequest s config queries options headers fun cls hcls =>
        h _ (by simp [Operation.elements, hcls])
  | assignDefault q value enum =>
      cases enum with
      | none => simp [operation]
      | some x => simpa [operation, Operation.elements] using h
  | discriminatorSwitch cases fallback =>
      simp only [Operation.elements, List.mem_append, List.mem_map, List.mem_singleton] at h
      have hcases : ∀ k ∈ cases, s.context.graph.Holds (.ofClass k.type) := fun k hk => h _ (.inl ⟨k, hk, rfl⟩)
      have hfallback : s.context.graph.Holds (.ofClass fallback) := h _ (.inr rfl)
      simp only [operation, discriminatorSwitch, asks_block, asks_bind]
      exact ⟨asks_each fun k hk => by simp [hcases k hk], fun _ _ => by simp [hfallback]⟩
  | construct type => simpa [operation, Operation.elements] using h
  | readProperty q backing key => cases backing <;> simp [operation]
  | writeProperty q value backing key => cases backing <;> simp [operation]
  | _ => simp [operation, fieldMap, errorTable, send, setEntries, constructBuilder, mapQueryName]

end Operations

/-! ### Classes -/

section Classes

variable {e : Engine}

@[simp]
theorem asks_propertyScript (c : Context) (q : Property) :
    (propertyScript c q).Asks e c.graph fun _ => True := by
  simp [propertyScript]

@[simp]
theorem asks_signature (s : Site) : (signature s).Asks e s.context.graph fun _ => True := by
  have hparameters :
      (collect (declaredParameters s.method) (parameterText s)).Asks e s.context.graph fun _ => True :=
    asks_collect fun q _ => by simp [parameterText]
  unfold signature
  simp only [asks_bind, hparameters, true_and]
  intro parameters _
  split
  case h_7 =>
    simp only [asks_bind, asks_typeOf, true_and]
    intro result _
    split <;> simp
  all_goals simp

@[simp]
theorem asks_prologue (s : Site) : (prologue s).Asks e s.context.graph fun _ => True := by
  unfold prologue
  dsimp only
  split <;> simp

@[simp]
theorem asks_epilogue (s : Site) : (epilogue s).Asks e s.context.graph fun _ => True := by
  unfold epilogue
  split <;> simp

theorem asks_methodScript (he : e.IsStandard) (m : Method) :
    (methodScript e.context m).Asks e e.context.graph fun _ => True := by
  refine asks_atSite he fun host body _ hbody => ?_
  have hoperations : (each body.operations (operation ⟨e.context, host, body⟩)).Asks e e.context.graph
      fun _ => True := asks_each fun op hop => asks_operation ⟨e.context, host, body⟩ op (hbody op hop)
  have hsignature := asks_signature (e := e) ⟨e.context, host, body⟩
  have hprologue := asks_prologue (e := e) ⟨e.context, host, body⟩
  have hepilogue := asks_epilogue (e := e) ⟨e.context, host, body⟩
  simp [hoperations, hsignature, hprologue, hepilogue]

theorem asks_classScript (he : e.IsStandard) (cls : ClassDef) :
    (classScript e.context cls).Asks e e.context.graph fun _ => True := by
  have hmethods : ∀ m, (methodScript e.context m).Asks e e.context.graph fun _ => True := asks_methodScript he
  simp [classScript, hmethods]

end Classes

end ClientForge.Render.TypeScript
