import ClientForge.Proofs.Render.Asking
import ClientForge.Render.GoFile

/-!
# What Go files ask for

The scripts of Go clients name only elements of the graph, and of the runtime they need only a few packages,
each of which has a name of its own.

* **`asks_classScript`, `asks_enumScript`.** The scripts of a class and of an enum.
-/

namespace ClientForge.Render.Go

open ClientForge.Graph ClientForge.Plan ClientForge.Convention

/-! ### Packages of the runtime -/

/-- The packages of the runtime, by import path, with the names under which Go code knows them. -/
def runtimePackages : List (String × String) :=
  [(abstractionsPath, "abstractions"), (serializationPath, "serialization"), (storePath, "store"),
    (uuidPath, "uuid"), ("time", "time"), ("strings", "strings"), ("errors", "errors"), ("context", "context")]

def IsRuntime (path : String) : Prop := path ∈ runtimePackages.map (·.1)

instance (path : String) : Decidable (IsRuntime path) := inferInstanceAs (Decidable (_ ∈ _))

/-- The packages that scripts need are those of the runtime. -/
@[simp]
theorem isRuntime_paths :
    IsRuntime abstractionsPath ∧ IsRuntime serializationPath ∧ IsRuntime storePath ∧ IsRuntime "time" ∧
      IsRuntime "strings" ∧ IsRuntime "errors" ∧ IsRuntime "context" := by
  decide +kernel

theorem isRuntime_scalarImports : ∀ i ∈ scalarImports, IsRuntime i.2 := by decide +kernel

/-! ### Types -/

section Types

variable {e : Engine} (c : Context)

@[simp]
theorem asks_runtime {g : Graph} {path type : String} :
    (runtime path type).Asks e g IsRuntime ↔ IsRuntime path := by
  simp [runtime]

@[simp]
theorem asks_scalar (g : Graph) (name : String) : (scalar c name).Asks e g IsRuntime := by
  have hneeded : ∀ item ∈ ((scalarImports.find? fun i => Text.startsWith (c.policy.scalarName name) i.1).map
      (·.2)).toList, IsRuntime item := by
    intro item hitem
    obtain ⟨i, hfound, rfl⟩ := Option.map_eq_some_iff.mp (Option.mem_toList.mp hitem)
    exact isRuntime_scalarImports i (List.mem_of_find?_eq_some hfound)
  simp only [scalar, asks_bind, asks_needAll, asks_pure, implies_true, and_true]
  exact hneeded

@[simp]
theorem asks_refType (t : TypeRef) : (refType c t).Asks e c.graph IsRuntime := by
  unfold refType
  split
  · simp
  · split
    · next cls hcls => simp [holds_classOf hcls]
    · simp

@[simp]
theorem asks_typeOf (t : Option TypeExpr) : (typeOf c t).Asks e c.graph IsRuntime := by
  unfold typeOf
  split <;> simp

@[simp]
theorem asks_elementType (t : Option TypeExpr) : (elementType c t).Asks e c.graph IsRuntime := by
  unfold elementType
  split <;> simp

@[simp]
theorem asks_fieldType (q : Property) : (fieldType c q).Asks e c.graph IsRuntime := by
  unfold fieldType
  split <;> simp

@[simp]
theorem asks_parameterType (q : Parameter) : (parameterType c q).Asks e c.graph IsRuntime := by
  unfold parameterType
  split <;> simp

end Types

/-! ### Functions -/

section Functions

variable {e : Engine} {g : Graph}

@[simp]
theorem asks_constructorOf {c : ClassDef} : (constructorOf c).Asks e g IsRuntime ↔ g.Holds (.ofClass c) := by
  simp [constructorOf]

theorem asks_factoryOf {c : Option ClassDef} :
    (factoryOf c).Asks e g IsRuntime ↔ ∀ cls, c = some cls → g.Holds (.ofClass cls) := by
  cases c <;> simp [factoryOf]

end Functions

/-! ### Operations -/

section Operations

variable {e : Engine} (f : Func)

@[simp]
theorem asks_unlessNil {g : Graph} {value : String} {body : Script Unit} :
    (unlessNil value body).Asks e g IsRuntime ↔ body.Asks e g IsRuntime := by
  simp [unlessNil]

@[simp]
theorem asks_checked (g : Graph) (call : String) : (checked f call).Asks e g IsRuntime := by
  simp [checked]

@[simp]
theorem asks_checkError (g : Graph) : (checkError f).Asks e g IsRuntime := by
  simp [checkError]

@[simp]
theorem asks_accessor (g : Graph) (t : Option TypeExpr) : (accessor f.context t).Asks e g IsRuntime := by
  unfold accessor
  split <;> simp

@[simp]
theorem asks_elementName (t : Option TypeExpr) : (elementName f t).Asks e f.context.graph IsRuntime := by
  unfold elementName
  split <;> simp

@[simp]
theorem asks_factoryOf_classOf (t : TypeRef) :
    (factoryOf (f.graph.classOf t)).Asks e f.context.graph IsRuntime :=
  asks_factoryOf.mpr fun _ h => holds_classOf h

@[simp]
theorem asks_factoryOf_elementClass (t : Option TypeExpr) :
    (factoryOf (elementClass f t)).Asks e f.context.graph IsRuntime :=
  asks_factoryOf.mpr fun _ h => holds_bind_classOf h

@[simp]
theorem asks_writeValue (slot : ValueSlot) : (writeValue f slot).Asks e f.context.graph IsRuntime := by
  unfold writeValue
  dsimp only
  split <;> simp

@[simp]
theorem asks_readValue (slot : ValueSlot) : (readValue f slot).Asks e f.context.graph IsRuntime := by
  unfold readValue
  dsimp only
  split <;> simp [readSingle, readItems]

@[simp]
theorem asks_fieldMap (base : Option ClassDef) (slots : List ValueSlot) :
    (fieldMap f base slots).Asks e f.context.graph IsRuntime := by
  cases base <;> simp [fieldMap]

@[simp]
theorem asks_send (x : Send) : (send f x).Asks e f.context.graph IsRuntime := by
  unfold send
  dsimp only
  split <;> simp [returnSingle, returnItems]

/-- A default may name the enum that it is an option of. -/
theorem asks_assignDefault (q : Property) (value : String) {enum : Option Enum}
    (h : ∀ x, enum = some x → f.context.graph.Holds (.ofEnum x)) :
    (assignDefault f q value enum).Asks e f.context.graph IsRuntime := by
  cases enum with
  | none => simp [assignDefault]
  | some x => simp [assignDefault, h x rfl]

@[simp]
theorem asks_returnNew {g : Graph} {c : ClassDef} :
    (returnNew c).Asks e g IsRuntime ↔ g.Holds (.ofClass c) := by
  simp [returnNew]

/-- A switch names the classes of its cases and the one for all other values. -/
theorem asks_discriminatorSwitch (read : Option (Parameter × String)) {cases : List DiscriminatorCase}
    {fallback : ClassDef} {g : Graph} (hcases : ∀ k ∈ cases, g.Holds (.ofClass k.type))
    (hfallback : g.Holds (.ofClass fallback)) :
    (discriminatorSwitch f read cases fallback).Asks e g IsRuntime := by
  have hswitch : (each cases fun c => do
      line s!"case {Text.quoted c.key}:"
      indented (returnNew c.type)).Asks e g IsRuntime := asks_each fun k hk => by simp [hcases k hk]
  unfold discriminatorSwitch
  split <;> simp [hswitch, hfallback]

@[simp]
theorem asks_constructBuilder (target : TypeRef) (paths adapter : Option Property) (extra : List PathEntry) :
    (constructBuilder f target paths adapter extra).Asks e f.context.graph IsRuntime := by
  cases htarget : f.graph.classOf target with
  | none => simp [constructBuilder, htarget, copyPaths, setEntries]
  | some cls =>
      have hheld : f.context.graph.Holds (.ofClass cls) := holds_classOf htarget
      simp [constructBuilder, htarget, hheld, copyPaths, setEntries]

@[simp]
theorem asks_readProperty (q : Property) (backing : Option Property) (key : String) :
    (readProperty f q backing key).Asks e f.context.graph IsRuntime := by
  cases backing <;> simp [readProperty]

/-- An operation names only the elements that it carries. -/
theorem asks_operation (read : Option (Parameter × String)) (op : Operation)
    (h : ∀ d ∈ op.elements, f.context.graph.Holds d) :
    (operation f read op).Asks e f.context.graph IsRuntime := by
  cases op with
  | assignDefault q value enum =>
      exact asks_assignDefault f q value fun x hx => h _ (by simp [Operation.elements, hx])
  | discriminatorSwitch cases fallback =>
      simp only [Operation.elements, List.mem_append, List.mem_map, List.mem_singleton] at h
      exact asks_discriminatorSwitch f read (fun k hk => h _ (.inl ⟨k, hk, rfl⟩)) (h _ (.inr rfl))
  | construct type => simpa [operation, Operation.elements] using h
  | writeProperty q value backing key => cases backing <;> simp [operation]
  | _ =>
      simp [operation, configureRequest, errorTable, seedPathParameters, copyPaths, setEntries, register,
        mapQueryName]

/-- So do operations in a row. -/
theorem asks_operations (read : Option (Parameter × String)) (ops : List Operation)
    (h : Held f.context.graph ops) : (operations f read ops).Asks e f.context.graph IsRuntime := by
  fun_induction operations f read ops with
  | case1 => exact asks_pure _
  | case2 _ node name rest ih => exact ih fun op hop => h op (.tail _ hop)
  | case3 read op rest _ ih =>
      have hop := asks_operation (e := e) f read op (h op (.head _))
      have hrest := ih fun op hop => h op (.tail _ hop)
      simp [hop, hrest]

end Operations

/-! ### Files -/

section Files

variable {e : Engine}

@[simp]
theorem asks_enumScript (c : Context) (x : Enum) (g : Graph) : (enumScript c x).Asks e g IsRuntime := by
  simp [enumScript, constantScript, stringFunction, parseFunction, parseSwitch, serializeFunction]

@[simp]
theorem asks_embedded (c : Context) (cls : ClassDef) : (embedded c cls).Asks e c.graph IsRuntime := by
  unfold embedded
  split <;> simp

@[simp]
theorem asks_navigation (c : Context) (cls : ClassDef) (q : Property) :
    (navigation c cls q).Asks e c.graph IsRuntime := by
  unfold navigation
  split
  · simp
  · next t target h =>
    obtain ⟨_, _, h⟩ := Option.bind_eq_some_iff.mp h
    obtain ⟨_, htarget, heq⟩ := Option.map_eq_some_iff.mp h
    cases heq
    simp [holds_classOf htarget]

@[simp]
theorem asks_functionName {s : Site} (h : s.context.graph.Holds (.ofClass s.host)) :
    (functionName s).Asks e s.context.graph IsRuntime := by
  unfold functionName
  split <;> simp [h, asks_factoryOf]

@[simp]
theorem asks_resultType (s : Site) : (resultType s).Asks e s.context.graph IsRuntime := by
  simp [resultType]

theorem asks_header {s : Site} (h : s.context.graph.Holds (.ofClass s.host)) :
    (header s).Asks e s.context.graph IsRuntime := by
  have hparameters : (collect (declaredParameters s.method) (parameterText s)).Asks e s.context.graph IsRuntime :=
    asks_collect fun q _ => by simp [parameterText]
  unfold header
  simp only [asks_bind, hparameters, asks_only, asks_need, isRuntime_paths, implies_true, true_and]
  intro _ _ parameters _
  split <;> simp [asks_functionName h]

@[simp]
theorem asks_prologue (s : Site) (base : Option String) (g : Graph) :
    (prologue s base).Asks e g IsRuntime := by
  cases base <;> simp [prologue]

@[simp]
theorem asks_epilogue (s : Site) (g : Graph) : (epilogue s).Asks e g IsRuntime := by
  unfold epilogue
  split <;> simp

/-- A method names only elements of the graph, since its body carries no others. -/
theorem asks_methodScript (he : e.IsStandard) (base : Option String) (m : Method) :
    (methodScript e.context base m).Asks e e.context.graph IsRuntime := by
  refine asks_atSite he fun host body hhost hbody => ?_
  have hheader := asks_header (e := e) (s := ⟨e.context, host, body⟩) hhost
  have hname := asks_functionName (e := e) (s := ⟨e.context, host, body⟩) hhost
  have hoperations : ∀ giveUp, (operations ⟨⟨e.context, host, body⟩, giveUp⟩ none body.operations).Asks e
      e.context.graph IsRuntime := fun giveUp => asks_operations ⟨⟨e.context, host, body⟩, giveUp⟩ none _ hbody
  simp [hheader, hname, hoperations]

theorem asks_classScript (he : e.IsStandard) (cls : ClassDef) :
    (classScript e.context cls).Asks e e.context.graph IsRuntime := by
  have hmethods : ∀ base m, (methodScript e.context base m).Asks e e.context.graph IsRuntime :=
    asks_methodScript he
  have hfields : (collect (fields cls) (fieldText e.context)).Asks e e.context.graph IsRuntime :=
    asks_collect fun q _ => by simp [fieldText]
  simp [classScript, hmethods, hfields]

end Files

end ClientForge.Render.Go
