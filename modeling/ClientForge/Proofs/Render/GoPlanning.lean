import ClientForge.Proofs.Render.GoAsking
import ClientForge.Proofs.Render.Planning

/-!
# What Go files plan

Scripts of Go clients ask for the body of a method where the method is begun, and nowhere else.

* **`plans_classScript`.** The script of a class plans its methods, one after another, but for command builders.
-/

namespace ClientForge.Render.Go

open ClientForge.Graph ClientForge.Plan ClientForge.Convention

/-! ### Types -/

section Types

variable {e : Engine} (c : Context)

@[simp]
theorem plans_runtime (path type : String) : (runtime path type).Plans e [] := by
  simp [runtime]

@[simp]
theorem plans_scalar (name : String) : (scalar c name).Plans e [] := by
  simp [scalar]

@[simp]
theorem plans_refType (t : TypeRef) : (refType c t).Plans e [] := by
  unfold refType
  split
  · simp
  · split <;> simp

@[simp]
theorem plans_typeOf (t : Option TypeExpr) : (typeOf c t).Plans e [] := by
  unfold typeOf
  split <;> simp

@[simp]
theorem plans_elementType (t : Option TypeExpr) : (elementType c t).Plans e [] := by
  unfold elementType
  split <;> simp

@[simp]
theorem plans_fieldType (q : Property) : (fieldType c q).Plans e [] := by
  unfold fieldType
  split <;> simp

@[simp]
theorem plans_parameterType (q : Parameter) : (parameterType c q).Plans e [] := by
  unfold parameterType
  split <;> simp

@[simp]
theorem plans_constructorOf (cls : ClassDef) : (constructorOf cls).Plans e [] := by
  simp [constructorOf]

@[simp]
theorem plans_factoryOf (cls : Option ClassDef) : (factoryOf cls).Plans e [] := by
  cases cls <;> simp [factoryOf]

end Types

/-! ### Operations -/

section Operations

variable {e : Engine} (f : Func)

@[simp]
theorem plans_unlessNil {value : String} {body : Script Unit} :
    (unlessNil value body).Plans e [] ↔ body.Plans e [] := by
  simp [unlessNil]

@[simp]
theorem plans_checked (call : String) : (checked f call).Plans e [] := by
  simp [checked]

@[simp]
theorem plans_checkError : (checkError f).Plans e [] := by
  simp [checkError]

@[simp]
theorem plans_accessor (t : Option TypeExpr) : (accessor f.context t).Plans e [] := by
  unfold accessor
  split <;> simp

@[simp]
theorem plans_elementName (t : Option TypeExpr) : (elementName f t).Plans e [] := by
  unfold elementName
  split <;> simp

@[simp]
theorem plans_writeValue (slot : ValueSlot) : (writeValue f slot).Plans e [] := by
  unfold writeValue
  dsimp only
  split <;> simp

@[simp]
theorem plans_readValue (slot : ValueSlot) : (readValue f slot).Plans e [] := by
  unfold readValue
  dsimp only
  split <;> simp [readSingle, readItems]

@[simp]
theorem plans_fieldMap (base : Option ClassDef) (slots : List ValueSlot) : (fieldMap f base slots).Plans e [] := by
  cases base <;> simp [fieldMap]

@[simp]
theorem plans_send (x : Send) : (send f x).Plans e [] := by
  unfold send
  dsimp only
  split <;> simp [returnSingle, returnItems]

@[simp]
theorem plans_discriminatorSwitch (read : Option (Parameter × String)) (cases : List DiscriminatorCase)
    (fallback : ClassDef) : (discriminatorSwitch f read cases fallback).Plans e [] := by
  unfold discriminatorSwitch
  split <;> simp [returnNew]

@[simp]
theorem plans_constructBuilder (target : TypeRef) (paths adapter : Option Property) (extra : List PathEntry) :
    (constructBuilder f target paths adapter extra).Plans e [] := by
  cases htarget : f.graph.classOf target <;> simp [constructBuilder, htarget, copyPaths, setEntries]

theorem plans_operation (read : Option (Parameter × String)) (op : Operation) :
    (operation f read op).Plans e [] := by
  cases op with
  | assignDefault q value enum => cases enum <;> simp [operation, assignDefault]
  | readProperty q backing key => cases backing <;> simp [operation, readProperty]
  | writeProperty q value backing key => cases backing <;> simp [operation]
  | _ =>
      simp [operation, configureRequest, errorTable, seedPathParameters, copyPaths, setEntries, register, returnNew,
        mapQueryName]

theorem plans_operations (read : Option (Parameter × String)) (ops : List Operation) :
    (operations f read ops).Plans e [] := by
  fun_induction operations f read ops with
  | case1 => exact plans_pure _
  | case2 _ node name rest ih => exact ih
  | case3 read op rest _ ih => simp [plans_operation, ih]

end Operations

/-! ### Files -/

section Files

variable {e : Engine}

theorem plans_enumScript (c : Context) (x : Enum) : (enumScript c x).Plans e [] := by
  simp [enumScript, constantScript, stringFunction, parseFunction, parseSwitch, serializeFunction]

@[simp]
theorem plans_embedded (c : Context) (cls : ClassDef) : (embedded c cls).Plans e [] := by
  unfold embedded
  split <;> simp

@[simp]
theorem plans_navigation (c : Context) (cls : ClassDef) (q : Property) : (navigation c cls q).Plans e [] := by
  unfold navigation
  split <;> simp

@[simp]
theorem plans_functionName (s : Site) : (functionName s).Plans e [] := by
  unfold functionName
  split <;> simp

@[simp]
theorem plans_header (s : Site) : (header s).Plans e [] := by
  have hparameters : (collect (declaredParameters s.method) (parameterText s)).Plans e [] :=
    plans_collect fun q => by simp [parameterText]
  unfold header
  simp only [plans_bind_nil, hparameters, plans_only, plans_need, implies_true, true_and]
  intro _ _ parameters _
  split <;> simp [resultType]

@[simp]
theorem plans_prologue (s : Site) (base : Option String) : (prologue s base).Plans e [] := by
  cases base <;> simp [prologue]

@[simp]
theorem plans_epilogue (s : Site) : (epilogue s).Plans e [] := by
  unfold epilogue
  split <;> simp

theorem plans_methodScript (c : Context) (base : Option String) (m : Method) :
    (methodScript c base m).Plans e [m] :=
  plans_atSite c fun s => by simp [plans_operations]

theorem plans_classScript (c : Context) (cls : ClassDef) :
    (classScript c cls).Plans e (cls.methods.filter (isEmitted false)) := by
  refine plans_after (plans_embedded c cls) fun base _ =>
    plans_after (plans_collect fun q => by simp [fieldText]) fun texts _ => plans_after (plans_lines _) fun _ _ => ?_
  refine plans_after (plans_block_nil.mpr (by simp)) fun _ _ =>
    plans_after (plans_each_nil (plans_navigation c cls)) fun _ _ => ?_
  exact plans_each_method (plans_methodScript c base) _

end Files

end ClientForge.Render.Go
