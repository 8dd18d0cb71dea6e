import ClientForge.Proofs.Plan.Composed
import ClientForge.Proofs.Plan.Defaults
import ClientForge.Proofs.Text.Sorted

/-!
# Properties in another order

What is written, read and assigned is sorted first: values by name, and defaults by kind and name. Where no two
properties have the same name, both orders leave no choice, so that the order in which a class declares its properties
is forgotten. Nothing else that planning a value looks at depends on this order (`variantOf_redeclared`).

* `ownProperties_withProperties`, `defaultProperties_withProperties`: what is left of the order of declaration;
* **`plans_free_of_declaration_order`.** The plans of a class are those of the class with its properties rearranged.
-/

namespace ClientForge

open ClientForge.Graph

/-! ### Rearranged classes -/

namespace Plan

/-- A class with other properties. -/
def withProperties (properties : List Property) (cls : ClassDef) : ClassDef := { cls with properties }

/-- The graph with the properties of one class replaced. -/
def redeclared (g : Graph) (id : ClassId) (properties : List Property) : Graph :=
  g.modifyClass id (withProperties properties)

section Graphs

variable {g : Graph} (id : ClassId) (properties : List Property)

/-- Only the class in question is found with other properties. -/
theorem class?_redeclared (other : ClassId) :
    (redeclared g id properties).class? other =
      if id = other then (g.class? other).map (withProperties properties) else g.class? other :=
  class?_modifyClass _ id other

theorem isSome_classOf_redeclared (t : TypeRef) :
    ((redeclared g id properties).classOf t).isSome = (g.classOf t).isSome := by
  unfold classOf
  split
  · rw [class?_redeclared]
    split <;> simp
  · rfl

/-- Classes keep their names. -/
theorem qualifiedName_redeclared (d : DefinitionId) :
    ((redeclared g id properties).definition? d).map (·.qualifiedName) = (g.definition? d).map (·.qualifiedName) := by
  cases d with
  | ofEnum x => rfl
  | ofClass other =>
      simp only [definition?, class?_redeclared]
      split
      · cases g.class? other <;> rfl
      · rfl

theorem refText_redeclared (t : TypeRef) : (redeclared g id properties).refText t = g.refText t := by
  have hsame : (t.definition.bind (redeclared g id properties).definition?).map (·.qualifiedName) =
      (t.definition.bind g.definition?).map (·.qualifiedName) := by
    cases t.definition with
    | none => rfl
    | some d => exact qualifiedName_redeclared id properties d
  unfold refText
  cases hd : t.definition.bind (redeclared g id properties).definition? <;>
    cases hd' : t.definition.bind g.definition? <;> simp_all

mutual

/-- Types are written as before. -/
theorem typeText_redeclared : ∀ t : TypeExpr, (redeclared g id properties).typeText t = g.typeText t
  | .scalar ref => by simp only [typeText, refText_redeclared]
  | .composed form name members nullable => by simp only [typeText, typeTexts_redeclared members]

theorem typeTexts_redeclared : ∀ ts : List TypeExpr, (redeclared g id properties).typeTexts ts = g.typeTexts ts
  | [] => rfl
  | t :: ts => by simp only [typeTexts, typeText_redeclared t, typeTexts_redeclared ts]

end

theorem methodName_redeclared (m : Method) : (redeclared g id properties).methodName m = g.methodName m := by
  unfold methodName memberName
  cases m.parent with
  | none => rfl
  | some other =>
      simp only [Option.bind_some, class?_redeclared]
      by_cases h : id = other
      · rw [if_pos h]
        cases g.class? other <;> rfl
      · rw [if_neg h]

end Graphs

/-! ### What is left of the order -/

section Sorted

variable {cls : ClassDef} {properties : List Property} (hnames : (cls.properties.map (·.name)).Nodup)
  (hperm : properties.Perm cls.properties)
include hnames hperm

/-- An order that tells names apart sorts rearranged properties in the same way. -/
theorem mergeSort_filter_eq {le : Property → Property → Bool} (keep : Property → Bool)
    (htrans : ∀ p q r, le p q = true → le q r = true → le p r = true) (htotal : ∀ p q, (le p q || le q p) = true)
    (hname : ∀ p q, le p q = true → le q p = true → p.name = q.name) :
    (properties.filter keep).mergeSort le = (cls.properties.filter keep).mergeSort le := by
  refine (Text.mergeSort_eq_of_perm_of_antisymm htrans htotal ?_ (hperm.filter keep).symm).symm
  intro p hp q hq hpq hqp
  exact List.inj_on_of_nodup_map hnames (List.mem_filter.mp hp).1 (List.mem_filter.mp hq).1 (hname p q hpq hqp)

/-- The properties that a class handles itself come in the same order, since they are sorted. -/
theorem ownProperties_withProperties (withReadOnly : Bool) :
    ownProperties (withProperties properties cls) withReadOnly = ownProperties cls withReadOnly :=
  mergeSort_filter_eq hnames hperm _ (fun p q r => Text.linearlyOrders_le.trans p.name q.name r.name)
    (fun p q => Text.linearlyOrders_le.total p.name q.name) fun p q => Text.linearlyOrders_le.antisymm p.name q.name

theorem defaultProperties_withProperties :
    defaultProperties (withProperties properties cls) = defaultProperties cls := by
  refine mergeSort_filter_eq hnames hperm _ defaultsOrder_trans defaultsOrder_total fun p q hpq hqp => ?_
  rw [defaultsOrder_iff] at hpq hqp
  rcases hpq with hpq | ⟨_, hpq⟩ <;> rcases hqp with hqp | ⟨_, hqp⟩
  · omega
  · omega
  · omega
  · exact String.le_antisymm hpq hqp

end Sorted

/-! ### Plans -/

section Seen

variable {α β : Type} {x : Except Failure α}

theorem map_inContext (context : String) (f : α → β) : (inContext context x).map f = inContext context (x.map f) := by
  cases x <;> rfl

theorem refuses_map_iff {f : α → β} : Refuses (x.map f) ↔ Refuses x := by
  cases x with
  | ok a => exact iff_of_false (not_refuses_ok _) (not_refuses_ok _)
  | error e => simp only [Refuses, Except.map, Except.error.injEq]

variable (c : Context) (cls : ClassDef) (m : Method)

theorem map_written_serializer :
    (serializer c cls m).map Body.written = (ownProperties cls false).mapM (slotOf c) := by
  cases hslots : (ownProperties cls false).mapM (slotOf c) with
  | ok slots =>
      obtain ⟨body, hbody, hwritten, -⟩ := serializer_eq_ok (m := m) (mapM_eq_ok.mp hslots)
      rw [hbody, ← hwritten]
      rfl
  | error f =>
      rw [serializer, hslots]
      rfl

theorem map_read_deserializer :
    (deserializer c cls m).map Body.read = (ownProperties cls true).mapM (slotOf c) := by
  rw [deserializer]
  cases (ownProperties cls true).mapM (slotOf c) with
  | ok slots => exact congrArg Except.ok (List.append_nil slots)
  | error f => rfl

/-- What a constructor assigns, by the defaults of the class alone. -/
theorem map_assigned_constructor :
    (constructor c cls m).map Body.assigned =
      .ok ((defaultProperties cls).filterMap fun p => (defaultAssignment c.graph p).assignment?) := by
  rw [← assigned_constructor (constructor_eq c cls m), constructor_eq]
  rfl

end Seen

/-- The engine for the graph with the properties of one class replaced. -/
def Engine.redeclaring (e : Engine) (id : ClassId) (properties : List Property) : Engine :=
  e.onGraph (redeclared e.context.graph id properties)

section Plans

variable {e : Engine} {id : ClassId} {cls : ClassDef} {m : Method} {properties : List Property}

theorem variantOf_redeclared (t : Option TypeExpr) :
    variantOf (e.redeclaring id properties).context t = variantOf e.context t := by
  unfold variantOf
  split
  · simp only [Engine.redeclaring, Engine.onGraph, Convention.unsupportedType, typeText_redeclared]
  · simp only [Engine.redeclaring, Engine.onGraph, isSome_classOf_redeclared]
    rfl

theorem slotOf_redeclared : slotOf (e.redeclaring id properties).context = slotOf e.context := by
  funext p
  rw [slotOf, slotOf, variantOf_redeclared]

/-- A method of the class is found in the class with the other properties. -/
theorem parentOf_redeclared (hparent : m.parent = some id) (hcls : e.context.graph.class? id = some cls) :
    (e.redeclaring id properties).context.graph.parentOf m = some (withProperties properties cls) := by
  change (redeclared e.context.graph id properties).parentOf m = _
  rw [parentOf, hparent, Option.bind_some, class?_redeclared, if_pos rfl, hcls]
  rfl

/-- What is seen of a plan is the same if it is the same of what the handler plans. -/
theorem map_synthesize_redeclaring {α : Type} {see : Body → α} {handler : Handler} (hparent : m.parent = some id)
    (hcls : e.context.graph.class? id = some cls) (hhandler : e.handlers m.kind = some handler)
    (h : (handler.body (e.redeclaring id properties).context (withProperties properties cls) m).map see =
      (handler.body e.context cls m).map see) :
    ((e.redeclaring id properties).synthesize m).map see = (e.synthesize m).map see := by
  have hparentOf : e.context.graph.parentOf m = some cls := by rw [parentOf, hparent, Option.bind_some, hcls]
  have hname : (e.redeclaring id properties).context.graph.methodName m = e.context.graph.methodName m :=
    methodName_redeclared id properties m
  rw [synthesize_in_class hhandler hparentOf,
    synthesize_in_class (e := e.redeclaring id properties) hhandler (parentOf_redeclared hparent hcls),
    map_inContext, map_inContext, h, hname]

end Plans

/-- Where no two properties of a class have the same name, the class can declare them in any order: what its serializer
writes, what its deserializer reads and what its constructors assign stay as they are, and so does whether a plan is
refused for a type. -/
theorem plans_free_of_declaration_order {e : Engine} {id : ClassId} {cls : ClassDef} {m : Method}
    {properties : List Property} (hhandler : e.handlers m.kind = defaultHandlers m.kind) (hparent : m.parent = some id)
    (hcls : e.context.graph.class? id = some cls) (hnames : (cls.properties.map (·.name)).Nodup)
    (hperm : properties.Perm cls.properties) :
    (m.kind = .serializer →
      ((e.redeclaring id properties).synthesize m).map Body.written = (e.synthesize m).map Body.written ∧
      (Refuses ((e.redeclaring id properties).synthesize m) ↔ Refuses (e.synthesize m))) ∧
    (m.kind = .deserializer →
      ((e.redeclaring id properties).synthesize m).map Body.read = (e.synthesize m).map Body.read ∧
      (Refuses ((e.redeclaring id properties).synthesize m) ↔ Refuses (e.synthesize m))) ∧
    (m.kind.isConstructor = true →
      ((e.redeclaring id properties).synthesize m).map Body.assigned = (e.synthesize m).map Body.assigned ∧
      (Refuses ((e.redeclaring id properties).synthesize m) ↔ Refuses (e.synthesize m))) := by
  -- a failure is seen as it is, so plans that are seen to be the same are refused alike
  have hrefuses {α : Type} {see : Body → α}
      (h : ((e.redeclaring id properties).synthesize m).map see = (e.synthesize m).map see) :
      ((e.redeclaring id properties).synthesize m).map see = (e.synthesize m).map see ∧
        (Refuses ((e.redeclaring id properties).synthesize m) ↔ Refuses (e.synthesize m)) :=
    ⟨h, by rw [← refuses_map_iff (f := see), h, refuses_map_iff]⟩
  refine ⟨fun hkind => hrefuses ?_, fun hkind => hrefuses ?_, fun hkind => hrefuses ?_⟩
  · refine map_synthesize_redeclaring hparent hcls (hhandler.trans (by rw [hkind]; rfl)) ?_
    rw [map_written_serializer, map_written_serializer, ownProperties_withProperties hnames hperm, slotOf_redeclared]
  · refine map_synthesize_redeclaring hparent hcls (hhandler.trans (by rw [hkind]; rfl)) ?_
    rw [map_read_deserializer, map_read_deserializer, ownProperties_withProperties hnames hperm, slotOf_redeclared]
  · refine map_synthesize_redeclaring hparent hcls (hhandler.trans (defaultHandlers_of_isConstructor hkind)) ?_
    rw [map_assigned_constructor, map_assigned_constructor, defaultProperties_withProperties hnames hperm]
    rfl

namespace PaletteSample

def number : Option TypeExpr := some (.scalar { name := "integer" })

def hue : Property := { name := "Hue", type := number, defaultValue := "0" }

def key : Property := { name := "Id", type := some (.scalar { name := "guid" }), readOnly := true }

def shade : Property := { name := "Shade", type := number, defaultValue := "1" }

def store : Property := { name := "Store", kind := .backingStore, defaultValue := "create()" }

def method (index : Nat) (name : String) (kind : MethodKind) : Method :=
  { id := ⟨⟨0⟩, index⟩, name, kind, parent := some ⟨0⟩ }

def write : Method := method 0 "Serialize" .serializer

def read : Method := method 1 "GetFieldDeserializers" .deserializer

def create : Method := method 2 "Palette" .constructor

/-- A class that declares its properties by name, from the last to the first. -/
def palette : ClassDef :=
  { id := ⟨0⟩, name := "Palette", home := some ⟨⟨0⟩, "Sdk"⟩, properties := [store, shade, key, hue]
    methods := [write, read, create] }

def engine : Engine :=
  defaultEngine ⟨{ root := { id := ⟨0⟩, name := "Sdk", classes := [⟨0⟩] }, classes := #[palette], enums := #[] },
    Convention.csharpPolicy, {}⟩

/-- With the properties by name there is nothing left to sort but the kinds. -/
theorem ownProperties_reversed (withReadOnly : Bool) :
    ownProperties (withProperties palette.properties.reverse palette) withReadOnly =
      if withReadOnly then [hue, key, shade] else [hue, shade] := by
  unfold ownProperties
  cases withReadOnly <;> rw [List.mergeSort_of_pairwise (by decide)] <;> rfl

end PaletteSample

open PaletteSample in
/-- A palette is planned as if it had declared its properties in the reverse order, and so by name. -/
theorem palette_free_of_declaration_order :
    (engine.synthesize write).map Body.written = .ok [⟨"hue", hue, .primitive⟩, ⟨"shade", shade, .primitive⟩] ∧
    (engine.synthesize read).map Body.read =
      .ok [⟨"hue", hue, .primitive⟩, ⟨"id", key, .primitive⟩, ⟨"shade", shade, .primitive⟩] ∧
    ((engine.redeclaring ⟨0⟩ palette.properties.reverse).synthesize create).map Body.assigned =
      (engine.synthesize create).map Body.assigned := by
  have hfree (m : Method) (hparent : m.parent = some ⟨0⟩) := plans_free_of_declaration_order (e := engine) (m := m) rfl
    hparent (rfl : engine.context.graph.class? ⟨0⟩ = some palette) (by decide) (List.reverse_perm _)
  refine ⟨?_, ?_, ((hfree create rfl).2.2 rfl).1⟩
  · rw [← ((hfree write rfl).1 rfl).1, synthesize_in_class rfl rfl, map_inContext]
    exact congrArg (inContext _) ((map_written_serializer _ _ _).trans (by rw [ownProperties_reversed]))
  · rw [← ((hfree read rfl).2.1 rfl).1, synthesize_in_class rfl rfl, map_inContext]
    exact congrArg (inContext _) ((map_read_deserializer _ _ _).trans (by rw [ownProperties_reversed]))

end Plan

end ClientForge
