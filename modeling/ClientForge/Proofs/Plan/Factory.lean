import ClientForge.Convention.Language
import ClientForge.Plan.Engine
import ClientForge.Plan.Evaluation
import ClientForge.Proofs.Failure
import ClientForge.Proofs.Graph.Valid
import Mathlib.Data.List.Nodup

/-!
# Choosing a class by a discriminator

A factory tries the mappings of its class in order and takes the first whose key is the value at hand. In a
valid graph the keys differ and every mapping leads to a class, so the choice is that of the relation
`Selects`, which knows no order.

* `Selects.unique`: a value selects one class at most;
* `exists_selected`: a planned factory constructs the class that the value selects;
* `Selects.reorder`: another order of the mappings selects the same classes;
* `factory_dispatch_exact`: both, for every factory of a valid graph.
-/

namespace ClientForge.Plan

open ClientForge.Graph

/-! ### Planning a method in its class -/

/-- A method with a class and a handler has the body that the handler gives. -/
theorem synthesize_in_class {e : Engine} {m : Method} {cls : ClassDef} {handler : Handler}
    (hhandler : e.handlers m.kind = some handler) (hparent : e.context.graph.parentOf m = some cls) :
    e.synthesize m = inContext ("synthesize " ++ m.kind.name ++ " " ++ e.context.graph.methodName m)
      (handler.body e.context cls m) := by
  simp [Engine.synthesize, hhandler, hparent]

/-! ### Selection -/

/-- The class that a discriminator value selects: the target of the mapping with that key, or else the class
itself. -/
inductive Selects (g : Graph) (cls : ClassDef) (value : Option String) : ClassDef → Prop where
  | mapped {x : DiscriminatorMapping} {target : ClassDef} (hx : x ∈ cls.discriminator.mappings)
      (hkey : value = some x.key) (htarget : x.type.bind g.classOf = some target) : Selects g cls value target
  | fallback (h : ∀ x ∈ cls.discriminator.mappings, value ≠ some x.key) : Selects g cls value cls

/-- The mappings of a class have distinct keys and lead to classes. -/
structure Dispatchable (g : Graph) (cls : ClassDef) : Prop where
  keys : (cls.discriminator.mappings.map (·.key)).Nodup
  targets : ∀ x ∈ cls.discriminator.mappings, ∃ target, x.type.bind g.classOf = some target

/-- In a valid graph every class can be dispatched on. -/
theorem dispatchable_of_valid {g : Graph} {cls : ClassDef} (hvalid : g.violations = [])
    (hcls : cls ∈ g.allClasses) : Dispatchable g cls := by
  obtain ⟨hkeys, htargets⟩ := discriminator_of_valid hvalid hcls
  refine ⟨hkeys, fun x hx => ?_⟩
  obtain ⟨target, htarget, _⟩ := isListedClass_iff.mp (htargets x hx)
  exact ⟨target, htarget⟩

/-- A value selects one class only. -/
theorem Selects.unique {g : Graph} {cls t t' : ClassDef} {value : Option String} (hd : Dispatchable g cls)
    (h : Selects g cls value t) (h' : Selects g cls value t') : t = t' := by
  cases h with
  | mapped hx hkey htarget =>
      cases h' with
      | mapped hx' hkey' htarget' =>
          have hsame := List.inj_on_of_nodup_map hd.keys hx hx' (Option.some.inj (hkey.symm.trans hkey'))
          subst hsame
          exact Option.some.inj (htarget.symm.trans htarget')
      | fallback hnone => exact (hnone _ hx hkey).elim
  | fallback hnone =>
      cases h' with
      | mapped hx hkey _ => exact (hnone _ hx hkey).elim
      | fallback => rfl

/-! ### Planned factories -/

section Planned

variable {c : Context} {cls : ClassDef} {m : Method}

/-- A mapping becomes a case exactly if it leads to a class. -/
theorem discriminatorCase_eq_ok {g : Graph} {x : DiscriminatorMapping} {k : DiscriminatorCase} :
    discriminatorCase g cls x = .ok k ↔ k.key = x.key ∧ x.type.bind g.classOf = some k.type := by
  unfold discriminatorCase
  cases x.type.bind g.classOf with
  | none => simp [structural]
  | some target =>
      cases k
      simp [eq_comm]

/-- Without a property or mappings to go by, the class itself is constructed. -/
theorem factory_of_trivial (h : cls.discriminator.isTrivial = true) :
    factory c cls m = .ok { method := m, operations := [.construct cls] } := by
  unfold factory
  rw [h]
  cases m.parameterOfKind .parseNode <;> rfl

/-- A factory with a node to read tries the mappings in their order. -/
theorem factory_of_mappings {node : Parameter} (hd : Dispatchable c.graph cls)
    (hnode : m.parameterOfKind .parseNode = some node) (h : cls.discriminator.isTrivial = false) :
    ∃ cases, List.Forall₂ (fun x k => discriminatorCase c.graph cls x = .ok k)
        cls.discriminator.mappings cases ∧
      factory c cls m = .ok {
        method := m
        operations :=
          [.readDiscriminator node cls.discriminator.propertyName, .discriminatorSwitch cases cls] } := by
  have hcases : ∃ cases, cls.discriminator.mappings.mapM (discriminatorCase c.graph cls) = .ok cases := by
    apply exists_mapM_eq_ok
    intro x hx
    obtain ⟨target, htarget⟩ := hd.targets x hx
    exact ⟨⟨x.key, target⟩, discriminatorCase_eq_ok.mpr ⟨rfl, htarget⟩⟩
  obtain ⟨cases, hcases⟩ := hcases
  refine ⟨cases, mapM_eq_ok.mp hcases, ?_⟩
  simp only [factory, hnode, h]
  exact bind_eq_ok.mpr ⟨cases, hcases, rfl⟩

/-- The first case with the key of the value belongs to a mapping with that key. -/
theorem exists_selected {g : Graph} {cases : List DiscriminatorCase}
    (h : List.Forall₂ (fun x k => discriminatorCase g cls x = .ok k) cls.discriminator.mappings cases)
    (node : Parameter) (name : String) (value : Option String) :
    ∃ target, constructed value [.readDiscriminator node name, .discriminatorSwitch cases cls] = some target ∧
      Selects g cls value target := by
  cases hfound : value.bind fun v => cases.find? (·.key == v) with
  | some k =>
      obtain ⟨v, rfl, hfind⟩ := Option.bind_eq_some_iff.mp hfound
      have hkey : k.key = v := by simpa using List.find?_some hfind
      obtain ⟨x, hx, hcase⟩ := exists_of_mem_right h (List.mem_of_find?_eq_some hfind)
      obtain ⟨hkey', htarget⟩ := discriminatorCase_eq_ok.mp hcase
      refine ⟨k.type, by simp [constructed, hfound], ?_⟩
      exact .mapped hx (by rw [← hkey, hkey']) htarget
  | none =>
      refine ⟨cls, by simp [constructed, hfound], .fallback fun x hx hvalue => ?_⟩
      obtain ⟨k, hk, hcase⟩ := exists_of_mem_left h hx
      rw [hvalue, Option.bind_some, List.find?_eq_none] at hfound
      exact hfound k hk (by simp [(discriminatorCase_eq_ok.mp hcase).1])

end Planned

/-! ### Other orders -/

section Order

variable {g : Graph} {cls : ClassDef} {mappings : List DiscriminatorMapping}

/-- A class with other mappings. -/
def withMappings (mappings : List DiscriminatorMapping) (cls : ClassDef) : ClassDef :=
  { cls with discriminator := { cls.discriminator with mappings } }

/-- The graph with the mappings of one class replaced. -/
def remapped (g : Graph) (id : ClassId) (mappings : List DiscriminatorMapping) : Graph :=
  g.modifyClass id (withMappings mappings)

/-- Only the class in question is changed. -/
theorem class?_modifyClass (f : ClassDef → ClassDef) (id other : ClassId) :
    (g.modifyClass id f).class? other = if id = other then (g.class? other).map f else g.class? other := by
  cases id
  cases other
  simp [modifyClass, class?, Array.getElem?_modify]

/-- Only the class in question is found with other mappings. -/
theorem class?_remapped (id other : ClassId) :
    (remapped g id mappings).class? other =
      if id = other then (g.class? other).map (withMappings mappings) else g.class? other :=
  class?_modifyClass _ id other

/-- A type refers to a class of the same identity as before. -/
theorem classOf_remapped {id : ClassId} {t : TypeRef} {target : ClassDef} (h : g.classOf t = some target) :
    ∃ target', (remapped g id mappings).classOf t = some target' ∧ target'.id = target.id := by
  unfold classOf at h ⊢
  split at h
  · rename_i other _
    rw [class?_remapped]
    split
    · exact ⟨withMappings mappings target, by rw [h]; rfl, rfl⟩
    · exact ⟨target, h, rfl⟩
  · cases h

/-- A type leads to the class of the same identity as before. -/
theorem target_remapped {id : ClassId} {t : Option TypeRef} {target : ClassDef}
    (h : t.bind g.classOf = some target) :
    ∃ target', t.bind (remapped g id mappings).classOf = some target' ∧ target'.id = target.id := by
  obtain ⟨t, rfl, htarget⟩ := Option.bind_eq_some_iff.mp h
  exact classOf_remapped htarget

variable (hperm : mappings.Perm cls.discriminator.mappings)
include hperm

theorem Dispatchable.reorder (h : Dispatchable g cls) :
    Dispatchable (remapped g cls.id mappings) (withMappings mappings cls) := by
  refine ⟨(hperm.map _).nodup_iff.mpr h.keys, fun x hx => ?_⟩
  obtain ⟨target, htarget⟩ := h.targets x (hperm.mem_iff.mp hx)
  obtain ⟨target', htarget', _⟩ := target_remapped htarget
  exact ⟨target', htarget'⟩

/-- A value selects the same class, in whichever order the mappings are. -/
theorem Selects.reorder {value : Option String} {t : ClassDef} (h : Selects g cls value t) :
    ∃ t', Selects (remapped g cls.id mappings) (withMappings mappings cls) value t' ∧ t'.id = t.id := by
  cases h with
  | mapped hx hkey htarget =>
      obtain ⟨t', htarget', hid⟩ := target_remapped htarget
      exact ⟨t', .mapped (hperm.mem_iff.mpr hx) hkey htarget', hid⟩
  | fallback hnone => exact ⟨_, .fallback fun x hx => hnone x (hperm.mem_iff.mp hx), rfl⟩

end Order

/-! ### Dispatch -/

/-- The engine with the same options and handlers for another graph. -/
def Engine.onGraph (e : Engine) (g : Graph) : Engine := { e with context := { e.context with graph := g } }

/-- A factory can be planned, and for every value it constructs the one class that the value selects. -/
def Dispatches (e : Engine) (cls : ClassDef) (m : Method) (body : Body) : Prop :=
  e.synthesize m = .ok body ∧ ∀ value, ∃ target, resolveFactory e.context.graph body value = .ok target ∧
    ∀ t, Selects e.context.graph cls value t ↔ t = target

section Dispatch

variable {e : Engine} {cls : ClassDef} {m : Method}

theorem isTrivial_iff {d : Discriminator} : d.isTrivial = true ↔ d.propertyName = "" ∨ d.mappings = [] := by
  simp [Discriminator.isTrivial]

/-- A factory of a class has the body that is planned for it. -/
theorem synthesize_factory {body : Body} (hhandler : e.handlers .factory = defaultHandlers .factory)
    (hkind : m.kind = .factory) (hparent : e.context.graph.parentOf m = some cls)
    (h : factory e.context cls m = .ok body) : e.synthesize m = .ok body := by
  rw [synthesize_in_class (by rw [hkind, hhandler]; rfl) hparent, inContext, mapError_eq_ok]
  exact h

/-- A factory with a node to read from has a body that dispatches. -/
theorem exists_dispatches (hhandler : e.handlers .factory = defaultHandlers .factory)
    (hkind : m.kind = .factory) (hparent : e.context.graph.parentOf m = some cls)
    (hd : Dispatchable e.context.graph cls) (hnode : (m.parameterOfKind .parseNode).isSome)
    (hmappings : cls.discriminator.isTrivial = false) : ∃ body, Dispatches e cls m body := by
  obtain ⟨node, hnode⟩ := Option.isSome_iff_exists.mp hnode
  obtain ⟨cases, hcases, hfactory⟩ := factory_of_mappings hd hnode hmappings
  refine ⟨_, synthesize_factory hhandler hkind hparent hfactory, fun value => ?_⟩
  obtain ⟨target, hconstructed, hselects⟩ := exists_selected hcases node cls.discriminator.propertyName value
  refine ⟨target, by simp only [resolveFactory, hconstructed], fun t => ⟨fun h => h.unique hd hselects, ?_⟩⟩
  rintro rfl
  exact hselects

/-- The class of a method keeps its place when its mappings are replaced. -/
theorem parentOf_remapped {g : Graph} {mappings : List DiscriminatorMapping} (hparent : m.parent = some cls.id)
    (hcls : g.class? cls.id = some cls) :
    (remapped g cls.id mappings).parentOf m = some (withMappings mappings cls) := by
  rw [parentOf, hparent, Option.bind_some, class?_remapped, if_pos rfl, hcls]
  rfl

/-- Two factories whose values select classes of the same identity construct such classes. -/
theorem Dispatches.map_id_eq {e' : Engine} {cls' : ClassDef} {body body' : Body} (h : Dispatches e cls m body)
    (h' : Dispatches e' cls' m body')
    (hsame : ∀ value t, Selects e.context.graph cls value t →
      ∃ t', Selects e'.context.graph cls' value t' ∧ t'.id = t.id) (value : Option String) :
    (resolveFactory e'.context.graph body' value).map (·.id) =
      (resolveFactory e.context.graph body value).map (·.id) := by
  obtain ⟨target, hresolve, hselects⟩ := h.2 value
  obtain ⟨target', hresolve', hselects'⟩ := h'.2 value
  obtain ⟨t', ht', hid⟩ := hsame value target ((hselects target).mpr rfl)
  rw [hresolve, hresolve', ← (hselects' t').mp ht']
  exact congrArg Except.ok hid

end Dispatch

/-- In a valid graph a factory that reads a node and has something to choose by constructs for every value
the class that is mapped to it, letter by letter, or else its own class, whatever the order of the mappings. A
factory without anything to choose by constructs its own class. -/
theorem factory_dispatch_exact {e : Engine} {cls : ClassDef} {m : Method}
    (hhandler : e.handlers .factory = defaultHandlers .factory) (hplaced : e.context.graph.Placed)
    (hvalid : e.context.graph.violations = []) (hcls : cls ∈ e.context.graph.allClasses)
    (hm : m ∈ cls.methods) (hkind : m.kind = .factory) :
    (cls.discriminator.propertyName ≠ "" → cls.discriminator.mappings ≠ [] →
      (m.parameterOfKind .parseNode).isSome →
        ∃ body, Dispatches e cls m body ∧
          ∀ mappings, mappings.Perm cls.discriminator.mappings →
            ∃ body', (e.onGraph (remapped e.context.graph cls.id mappings)).synthesize m = .ok body' ∧
              ∀ value, (resolveFactory (remapped e.context.graph cls.id mappings) body' value).map (·.id) =
                (resolveFactory e.context.graph body value).map (·.id)) ∧
    (cls.discriminator.propertyName = "" ∨ cls.discriminator.mappings = [] →
      ∃ body, e.synthesize m = .ok body ∧
        ∀ value, resolveFactory e.context.graph body value = .ok cls) := by
  have hparent := parentOf_of_valid hplaced hvalid hcls hm
  constructor
  · intro hname hmappings hnode
    have hd := dispatchable_of_valid hvalid hcls
    have htrivial : ∀ {d : Discriminator}, d.propertyName ≠ "" → d.mappings ≠ [] → d.isTrivial = false :=
      fun hname hmappings => Bool.eq_false_iff.mpr fun h => (isTrivial_iff.mp h).elim hname hmappings
    obtain ⟨body, hbody⟩ := exists_dispatches hhandler hkind hparent hd hnode (htrivial hname hmappings)
    refine ⟨body, hbody, fun mappings hperm => ?_⟩
    have hparent' : (remapped e.context.graph cls.id mappings).parentOf m = some (withMappings mappings cls) :=
      parentOf_remapped (methodViolations_eq_nil_iff.mp (methodViolations_of_valid hvalid hcls hm)).1
        (hplaced.class_of_mem (mem_classes_of_mem_allClasses hcls))
    have hmappings' : mappings ≠ [] := by
      rintro rfl
      exact hmappings hperm.nil_eq.symm
    obtain ⟨body', hbody'⟩ := exists_dispatches
      (e := e.onGraph (remapped e.context.graph cls.id mappings)) hhandler hkind hparent'
      (hd.reorder hperm) hnode (htrivial hname hmappings')
    exact ⟨body', hbody'.1, hbody.map_id_eq hbody' fun _ _ => Selects.reorder hperm⟩
  · intro htrivial
    exact ⟨_, synthesize_factory hhandler hkind hparent (factory_of_trivial (isTrivial_iff.mpr htrivial)),
      fun _ => rfl⟩

namespace PetSample

def ofClass (index : Nat) (name : String) : TypeRef := { name, definition := some (.ofClass ⟨index⟩) }

/-- A factory that reads a node. -/
def create (owner : Nat) : Method :=
  { id := ⟨⟨owner⟩, 0⟩, name := "Create", kind := .factory, parent := some ⟨owner⟩
    returnType := some (.scalar (ofClass owner "Pet"))
    parameters := [{ id := ⟨⟨⟨owner⟩, 0⟩, 0⟩, name := "parseNode", kind := .parseNode
                     type := .scalar { name := "ParseNode" } }] }

/-- Keys that differ in case only lead to different classes. -/
def pet : ClassDef :=
  { id := ⟨0⟩, name := "Pet", home := some ⟨⟨0⟩, "Sdk"⟩, methods := [create 0]
    discriminator := ⟨"@type", [⟨"cat", some (ofClass 1 "Cat")⟩, ⟨"CAT", some (ofClass 2 "Lynx")⟩]⟩ }

def cat : ClassDef :=
  { id := ⟨1⟩, name := "Cat", home := some ⟨⟨0⟩, "Sdk"⟩, methods := [create 1]
    discriminator := { propertyName := "@type" } }

def lynx : ClassDef := { id := ⟨2⟩, name := "Lynx", home := some ⟨⟨0⟩, "Sdk"⟩ }

def pets : Engine :=
  ⟨⟨{ root := { id := ⟨0⟩, name := "Sdk", classes := [⟨0⟩, ⟨1⟩, ⟨2⟩] }, classes := #[pet, cat, lynx]
      enums := #[] }, Convention.Language.csharp.policy, {}⟩, defaultHandlers⟩

end PetSample

open PetSample

/-- The pets are told apart by their exact key, also when the mappings are turned round, and a cat is always
a cat. -/
theorem pets_told_apart :
    (∃ body, Dispatches pets pet (create 0) body ∧
      ([some "cat", some "CAT", some "Cat", none].map fun value =>
          (resolveFactory pets.context.graph body value).toOption.map (·.name)) =
        [some "Cat", some "Lynx", some "Pet", some "Pet"] ∧
      ∃ body', (pets.onGraph (remapped pets.context.graph ⟨0⟩ pet.discriminator.mappings.reverse)).synthesize
          (create 0) = .ok body' ∧
        ∀ value, (resolveFactory (remapped pets.context.graph ⟨0⟩ pet.discriminator.mappings.reverse) body'
            value).map (·.id) = (resolveFactory pets.context.graph body value).map (·.id)) ∧
    ∃ body, pets.synthesize (create 1) = .ok body ∧
      ∀ value, resolveFactory pets.context.graph body value = .ok cat := by
  have hpet : pet ∈ pets.context.graph.allClasses := mem_allClasses_of_root List.mem_cons_self rfl
  have hcat : cat ∈ pets.context.graph.allClasses :=
    mem_allClasses_of_root (List.mem_cons_of_mem _ List.mem_cons_self) rfl
  have hplaced : pets.context.graph.Placed := by decide
  have hvalid : pets.context.graph.violations = [] := by decide
  constructor
  · obtain ⟨body, hbody, hreorder⟩ := (factory_dispatch_exact rfl hplaced hvalid hpet
      List.mem_cons_self rfl).1 (by decide) (by decide) rfl
    refine ⟨body, hbody, ?_, hreorder _ (List.reverse_perm _)⟩
    cases hbody.1
    decide
  · exact (factory_dispatch_exact rfl hplaced hvalid hcat List.mem_cons_self rfl).2 (Or.inr rfl)

end ClientForge.Plan
