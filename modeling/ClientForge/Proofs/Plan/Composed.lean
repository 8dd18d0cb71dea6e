import ClientForge.Proofs.Plan.Validated

/-!
# Composed types

Whether a target can write down union and intersection types is said once, by its policy. Translating a type and
choosing how to read and write a value both ask the policy. Choosing how to send a request does not: a result of a
composed type is refused by every target.

* `refuses_translate_iff`, `refuses_variantOf_iff`: when a type is refused;
* `refuses_serializer_iff`, `refuses_deserializer_iff`, `refuses_requestExecutor_iff`: when a method is refused for
  its types; methods of other kinds never are;
* **`composed_types_refused_iff`.** What is refused by an engine, and why.
-/

namespace ClientForge

/-- A type that the target cannot express is among the causes. -/
def Failure.IsUnsupported (f : Failure) : Prop := ∃ construct type target, .unsupported construct type target ∈ f.causes

namespace Plan

open ClientForge.Graph

/-- A computation fails for a type that the target cannot express. -/
def Refuses {α : Type} (x : Except Failure α) : Prop := ∃ f, x = .error f ∧ f.IsUnsupported

/-! ### Refusing step by step -/

section Steps

variable {α β : Type} {x : Except Failure α}

@[simp]
theorem not_refuses_ok (a : α) : ¬Refuses (.ok a : Except Failure α) := by
  rintro ⟨f, h, _⟩
  cases h

theorem not_refuses_pure (a : α) : ¬Refuses (pure a : Except Failure α) := not_refuses_ok a

@[simp]
theorem not_refuses_structural (rule : Rule) (element : String) :
    ¬Refuses (structural rule element : Except Failure α) := by
  rintro ⟨f, h, _, _, _, hcause⟩
  cases h
  simp [Failure.violation, Failure.causes] at hcause

@[simp]
theorem not_refuses_ofViolation (x : Except Violation α) : ¬Refuses (ofViolation x) := by
  rintro ⟨f, h, _, _, _, hcause⟩
  obtain ⟨v, _, rfl⟩ := mapError_eq_error.mp h
  simp [Failure.causes] at hcause

theorem refuses_bind_iff {f : α → Except Failure β} :
    Refuses (x >>= f) ↔ Refuses x ∨ ∃ a, x = .ok a ∧ Refuses (f a) := by
  unfold Refuses
  simp only [bind_eq_error, or_and_right, exists_or]
  refine or_congr_right ⟨?_, ?_⟩
  · rintro ⟨e, ⟨a, ha, he⟩, hunsupported⟩
    exact ⟨a, ha, e, he, hunsupported⟩
  · rintro ⟨a, ha, e, he, hunsupported⟩
    exact ⟨e, ⟨a, ha, he⟩, hunsupported⟩

/-- Steps that never refuse add nothing to the ones before. -/
theorem refuses_bind_iff_left {f : α → Except Failure β} (hf : ∀ a, ¬Refuses (f a)) :
    Refuses (x >>= f) ↔ Refuses x := by
  rw [refuses_bind_iff, or_iff_left]
  rintro ⟨a, _, h⟩
  exact hf a h

theorem not_refuses_bind {f : α → Except Failure β} (hx : ¬Refuses x) (hf : ∀ a, ¬Refuses (f a)) :
    ¬Refuses (x >>= f) :=
  mt (refuses_bind_iff_left hf).mp hx

theorem refuses_inContext_iff (context : String) : Refuses (inContext context x) ↔ Refuses x := by
  constructor
  · rintro ⟨_, h, hunsupported⟩
    obtain ⟨f, hf, rfl⟩ := mapError_eq_error.mp h
    exact ⟨f, hf, hunsupported⟩
  · rintro ⟨f, hf, hunsupported⟩
    exact ⟨.within context f, mapError_eq_error.mpr ⟨f, hf, rfl⟩, hunsupported⟩

theorem exists_refuses_of_mapM {xs : List β} {f : β → Except Failure α} (h : Refuses (xs.mapM f)) :
    ∃ y ∈ xs, Refuses (f y) := by
  obtain ⟨e, he, hunsupported⟩ := h
  obtain ⟨y, hy, hfail⟩ := exists_of_mapM_eq_error he
  exact ⟨y, hy, e, hfail, hunsupported⟩

/-- Where steps fail for types only, one of them is enough to refuse all. -/
theorem refuses_mapM_iff {xs : List β} {f : β → Except Failure α}
    (hf : ∀ y ∈ xs, ∀ e, f y = .error e → e.IsUnsupported) : Refuses (xs.mapM f) ↔ ∃ y ∈ xs, Refuses (f y) := by
  refine ⟨exists_refuses_of_mapM, ?_⟩
  rintro ⟨y, hy, e, he, _⟩
  cases hall : xs.mapM f with
  | ok ys =>
      obtain ⟨_, _, hok⟩ := exists_of_mem_left (mapM_eq_ok.mp hall) hy
      rw [he] at hok
      cases hok
  | error e' =>
      obtain ⟨z, hz, hfail⟩ := exists_of_mapM_eq_error hall
      exact ⟨e', rfl, hf z hz e' hfail⟩

end Steps

/-! ### Types -/

/-- A type that is there and is a union or an intersection. -/
def IsComposed (t : Option TypeExpr) : Prop :=
  ∃ form name members nullable, t = some (.composed form name members nullable)

/-- A type that is said to be unsupported has that for its cause. -/
theorem isUnsupported_unsupportedType (g : Graph) (target : String) (t : TypeExpr) :
    (Convention.unsupportedType g target t).IsUnsupported :=
  ⟨_, _, _, List.mem_singleton_self _⟩

section Translating

variable (g : Graph) {p : Convention.Policy}

/-- A plain type has a text in every language. -/
theorem exists_translateRef (p : Convention.Policy) (t : TypeRef) :
    ∃ text, Convention.translateRef g p (fun d => (pure (p.typeName d.name) : Except Failure String)) t = .ok text := by
  unfold Convention.translateRef
  cases t.definition.bind g.definition? <;> exact ⟨_, rfl⟩

mutual

/-- Where composed types can be expressed, every type has a text. -/
theorem exists_translate (h : p.composedTypes = true) : ∀ t : TypeExpr,
    ∃ text, Convention.translate g p (fun d => (pure (p.typeName d.name) : Except Failure String)) t = .ok text
  | .scalar ref => by
      rw [Convention.translate]
      exact exists_translateRef g p ref
  | .composed form name members nullable => by
      obtain ⟨parts, hparts⟩ := exists_translateAll h members
      rw [Convention.translate, hparts, h]
      exact ⟨_, rfl⟩

/-- So have all types that another one is composed of. -/
theorem exists_translateAll (h : p.composedTypes = true) : ∀ ts : List TypeExpr,
    ∃ parts, Convention.translateAll g p (fun d => (pure (p.typeName d.name) : Except Failure String)) ts = .ok parts
  | [] => ⟨[], rfl⟩
  | t :: ts => by
      obtain ⟨part, hpart⟩ := exists_translate h t
      obtain ⟨parts, hparts⟩ := exists_translateAll h ts
      rw [Convention.translateAll, hpart, hparts]
      exact ⟨_, rfl⟩

end

end Translating

/-- A type has no text exactly if it is composed and the language has no such types. -/
theorem refuses_translate_iff (g : Graph) (p : Convention.Policy) (t : Option TypeExpr) :
    Refuses (p.translate g t) ↔ IsComposed t ∧ p.composedTypes = false := by
  cases hpolicy : p.composedTypes with
  | true =>
      simp only [Bool.true_eq_false, and_false, iff_false]
      cases t with
      | none => exact not_refuses_ok _
      | some t =>
          obtain ⟨text, htext⟩ := exists_translate g hpolicy t
          rw [Convention.Policy.translate, Convention.translate?, htext]
          exact not_refuses_ok _
  | false =>
      simp only [and_true]
      cases t with
      | none => exact iff_of_false (not_refuses_ok _) nofun
      | some t =>
          cases t with
          | scalar ref =>
              obtain ⟨text, htext⟩ := exists_translateRef g p ref
              rw [Convention.Policy.translate, Convention.translate?, Convention.translate, htext]
              exact iff_of_false (not_refuses_ok _) nofun
          | composed form name members nullable =>
              refine iff_of_true ?_ ⟨_, _, _, _, rfl⟩
              rw [Convention.Policy.translate, Convention.translate?, Convention.translate, hpolicy]
              exact ⟨_, rfl, isUnsupported_unsupportedType _ _ _⟩

theorem bind_ref?_eq_none_iff {t : Option TypeExpr} : t.bind TypeExpr.ref? = none ↔ t = none ∨ IsComposed t := by
  cases t with
  | none => simp
  | some t => cases t <;> simp [TypeExpr.ref?, IsComposed]

/-! ### Values -/

section Values

variable {c : Context} {cls : ClassDef} {m : Method}

/-- Values cannot be read or written exactly if their type is composed or missing and the language has no composed
types. -/
theorem refuses_variantOf_iff (c : Context) (t : Option TypeExpr) :
    Refuses (variantOf c t) ↔ (t = none ∨ IsComposed t) ∧ c.policy.composedTypes = false := by
  rw [← bind_ref?_eq_none_iff]
  constructor
  · rintro ⟨f, hf, _⟩
    obtain ⟨htype, hpolicy, _⟩ := variantOf_eq_error hf
    exact ⟨htype, hpolicy⟩
  · rintro ⟨htype, hpolicy⟩
    simp only [variantOf, htype, hpolicy]
    exact ⟨_, rfl, isUnsupported_unsupportedType _ _ _⟩

/-- The same for the value of a property. -/
theorem refuses_slotOf_iff (c : Context) (p : Property) :
    Refuses (slotOf c p) ↔ (p.type = none ∨ IsComposed p.type) ∧ c.policy.composedTypes = false := by
  rw [← refuses_variantOf_iff, slotOf, refuses_bind_iff_left fun _ => not_refuses_pure _]

/-- The values of a class are refused if one of them is. -/
theorem refuses_slots_iff (c : Context) (cls : ClassDef) (withReadOnly : Bool) :
    Refuses ((ownProperties cls withReadOnly).mapM (slotOf c)) ↔
      c.policy.composedTypes = false ∧ ∃ p ∈ cls.properties, IsOwn p ∧ (p.type = none ∨ IsComposed p.type) ∧
        (withReadOnly = false → p.readOnly = false) := by
  rw [refuses_mapM_iff]
  · simp only [mem_ownProperties, refuses_slotOf_iff]
    constructor
    · rintro ⟨p, ⟨hp, hown, hwritten⟩, htype, hpolicy⟩
      exact ⟨hpolicy, p, hp, hown, htype, hwritten⟩
    · rintro ⟨hpolicy, p, hp, hown, htype, hwritten⟩
      exact ⟨p, ⟨hp, hown, hwritten⟩, htype, hpolicy⟩
  · intro p _ f hf
    rcases bind_eq_error.mp hf with hvariant | ⟨_, _, hpure⟩
    · obtain ⟨_, _, construct, type, hcauses⟩ := variantOf_eq_error hvariant
      exact ⟨construct, type, _, hcauses ▸ List.mem_singleton_self _⟩
    · cases hpure

/-- A method reads or writes a value of a type that the target cannot express. -/
def ValueRefused (c : Context) (cls : ClassDef) (m : Method) : Prop :=
  c.policy.composedTypes = false ∧ ∃ p ∈ cls.properties, IsOwn p ∧ (p.type = none ∨ IsComposed p.type) ∧
    (m.kind = .deserializer ∨ m.kind = .serializer ∧ p.readOnly = false)

theorem refuses_serializer_iff (hkind : m.kind = .serializer) :
    Refuses (serializer c cls m) ↔ ValueRefused c cls m := by
  rw [serializer, refuses_bind_iff_left fun _ => not_refuses_pure _, refuses_slots_iff]
  simp [ValueRefused, hkind]

theorem refuses_deserializer_iff (hkind : m.kind = .deserializer) :
    Refuses (deserializer c cls m) ↔ ValueRefused c cls m := by
  rw [deserializer, refuses_bind_iff_left fun _ => not_refuses_pure _, refuses_slots_iff]
  simp [ValueRefused, hkind]

end Values

/-! ### Results -/

/-- A method sends a request that brings back a value of a composed type. -/
def ResultRefused (c : Context) (m : Method) : Prop :=
  m.kind = .requestExecutor ∧ IsComposed m.returnType ∧ ∃ generator, c.graph.generatorOf m = .ok generator

section Handlers

variable {c : Context} {cls : ClassDef} {m : Method}

theorem refuses_sendFor_iff : Refuses (sendFor c m) ↔ IsComposed m.returnType := by
  unfold sendFor IsComposed
  split
  · rename_i htype
    simp [htype]
  · rename_i htype
    exact iff_of_true ⟨_, rfl, isUnsupported_unsupportedType _ _ _⟩ ⟨_, _, _, _, htype⟩
  · rename_i htype
    simp [htype]

/-- An executor is refused for its result only. -/
theorem refuses_requestExecutor_iff (cls : ClassDef) (hkind : m.kind = .requestExecutor) :
    Refuses (requestExecutor c cls m) ↔ ResultRefused c m := by
  constructor
  · intro h
    rcases refuses_bind_iff.mp h with hnone | ⟨generator, hgenerator, h⟩
    · exact absurd hnone (not_refuses_ofViolation _)
    · have hsend := (refuses_bind_iff_left fun _ => not_refuses_pure _).mp h
      exact ⟨hkind, refuses_sendFor_iff.mp hsend, generator, mapError_eq_ok.mp hgenerator⟩
  · rintro ⟨_, htype, generator, hgenerator⟩
    have hsend := refuses_sendFor_iff (c := c).mpr htype
    exact refuses_bind_iff.mpr
      (.inr ⟨generator, mapError_eq_ok.mpr hgenerator, (refuses_bind_iff_left fun _ => not_refuses_pure _).mpr hsend⟩)

/-! ### Methods of other kinds -/

theorem not_refuses_checkContentType (g : Graph) (m : Method) : ¬Refuses (checkContentType g m) := by
  unfold checkContentType
  split
  · exact not_refuses_ok _
  · split
    · exact not_refuses_ok _
    · rintro ⟨f, h, _, _, _, hcause⟩
      cases h
      simp [Failure.causes] at hcause

theorem not_refuses_requestGenerator : ¬Refuses (requestGenerator c cls m) := by
  unfold requestGenerator
  split
  · exact not_refuses_structural _ _
  · exact not_refuses_bind (not_refuses_checkContentType _ _) fun _ => not_refuses_ok _

theorem not_refuses_discriminatorCase (g : Graph) (x : DiscriminatorMapping) :
    ¬Refuses (discriminatorCase g cls x) := by
  unfold discriminatorCase
  split
  · exact not_refuses_ok _
  · exact not_refuses_structural _ _

theorem not_refuses_factory : ¬Refuses (factory c cls m) := by
  unfold factory
  split
  · refine not_refuses_bind (fun h => ?_) fun _ => not_refuses_ok _
    obtain ⟨x, _, hx⟩ := exists_refuses_of_mapM h
    exact not_refuses_discriminatorCase _ x hx
  · exact not_refuses_ok _

theorem not_refuses_builderWithParameters : ¬Refuses (builderWithParameters c cls m) := by
  unfold builderWithParameters
  split
  · exact not_refuses_structural _ _
  · split
    · exact not_refuses_structural _ _
    · exact not_refuses_ok _

theorem not_refuses_indexerFor (g : Graph) : ¬Refuses (indexerFor g cls m) := by
  unfold indexerFor
  split
  · exact not_refuses_ok _
  · exact not_refuses_ofViolation _

theorem not_refuses_indexerMethod : ¬Refuses (indexerMethod c cls m) := by
  refine not_refuses_bind (not_refuses_indexerFor _) fun x => ?_
  split
  · exact not_refuses_structural _ _
  · split
    · exact not_refuses_structural _ _
    · split
      · exact not_refuses_structural _ _
      · exact not_refuses_ok _

theorem not_refuses_accessed (g : Graph) (m : Method) : ¬Refuses (accessed g m) := by
  unfold accessed
  split
  · exact not_refuses_ok _
  · exact not_refuses_structural _ _

theorem not_refuses_getter : ¬Refuses (getter c cls m) :=
  not_refuses_bind (not_refuses_accessed _ _) fun _ => not_refuses_ok _

theorem not_refuses_setter : ¬Refuses (setter c cls m) := by
  refine not_refuses_bind (not_refuses_accessed _ _) fun _ => ?_
  split
  · exact not_refuses_structural _ _
  · exact not_refuses_ok _

theorem not_refuses_queryParametersMapper : ¬Refuses (queryParametersMapper c cls m) := by
  unfold queryParametersMapper
  split
  · exact not_refuses_structural _ _
  · exact not_refuses_ok _

/-! ### All kinds -/

/-- Only methods that read, write or run requests are refused for a type. -/
theorem not_refused_of_kind (h : m.kind ∉ [.serializer, .deserializer, .requestExecutor]) :
    ¬(ValueRefused c cls m ∨ ResultRefused c m) := by
  simp only [List.mem_cons, List.not_mem_nil, or_false, not_or] at h
  simp [ValueRefused, ResultRefused, h]

/-- Only what reads and writes values or sends requests is refused. -/
theorem refuses_handler_iff {handler : Handler} (hhandler : defaultHandlers m.kind = some handler)
    (hkind : m.kind ≠ .commandBuilder) :
    Refuses (handler.body c cls m) ↔ ValueRefused c cls m ∨ ResultRefused c m := by
  have hother (h : m.kind ∉ [.serializer, .deserializer, .requestExecutor])
      (hrefuses : ¬Refuses (handler.body c cls m)) :
      Refuses (handler.body c cls m) ↔ ValueRefused c cls m ∨ ResultRefused c m :=
    iff_of_false hrefuses (not_refused_of_kind h)
  cases h : m.kind <;> rw [h] at hhandler <;> cases hhandler
  case serializer =>
    rw [or_iff_left fun hresult => by simp [ResultRefused, h] at hresult]
    exact refuses_serializer_iff h
  case deserializer =>
    rw [or_iff_left fun hresult => by simp [ResultRefused, h] at hresult]
    exact refuses_deserializer_iff h
  case requestExecutor =>
    rw [or_iff_right fun hvalue => by simp [ValueRefused, h] at hvalue]
    exact refuses_requestExecutor_iff cls h
  case commandBuilder => exact absurd h hkind
  case requestGenerator => exact hother (by rw [h]; decide) not_refuses_requestGenerator
  case constructor | clientConstructor | rawUrlConstructor => exact hother (by rw [h]; decide) (not_refuses_ok _)
  case requestBuilderWithParameters => exact hother (by rw [h]; decide) not_refuses_builderWithParameters
  case getter => exact hother (by rw [h]; decide) not_refuses_getter
  case setter => exact hother (by rw [h]; decide) not_refuses_setter
  case factory => exact hother (by rw [h]; decide) not_refuses_factory
  case queryParametersMapper => exact hother (by rw [h]; decide) not_refuses_queryParametersMapper
  case indexerBackwardCompatibility => exact hother (by rw [h]; decide) not_refuses_indexerMethod

end Handlers

/-! ### Engines -/

/-- An engine plans all but command builders as every target does. -/
def PlansByDefault (e : Engine) : Prop := ∀ kind, kind ≠ .commandBuilder → e.handlers kind = defaultHandlers kind

/-- By the default handlers, a method of a class is refused exactly for a value or a result. -/
theorem refuses_synthesize_iff {e : Engine} {m : Method} (he : PlansByDefault e) (hkind : m.kind ≠ .commandBuilder) :
    Refuses (e.synthesize m) ↔
      ∃ cls, e.context.graph.parentOf m = some cls ∧ (ValueRefused e.context cls m ∨ ResultRefused e.context m) := by
  cases hhandler : e.handlers m.kind with
  | none =>
      have hunknown : m.kind ∉ [.serializer, .deserializer, .requestExecutor] := by
        intro h
        rw [he _ hkind] at hhandler
        simp only [List.mem_cons, List.not_mem_nil, or_false] at h
        rcases h with h | h | h <;> simp [h, defaultHandlers] at hhandler
      simp only [Engine.synthesize, hhandler, not_refused_of_kind hunknown, and_false, exists_false, iff_false]
      rintro ⟨f, h, _, _, _, hcause⟩
      cases h
      simp [Failure.causes] at hcause
  | some handler =>
      cases hparent : e.context.graph.parentOf m with
      | none => simp [Engine.synthesize, hhandler, hparent]
      | some cls =>
          rw [synthesize_in_class hhandler hparent, refuses_inContext_iff,
            refuses_handler_iff ((he _ hkind).symm.trans hhandler) hkind]
          simp

/-- Types are refused where they are composed and the target cannot express this, when they are translated and when
a way to read and write them is chosen. A method is refused for a value of such a type, and an executor besides for
a result of a composed type whatever the target. So a method is refused only where the target cannot express
composed types, unless it is an executor with such a result. -/
theorem composed_types_refused_iff (e : Engine) (he : PlansByDefault e) :
    (∀ t, Refuses (e.context.policy.translate e.context.graph t) ↔
      IsComposed t ∧ e.context.policy.composedTypes = false) ∧
    (∀ t, Refuses (variantOf e.context t) ↔
      (t = none ∨ IsComposed t) ∧ e.context.policy.composedTypes = false) ∧
    ∀ m, m.kind ≠ .commandBuilder →
      (Refuses (e.synthesize m) ↔
        ∃ cls, e.context.graph.parentOf m = some cls ∧ (ValueRefused e.context cls m ∨ ResultRefused e.context m)) ∧
      ((Refuses (e.synthesize m) → e.context.policy.composedTypes = false) ↔
        (ResultRefused e.context m → e.context.policy.composedTypes = false)) := by
  refine ⟨refuses_translate_iff _ _, refuses_variantOf_iff _, fun m hkind => ?_⟩
  have hsynthesize := refuses_synthesize_iff he hkind
  refine ⟨hsynthesize, ⟨fun honly hresult => honly (hsynthesize.mpr ?_), fun honly hrefuses => ?_⟩⟩
  · obtain ⟨generator, hgenerator⟩ := hresult.2.2
    obtain ⟨cls, _, hparent, _⟩ := found_of_generatorOf hgenerator
    exact ⟨cls, hparent, .inr hresult⟩
  · obtain ⟨cls, _, hvalue | hresult⟩ := hsynthesize.mp hrefuses
    · exact hvalue.1
    · exact honly hresult

namespace FeedSample

def post : TypeExpr := .composed .union "Post" [.scalar { name := "string" }, .scalar { name := "integer" }] false

def write : Method := { id := ⟨⟨0⟩, 0⟩, name := "Serialize", kind := .serializer, parent := some ⟨0⟩ }

/-- A class with a value of a composed type. -/
def entry : ClassDef :=
  { id := ⟨0⟩, name := "Entry", home := some ⟨⟨0⟩, "Sdk"⟩, properties := [{ name := "Post", type := some post }]
    methods := [write] }

/-- A request that brings back a value of a composed type. -/
def latest : Method :=
  { id := ⟨⟨1⟩, 0⟩, name := "Get", kind := .requestExecutor, http := some "GET", returnType := some post
    parent := some ⟨1⟩ }

def toLatest : Method :=
  { id := ⟨⟨1⟩, 1⟩, name := "ToGet", kind := .requestGenerator, http := some "GET", parent := some ⟨1⟩ }

def feed : ClassDef :=
  { id := ⟨1⟩, name := "Feed", kind := .requestBuilder, home := some ⟨⟨0⟩, "Sdk"⟩, methods := [latest, toLatest] }

def graph : Graph :=
  { root := { id := ⟨0⟩, name := "Sdk", classes := [⟨0⟩, ⟨1⟩] }, classes := #[entry, feed], enums := #[] }

def engine (policy : Convention.Policy) : Engine := defaultEngine ⟨graph, policy, {}⟩

end FeedSample

open FeedSample in
/-- TypeScript can express a post. It is translated and written there, and C# refuses both. The latest post of a
feed is refused in both. -/
theorem post_refused_as_result :
    ¬Refuses (Convention.typescriptPolicy.translate graph (some post)) ∧
    Refuses (Convention.csharpPolicy.translate graph (some post)) ∧
    ¬Refuses ((engine Convention.typescriptPolicy).synthesize write) ∧
    Refuses ((engine Convention.csharpPolicy).synthesize write) ∧
    Refuses ((engine Convention.typescriptPolicy).synthesize latest) ∧
    Refuses ((engine Convention.csharpPolicy).synthesize latest) := by
  have he (policy : Convention.Policy) : PlansByDefault (engine policy) := fun _ _ => rfl
  have hpost : IsComposed (some post) := ⟨_, _, _, _, rfl⟩
  have hresult (policy : Convention.Policy) : ResultRefused (engine policy).context latest := ⟨rfl, hpost, _, rfl⟩
  obtain ⟨htypescript, _, hplanned⟩ := composed_types_refused_iff (engine Convention.typescriptPolicy) (he _)
  obtain ⟨hcsharp, _, hplanned'⟩ := composed_types_refused_iff (engine Convention.csharpPolicy) (he _)
  refine ⟨fun h => ?_, (hcsharp (some post)).mpr ⟨hpost, rfl⟩, fun h => ?_, ?_, ?_, ?_⟩
  · cases ((htypescript (some post)).mp h).2
  · obtain ⟨_, _, hvalue | hresult⟩ := (hplanned write (by decide)).1.mp h
    · cases hvalue.1
    · cases hresult.1
  · exact (hplanned' write (by decide)).1.mpr
      ⟨entry, rfl, .inl ⟨rfl, _, List.mem_cons_self, ⟨rfl, rfl⟩, .inr hpost, .inr ⟨rfl, rfl⟩⟩⟩
  · exact (hplanned latest (by decide)).1.mpr ⟨feed, rfl, .inr (hresult _)⟩
  · exact (hplanned' latest (by decide)).1.mpr ⟨feed, rfl, .inr (hresult _)⟩

end Plan

end ClientForge
