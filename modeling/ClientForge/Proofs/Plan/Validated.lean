import ClientForge.Proofs.Plan.Factory
import ClientForge.Proofs.Plan.Serialization

/-!
# Planning in valid graphs

Planning asks again for much of what validation has checked: that a request has an HTTP method and an executor
its generator, that mappings lead to classes, that a mapper has a parameter. In a valid graph none of these
questions can fail. What is left is what validation does not look at, types that a target cannot express and
bodies without a content type; `Refusal` lists these reasons.

* `outcome_of_valid`: a method of a valid graph is planned, or there is such a reason.
-/

namespace ClientForge.Plan

open ClientForge.Graph

/-- The engine for targets without a command line in a context. -/
def defaultEngine (c : Context) : Engine := ⟨c, defaultHandlers⟩

theorem create_defaultHandlers (c : Context) :
    Engine.create (some c) defaultHandlers = .ok (defaultEngine c) := rfl

/-- Why a method of a valid graph may have no body. -/
inductive Refusal (c : Context) (cls : ClassDef) (m : Method) : Cause → Prop where
  /-- A value of the class has no simple type, and the target cannot express others. -/
  | value {p : Property} {construct type : String} (hkind : m.kind = .serializer ∨ m.kind = .deserializer)
      (hp : p ∈ cls.properties) (hown : IsOwn p) (htype : p.ref? = none)
      (htarget : c.policy.composedTypes = false) :
      Refusal c cls m (.unsupported construct type c.policy.target)
  /-- What comes back has a composed type. -/
  | result {form : Composition} {name construct type : String} {members : List TypeExpr} {nullable : Bool}
      (hkind : m.kind = .requestExecutor) (htype : m.returnType = some (.composed form name members nullable)) :
      Refusal c cls m (.unsupported construct type c.policy.target)
  /-- A body that is no stream has neither a content type nor a parameter for it. -/
  | content {body : Parameter} (hkind : m.kind = .requestGenerator)
      (hbody : m.parameterOfKind .requestBody = some body) (hstream : isStreamType body.type = false)
      (htype : Text.isBlankText m.bodyContentType = true)
      (hparameter : m.parameterOfKind .requestBodyContentType = none) :
      Refusal c cls m (.contentType (c.graph.methodName m) (m.http.getD "") (urlTemplate (some cls)))

/-- A body is there, or the only cause why it is not is one of the reasons. -/
def Settled (c : Context) (cls : ClassDef) (m : Method) (outcome : Except Failure Body) : Prop :=
  (∃ body, outcome = .ok body) ∨
    ∃ f cause, outcome = .error f ∧ f.causes = [cause] ∧ Refusal c cls m cause

section Handlers

variable {c : Context} {cls : ClassDef} {m : Method}

theorem settled_of_ok {outcome : Except Failure Body} (h : ∃ body, outcome = .ok body) :
    Settled c cls m outcome := .inl h

/-- Failures are enough to look at. -/
theorem settled_of_error {outcome : Except Failure Body}
    (h : ∀ f, outcome = .error f → ∃ cause, f.causes = [cause] ∧ Refusal c cls m cause) :
    Settled c cls m outcome := by
  cases outcome with
  | ok body => exact .inl ⟨body, rfl⟩
  | error f =>
      obtain ⟨cause, hcauses, hrefusal⟩ := h f rfl
      exact .inr ⟨f, cause, rfl, hcauses, hrefusal⟩

/-- A context adds no cause. -/
theorem Settled.inContext {context : String} {outcome : Except Failure Body} (h : Settled c cls m outcome) :
    Settled c cls m (inContext context outcome) := by
  rcases h with ⟨body, rfl⟩ | ⟨f, cause, rfl, hcauses, hrefusal⟩
  · exact .inl ⟨body, rfl⟩
  · exact .inr ⟨.within context f, cause, rfl, hcauses, hrefusal⟩

/-! ### Values -/

/-- Values of a type are refused for one cause only. -/
theorem variantOf_eq_error {t : Option TypeExpr} {f : Failure} (h : variantOf c t = .error f) :
    t.bind TypeExpr.ref? = none ∧ c.policy.composedTypes = false ∧
      ∃ construct type, f.causes = [.unsupported construct type c.policy.target] := by
  unfold variantOf at h
  split at h
  · rename_i htype
    split at h
    · cases h
    · rename_i hpolicy
      cases h
      exact ⟨htype, Bool.eq_false_iff.mpr hpolicy, _, _, rfl⟩
  · cases h

/-- A body that reads or writes values fails for one of its own properties. -/
theorem refusal_of_slots {withReadOnly : Bool} {f : Failure}
    (hkind : m.kind = .serializer ∨ m.kind = .deserializer)
    (h : (ownProperties cls withReadOnly).mapM (slotOf c) = .error f) :
    ∃ cause, f.causes = [cause] ∧ Refusal c cls m cause := by
  obtain ⟨p, hp, hslot⟩ := exists_of_mapM_eq_error h
  obtain ⟨hmem, hown, _⟩ := mem_ownProperties.mp hp
  rcases bind_eq_error.mp hslot with hvariant | ⟨_, _, hpure⟩
  · obtain ⟨htype, htarget, construct, type, hcauses⟩ := variantOf_eq_error hvariant
    exact ⟨_, hcauses, .value hkind hmem hown htype htarget⟩
  · cases hpure

theorem settled_serializer (hkind : m.kind = .serializer) : Settled c cls m (serializer c cls m) := by
  apply settled_of_error
  intro f h
  rcases bind_eq_error.mp h with hslots | ⟨_, _, hpure⟩
  · exact refusal_of_slots (.inl hkind) hslots
  · cases hpure

theorem settled_deserializer (hkind : m.kind = .deserializer) : Settled c cls m (deserializer c cls m) := by
  apply settled_of_error
  intro f h
  rcases bind_eq_error.mp h with hslots | ⟨_, _, hpure⟩
  · exact refusal_of_slots (.inr hkind) hslots
  · cases hpure

/-! ### Requests -/

/-- A generator with an HTTP method has a body, or fails for want of a content type. -/
theorem settled_requestGenerator (hkind : m.kind = .requestGenerator) (hhttp : m.http.isSome)
    (hparent : c.graph.parentOf m = some cls) : Settled c cls m (requestGenerator c cls m) := by
  obtain ⟨http, hhttp⟩ := Option.isSome_iff_exists.mp hhttp
  apply settled_of_error
  intro f h
  simp only [requestGenerator, hhttp] at h
  rcases bind_eq_error.mp h with hcontent | ⟨_, _, hpure⟩
  · unfold checkContentType at hcontent
    split at hcontent
    · cases hcontent
    · rename_i body hbody
      split at hcontent
      · cases hcontent
      · rename_i hnone
        cases hcontent
        simp only [Bool.or_eq_true, not_or, Bool.not_eq_true, Bool.not_eq_false', Option.isSome_eq_false_iff,
          Option.isNone_iff_eq_none] at hnone
        rw [hparent]
        exact ⟨_, rfl, .content hkind hbody hnone.1.1 hnone.1.2 hnone.2⟩
  · cases hpure

/-- An executor with a generator has a body, or fails for its result. -/
theorem settled_requestExecutor (hkind : m.kind = .requestExecutor)
    (hgenerator : ∃ generator, c.graph.generatorOf m = .ok generator) (hreturn : m.returnType.isSome) :
    Settled c cls m (requestExecutor c cls m) := by
  obtain ⟨generator, hgenerator⟩ := hgenerator
  obtain ⟨type, hreturn⟩ := Option.isSome_iff_exists.mp hreturn
  apply settled_of_error
  intro f h
  rcases bind_eq_error.mp h with hnone | ⟨_, _, h⟩
  · obtain ⟨v, hv, _⟩ := mapError_eq_error.mp hnone
    rw [hgenerator] at hv
    cases hv
  · rcases bind_eq_error.mp h with hsend | ⟨_, _, hpure⟩
    · cases type with
      | scalar t =>
          simp only [sendFor, hreturn] at hsend
          cases hsend
      | composed form name members nullable =>
          simp only [sendFor, hreturn] at hsend
          cases hsend
          exact ⟨_, rfl, .result hkind hreturn⟩
    · cases hpure

/-! ### Construction -/

theorem exists_constructor : ∃ body, constructor c cls m = .ok body := ⟨_, rfl⟩

theorem exists_factory (hd : Dispatchable c.graph cls) : ∃ body, factory c cls m = .ok body := by
  cases htrivial : cls.discriminator.isTrivial with
  | true => exact ⟨_, factory_of_trivial htrivial⟩
  | false =>
      cases hnode : m.parameterOfKind .parseNode with
      | none => simp [factory, hnode]
      | some node =>
          obtain ⟨cases, _, hfactory⟩ := factory_of_mappings hd hnode htrivial
          exact ⟨_, hfactory⟩

/-- A mapper with the name to map always has a body. -/
theorem exists_queryParametersMapper (h : (m.parameterOfKind .queryParametersMapper).isSome) :
    ∃ body, queryParametersMapper c cls m = .ok body := by
  obtain ⟨input, hinput⟩ := Option.isSome_iff_exists.mp h
  simp [queryParametersMapper, hinput]

end Handlers

/-- The kinds of methods for which validation checks all that planning asks of the graph. -/
def checkedKinds : List MethodKind :=
  [.serializer, .deserializer, .requestGenerator, .requestExecutor, .constructor, .clientConstructor,
    .rawUrlConstructor, .factory, .queryParametersMapper]

/-- Planning never finds a broken rule in a valid graph: a method is planned, or the target cannot express the
type of a value or of a result, or a request has no content type for its body. -/
theorem outcome_of_valid {c : Context} {cls : ClassDef} {m : Method} (hplaced : c.graph.Placed)
    (hvalid : c.graph.violations = []) (hcls : cls ∈ c.graph.allClasses) (hm : m ∈ cls.methods)
    (hkind : m.kind ∈ checkedKinds) :
    Settled c cls m ((defaultEngine c).synthesize m) := by
  have hparent := parentOf_of_valid hplaced hvalid hcls hm
  have hbody : ∃ handler, defaultHandlers m.kind = some handler ∧
      Settled c cls m (handler.body c cls m) := by
    simp only [checkedKinds, List.mem_cons, List.not_mem_nil, or_false] at hkind
    rcases hkind with h | h | h | h | h | h | h | h | h
    · exact ⟨_, by rw [h]; rfl, settled_serializer h⟩
    · exact ⟨_, by rw [h]; rfl, settled_deserializer h⟩
    · exact ⟨_, by rw [h]; rfl, settled_requestGenerator h (http_of_valid hvalid hcls hm h) hparent⟩
    · exact ⟨_, by rw [h]; rfl, settled_requestExecutor h (generatorOf_of_valid hvalid hcls hm h)
        (returnType_of_valid hvalid hcls hm (by rw [h]; rfl))⟩
    · exact ⟨_, by rw [h]; rfl, settled_of_ok exists_constructor⟩
    · exact ⟨_, by rw [h]; rfl, settled_of_ok exists_constructor⟩
    · exact ⟨_, by rw [h]; rfl, settled_of_ok exists_constructor⟩
    · exact ⟨_, by rw [h]; rfl, settled_of_ok (exists_factory (dispatchable_of_valid hvalid hcls))⟩
    · exact ⟨_, by rw [h]; rfl,
        settled_of_ok (exists_queryParametersMapper (mapperParameter_of_valid hvalid hcls hm h))⟩
  obtain ⟨handler, hhandler, hsettled⟩ := hbody
  rw [synthesize_in_class hhandler hparent]
  exact hsettled.inContext

namespace NoteSample

def text : Property :=
  { name := "Text"
    type := some (.composed .union "Text" [.scalar { name := "string" }, .scalar { name := "integer" }] false) }

def write : Method :=
  { id := ⟨⟨0⟩, 0⟩, name := "Serialize", kind := .serializer, parent := some ⟨0⟩
    returnType := some (.scalar { name := "void" }) }

/-- A class with a value of a composed type. -/
def note : ClassDef :=
  { id := ⟨0⟩, name := "Note", home := some ⟨⟨0⟩, "Sdk"⟩, properties := [text], methods := [write] }

def graph : Graph :=
  { root := { id := ⟨0⟩, name := "Sdk", classes := [⟨0⟩] }, classes := #[note], enums := #[] }

def notes (policy : Convention.Policy) : Context := ⟨graph, policy, {}⟩

theorem ownProperties_note : ownProperties note false = [text] := by
  unfold ownProperties
  rw [List.mergeSort_of_pairwise (by decide)]
  rfl

end NoteSample

open NoteSample

/-- The notes of a valid graph can be written in TypeScript, and in C# they are refused for their type. -/
theorem notes_written_or_refused :
    (∃ body, (defaultEngine (notes Convention.typescriptPolicy)).synthesize write = .ok body) ∧
      ∃ f cause, (defaultEngine (notes Convention.csharpPolicy)).synthesize write = .error f ∧
        f.causes = [cause] ∧ Refusal (notes Convention.csharpPolicy) note write cause := by
  have hplaced : graph.Placed := by decide
  have hvalid : graph.violations = [] := by decide
  have houtcome (policy : Convention.Policy) :
      Settled (notes policy) note write ((defaultEngine (notes policy)).synthesize write) :=
    outcome_of_valid hplaced hvalid (mem_allClasses_of_root List.mem_cons_self rfl) List.mem_cons_self
      (by decide)
  constructor
  · rcases houtcome Convention.typescriptPolicy with hbody | ⟨_, _, _, _, hrefusal⟩
    · exact hbody
    · cases hrefusal with
      | value _ _ _ _ htarget => cases htarget
      | result hkind => cases hkind
      | content hkind => cases hkind
  · rcases houtcome Convention.csharpPolicy with ⟨body, hbody⟩ | hrefused
    · have hserializer : serializer (notes Convention.csharpPolicy) note write = .ok body := by
        have hsynthesize : (defaultEngine (notes Convention.csharpPolicy)).synthesize write = _ :=
          synthesize_in_class rfl rfl
        rw [hsynthesize, inContext, mapError_eq_ok] at hbody
        exact hbody
      obtain ⟨slots, hslots, _⟩ := bind_eq_ok.mp hserializer
      rw [ownProperties_note] at hslots
      cases hslots
    · exact hrefused

end ClientForge.Plan
