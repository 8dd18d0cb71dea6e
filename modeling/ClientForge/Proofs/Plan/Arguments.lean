import ClientForge.Plan.Request
import ClientForge.Proofs.Failure
import Mathlib.Data.List.Nodup
import Mathlib.Data.List.TakeDrop

/-!
# Arguments of a generator

An executor goes through the signature of its generator and gives each parameter the first of its own parameters
that has the same kind and is not taken yet. The kinds do not get in each other's way: seen by one kind, the
executor's parameters are handed out one after the other, however the kinds are mixed on either side.

* `bindArguments_cons_cases`: what becomes of the first parameter of a signature;
* `argumentsOfKind_bindArguments`: what the parameters of one kind get;
* **`generatorCall_binds_in_order`.** The arguments of a call, kind by kind.
-/

namespace ClientForge.Plan

open ClientForge.Graph

/-- The parameters of a kind, in order. -/
def ofKind (kind : ParameterKind) (ps : List Parameter) : List Parameter := ps.filter (·.kind == kind)

/-- The arguments at the places where a signature has parameters of a kind, in order. -/
def argumentsOfKind (kind : ParameterKind) (signature : List Parameter) (arguments : List (Option Parameter)) :
    List (Option Parameter) :=
  ((signature.zip arguments).filter (·.1.kind == kind)).map Prod.snd

/-! ### One parameter -/

section Binding

variable {p : Parameter} {wanted available : List Parameter}

/-- The first parameter of a signature gets nothing if there is none of its kind, and otherwise the first one,
which is gone then. -/
theorem bindArguments_cons_cases (p : Parameter) (wanted available : List Parameter) :
    ((∀ q ∈ available, q.kind ≠ p.kind) ∧
      bindArguments (p :: wanted) available = none :: bindArguments wanted available) ∨
    ∃ front q back, available = front ++ q :: back ∧ q.kind = p.kind ∧ (∀ r ∈ front, r.kind ≠ p.kind) ∧
      bindArguments (p :: wanted) available = some q :: bindArguments wanted (front ++ back) := by
  rw [bindArguments]
  cases hfind : available.find? (·.kind == p.kind) with
  | none =>
      left
      refine ⟨fun q hq => ?_, rfl⟩
      simpa using List.find?_eq_none.mp hfind q hq
  | some q =>
      right
      obtain ⟨hq, front, back, rfl, hfront⟩ := List.find?_eq_some_iff_append.mp hfind
      have hfront : ∀ r ∈ front, ¬(r.kind == p.kind) = true := fun r hr => by simpa using hfront r hr
      refine ⟨front, q, back, rfl, by simpa using hq, fun r hr => by simpa using hfront r hr, ?_⟩
      dsimp only
      rw [List.eraseP_append_right _ hfront, List.eraseP_cons_of_pos (p := fun r : Parameter => r.kind == p.kind) hq]

theorem length_bindArguments (wanted available : List Parameter) :
    (bindArguments wanted available).length = wanted.length := by
  induction wanted generalizing available with
  | nil => rfl
  | cons p wanted ih =>
      obtain ⟨_, hcons⟩ | ⟨_, _, _, _, _, _, hcons⟩ := bindArguments_cons_cases p wanted available
      · rw [hcons, List.length_cons, List.length_cons, ih]
      · rw [hcons, List.length_cons, List.length_cons, ih]

/-! ### One kind -/

theorem ofKind_cons_of_eq {kind : ParameterKind} (h : p.kind = kind) :
    ofKind kind (p :: wanted) = p :: ofKind kind wanted := by
  simp [ofKind, h]

theorem ofKind_cons_of_ne {kind : ParameterKind} (h : p.kind ≠ kind) :
    ofKind kind (p :: wanted) = ofKind kind wanted := by
  simp [ofKind, h]

/-- Parameters of a kind are gathered from both parts, in order. -/
theorem ofKind_append (kind : ParameterKind) (ps qs : List Parameter) :
    ofKind kind (ps ++ qs) = ofKind kind ps ++ ofKind kind qs := List.filter_append _ _

theorem ofKind_eq_nil {kind : ParameterKind} (h : ∀ q ∈ wanted, q.kind ≠ kind) : ofKind kind wanted = [] :=
  List.filter_eq_nil_iff.mpr fun q hq => by simpa using h q hq

/-- The argument for a parameter of the kind is gathered. -/
theorem argumentsOfKind_cons_of_eq {kind : ParameterKind} (h : p.kind = kind) (a : Option Parameter)
    (arguments : List (Option Parameter)) :
    argumentsOfKind kind (p :: wanted) (a :: arguments) = a :: argumentsOfKind kind wanted arguments := by
  simp [argumentsOfKind, h]

/-- The argument for a parameter of another kind is passed over. -/
theorem argumentsOfKind_cons_of_ne {kind : ParameterKind} (h : p.kind ≠ kind) (a : Option Parameter)
    (arguments : List (Option Parameter)) :
    argumentsOfKind kind (p :: wanted) (a :: arguments) = argumentsOfKind kind wanted arguments := by
  simp [argumentsOfKind, h]

/-- What is wanted of one kind gets what is available of it, in order, and nothing once that runs out. -/
theorem argumentsOfKind_bindArguments (kind : ParameterKind) (wanted available : List Parameter) :
    argumentsOfKind kind wanted (bindArguments wanted available) =
      List.takeD (ofKind kind wanted).length ((ofKind kind available).map some) none := by
  induction wanted generalizing available with
  | nil => rfl
  | cons p wanted ih =>
      obtain ⟨hnone, hcons⟩ | ⟨front, q, back, rfl, hq, hfront, hcons⟩ :=
        bindArguments_cons_cases p wanted available
      · rw [hcons]
        by_cases hp : p.kind = kind
        · have hempty : ofKind kind available = [] := ofKind_eq_nil (hp ▸ hnone)
          rw [argumentsOfKind_cons_of_eq hp, ofKind_cons_of_eq hp, ih, hempty]
          rfl
        · rw [argumentsOfKind_cons_of_ne hp, ofKind_cons_of_ne hp, ih]
      · rw [hcons]
        by_cases hp : p.kind = kind
        · -- The front has none of the kind, so that the parameter that is taken is the first of its kind.
          have hempty : ofKind kind front = [] := ofKind_eq_nil (hp ▸ hfront)
          rw [argumentsOfKind_cons_of_eq hp, ofKind_cons_of_eq hp, ih, ofKind_append, ofKind_append, hempty,
            ofKind_cons_of_eq (hq.trans hp)]
          rfl
        · have hother : q.kind ≠ kind := fun h => hp (hq.symm.trans h)
          rw [argumentsOfKind_cons_of_ne hp, ofKind_cons_of_ne hp, ih, ofKind_append, ofKind_append,
            ofKind_cons_of_ne hother]

/-! ### One argument -/

/-- An argument is available and has the kind of its parameter. -/
theorem forall₂_bindArguments (wanted available : List Parameter) :
    List.Forall₂ (fun p a => ∀ q ∈ a, q ∈ available ∧ q.kind = p.kind) wanted (bindArguments wanted available) := by
  induction wanted generalizing available with
  | nil => exact .nil
  | cons p wanted ih =>
      obtain ⟨_, hcons⟩ | ⟨front, q, back, rfl, hq, _, hcons⟩ := bindArguments_cons_cases p wanted available
      · rw [hcons]
        exact .cons (by simp) (ih available)
      · rw [hcons]
        refine .cons (by simp [hq]) ((ih (front ++ back)).imp fun r a ha s hs => ?_)
        obtain ⟨hmem, hkind⟩ := ha s hs
        exact ⟨(List.sublist_cons_self q back).append_left front |>.subset hmem, hkind⟩

theorem mem_of_mem_bindArguments {q : Parameter} (h : some q ∈ bindArguments wanted available) : q ∈ available := by
  obtain ⟨p, _, hq⟩ := exists_of_mem_right (forall₂_bindArguments wanted available) h
  exact (hq q rfl).1

/-- What is taken is gone, so that nothing is passed twice. -/
theorem pairwise_bindArguments (hdistinct : (available.map (·.id)).Nodup) :
    (bindArguments wanted available).Pairwise fun a b => ∀ q ∈ a, ∀ r ∈ b, q.id ≠ r.id := by
  induction wanted generalizing available with
  | nil => exact .nil
  | cons p wanted ih =>
      obtain ⟨_, hcons⟩ | ⟨front, q, back, rfl, _, _, hcons⟩ := bindArguments_cons_cases p wanted available
      · rw [hcons]
        exact .cons (by simp) (ih hdistinct)
      · have hperm : ((front ++ q :: back).map (·.id)).Perm (q.id :: (front ++ back).map (·.id)) :=
          List.perm_middle.map _
        obtain ⟨hfresh, hrest⟩ := List.nodup_cons.mp (hperm.nodup_iff.mp hdistinct)
        rw [hcons]
        refine .cons (fun b hb s hs r hr heq => hfresh ?_) (ih hrest)
        cases hs
        cases hr
        exact heq ▸ List.mem_map_of_mem (mem_of_mem_bindArguments hb)

/-- Where nothing is passed, all that there is of the kind has been passed before. -/
theorem passed_before_missing {i : Nat} (hp : wanted[i]? = some p)
    (hmissing : (bindArguments wanted available)[i]? = some none) {q : Parameter} (hq : q ∈ available)
    (hkind : q.kind = p.kind) : some q ∈ (bindArguments wanted available).take i := by
  induction wanted generalizing available i with
  | nil => cases hp
  | cons first wanted ih =>
      obtain ⟨hnone, hcons⟩ | ⟨front, r, back, rfl, _, _, hcons⟩ := bindArguments_cons_cases first wanted available
      · cases i with
        | zero =>
            cases hp
            exact absurd hkind (hnone q hq)
        | succ i =>
            rw [hcons] at hmissing ⊢
            exact List.mem_cons_of_mem _ (ih hp hmissing hq)
      · rw [hcons] at hmissing ⊢
        cases i with
        | zero => cases hmissing
        | succ i =>
            rcases List.mem_cons.mp (List.perm_middle.mem_iff.mp hq) with rfl | hq
            · exact List.mem_cons_self
            · exact List.mem_cons_of_mem _ (ih hp hmissing hq)

end Binding

/-! ### Calls -/

/-- The arguments of a call of a generator by an executor. -/
structure BindsInOrder (generator executor : Method) (arguments : List (Option Parameter)) : Prop where
  /-- There is a place for each parameter of the generator. -/
  length : arguments.length = generator.signature.length
  /-- The places of one kind hold the executor's parameters of this kind, in order and as far as they go. -/
  of_kind : ∀ kind, argumentsOfKind kind generator.signature arguments =
    List.takeD (ofKind kind generator.signature).length ((ofKind kind executor.signature).map some) none
  /-- No parameter is passed twice. -/
  once : arguments.Pairwise fun a b => ∀ q ∈ a, ∀ r ∈ b, q.id ≠ r.id
  same_kind : List.Forall₂ (fun p a => ∀ q ∈ a, q ∈ executor.signature ∧ q.kind = p.kind) generator.signature arguments
  /-- Nothing is passed only where no parameter of the kind is left. -/
  missing : ∀ i p, generator.signature[i]? = some p → arguments[i]? = some none →
    ∀ q ∈ executor.signature, q.kind = p.kind → some q ∈ arguments.take i

theorem signature_sublist (m : Method) : m.signature.Sublist m.parameters := by
  unfold Method.signature
  split
  · exact List.filter_sublist
  · exact .refl _

/-- An executor passes its parameters to its generator kind by kind and in order. -/
theorem generatorCall_binds_in_order (generator executor : Method)
    (hdistinct : (executor.parameters.map (·.id)).Nodup) :
    BindsInOrder generator executor (generatorCall generator executor).arguments where
  length := length_bindArguments _ _
  of_kind kind := argumentsOfKind_bindArguments kind _ _
  once := pairwise_bindArguments (((signature_sublist executor).map _).nodup hdistinct)
  same_kind := forall₂_bindArguments _ _
  missing _ _ hp hmissing _ hq hkind := passed_before_missing hp hmissing hq hkind

namespace UploadSample

/-- A parameter of an upload, by its place in the executor or the generator. -/
def parameter (method index : Nat) (name : String) (kind : ParameterKind) : Parameter :=
  { id := ⟨⟨⟨0⟩, method⟩, index⟩, name, kind, type := .scalar { name := "string" } }

def upload : Method :=
  { id := ⟨⟨0⟩, 0⟩, name := "Put", kind := .requestExecutor
    parameters := [parameter 0 0 "first" .requestConfiguration, parameter 0 1 "token" .cancellation,
      parameter 0 2 "userId" .path, parameter 0 3 "body" .requestBody, parameter 0 4 "second" .requestConfiguration] }

def toUpload : Method :=
  { id := ⟨⟨0⟩, 1⟩, name := "ToPut", kind := .requestGenerator
    parameters := [parameter 1 0 "body" .requestBody, parameter 1 1 "userId" .path,
      parameter 1 2 "before" .requestConfiguration, parameter 1 3 "contentType" .requestBodyContentType,
      parameter 1 4 "after" .requestConfiguration, parameter 1 5 "last" .requestConfiguration] }

end UploadSample

open UploadSample in
/-- The body and both configurations of an upload find their places. There is no content type and no third
configuration to pass, and the path is left out. -/
theorem upload_binds_in_order :
    (generatorCall toUpload upload).arguments.map (·.map (·.name)) =
      [some "body", some "first", none, some "second", none] ∧
    (upload.parameters.map (·.id)).Nodup ∧
    BindsInOrder toUpload upload (generatorCall toUpload upload).arguments :=
  ⟨by decide, by decide, generatorCall_binds_in_order toUpload upload (by decide)⟩

end ClientForge.Plan
