import ClientForge.Proofs.Graph.Placed

/-!
# What valid graphs keep

A graph is valid if it breaks no rule. The rules are checked one after the other, so a class or a method of a
valid graph keeps each of them; here the checks that planning relies on are turned into what they say.

* `mappingViolations_eq_nil_iff`: the mappings of a discriminator have distinct keys and lead to listed classes;
* `methodViolations_eq_nil_iff`: a method knows its class, has a result, stands where its kind belongs and has
  what its kind asks for;
* `rule_of_generatorOf`, `rule_of_indexerOf`: which rules a search for a generator or an indexer can break.
-/

namespace ClientForge.Graph

variable {g : Graph} {c : ClassDef} {m : Method}

/-! ### Discriminators -/

/-- A type leads to a listed class if some namespace lists one of its identity. -/
theorem isListedClass_iff {t : Option TypeRef} :
    g.isListedClass t = true ↔
      ∃ target, t.bind g.classOf = some target ∧ ∃ c ∈ g.allClasses, c.id = target.id := by
  unfold isListedClass
  cases t.bind g.classOf <;> simp

/-- Keys count as repeated if they were seen before, so the check goes through the mappings with the keys of
those in front. -/
theorem mappingViolations_eq_nil_iff {element : String} {seen : List String}
    {mappings : List DiscriminatorMapping} :
    g.mappingViolations element seen mappings = [] ↔
      (∀ x ∈ mappings, x.key ∉ seen) ∧ (mappings.map (·.key)).Nodup ∧
        ∀ x ∈ mappings, g.isListedClass x.type = true := by
  induction mappings generalizing seen with
  | nil => simp [mappingViolations]
  | cons x mappings ih =>
      have hseen : (∀ y ∈ mappings, y.key ∉ x.key :: seen) ↔
          x.key ∉ mappings.map (·.key) ∧ ∀ y ∈ mappings, y.key ∉ seen := by
        simp only [List.mem_cons, not_or, List.mem_map, not_exists, not_and, forall_and]
      simp only [mappingViolations, List.append_eq_nil_iff, ih, hseen, List.forall_mem_cons, List.map_cons,
        List.nodup_cons, List.contains_iff_mem, ite_eq_right_iff, ite_eq_left_iff, List.cons_ne_nil, imp_false,
        Decidable.not_not]
      constructor
      · rintro ⟨⟨hkey, hlisted⟩, ⟨hnew, hrest⟩, hnodup, htargets⟩
        exact ⟨⟨hkey, hrest⟩, ⟨hnew, hnodup⟩, hlisted, htargets⟩
      · rintro ⟨⟨hkey, hrest⟩, ⟨hnew, hnodup⟩, hlisted, htargets⟩
        exact ⟨⟨hkey, hlisted⟩, ⟨hnew, hrest⟩, hnodup, htargets⟩

/-- In a valid graph every value of a discriminator leads to one class, and this class is listed. -/
theorem discriminator_of_valid (hvalid : g.violations = []) (hc : c ∈ g.allClasses) :
    (c.discriminator.mappings.map (·.key)).Nodup ∧
      ∀ x ∈ c.discriminator.mappings, g.isListedClass x.type = true := by
  have hclass := classViolations_of_valid hvalid hc
  simp only [classViolations, List.append_eq_nil_iff] at hclass
  exact (mappingViolations_eq_nil_iff.mp hclass.1.1.2).2

/-! ### Methods -/

/-- What the rules ask of a method: its parent, a return type, a class that it fits into, and what its kind asks for. -/
theorem methodViolations_eq_nil_iff :
    g.methodViolations c m = [] ↔
      m.parent = some c.id ∧ (m.kind.isConstructor = false → m.returnType.isSome) ∧
        (∀ places, methodPlaces m.kind = some places → c.kind ∈ places) ∧
        g.kindViolations (c.qualifiedName ++ "." ++ m.name) m = [] := by
  simp only [methodViolations, List.append_eq_nil_iff, and_assoc]
  cases methodPlaces m.kind <;> simp [Option.isSome_iff_ne_none, imp.swap]

/-! ### Single rules -/

theorem rule_of_indexerOf {v : Violation} (h : g.indexerOf c = .error v) : v.rule = .multipleIndexers := by
  unfold indexerOf at h
  split at h <;> cases h
  rfl

/-- The rules that a request can break for want of its generator. -/
theorem rule_of_generatorOf {v : Violation} (h : g.generatorOf m = .error v) :
    (v.rule = .missingParent ∧ g.parentOf m = none) ∨ v.rule = .missingHttpMethod m.kind ∨
      ∃ http, v.rule = .missingGenerator http ∨ v.rule = .duplicateGenerator http := by
  unfold generatorOf at h
  split at h
  · next hparent =>
    cases h
    exact .inl ⟨rfl, hparent⟩
  · split at h
    · cases h
      exact .inr (.inl rfl)
    · next http _ =>
      split at h <;> cases h
      · exact .inr (.inr ⟨http, .inl rfl⟩)
      · exact .inr (.inr ⟨http, .inr rfl⟩)

/-- A generator that is found is the only one of the class for the HTTP method. -/
theorem found_of_generatorOf {generator : Method} (h : g.generatorOf m = .ok generator) :
    ∃ cls http, g.parentOf m = some cls ∧ m.http = some http ∧ generatorsFor cls http = [generator] := by
  unfold generatorOf at h
  split at h
  · cases h
  · next cls hparent =>
    split at h
    · cases h
    · next http hhttp =>
      split at h
      · cases h
      · next hone =>
        cases h
        exact ⟨cls, http, hparent, hhttp, hone⟩
      · cases h

/-! ### Valid graphs -/

section Valid

variable (hvalid : g.violations = []) (hc : c ∈ g.allClasses) (hm : m ∈ c.methods)
include hvalid hc hm

theorem returnType_of_valid (hkind : m.kind.isConstructor = false) : m.returnType.isSome :=
  (methodViolations_eq_nil_iff.mp (methodViolations_of_valid hvalid hc hm)).2.1 hkind

theorem kindViolations_of_valid : g.kindViolations (c.qualifiedName ++ "." ++ m.name) m = [] :=
  (methodViolations_eq_nil_iff.mp (methodViolations_of_valid hvalid hc hm)).2.2.2

theorem http_of_valid (hkind : m.kind = .requestGenerator) : m.http.isSome := by
  have hmethod := kindViolations_of_valid hvalid hc hm
  simpa [kindViolations, hkind, Option.isSome_iff_ne_none] using hmethod

theorem generatorOf_of_valid (hkind : m.kind = .requestExecutor) :
    ∃ generator, g.generatorOf m = .ok generator := by
  have hmethod := kindViolations_of_valid hvalid hc hm
  simp only [kindViolations, hkind] at hmethod
  cases hgenerator : g.generatorOf m with
  | ok generator => exact ⟨generator, rfl⟩
  | error v =>
      rw [hgenerator] at hmethod
      split at hmethod <;> cases hmethod

theorem mapperParameter_of_valid (hkind : m.kind = .queryParametersMapper) :
    (m.parameterOfKind .queryParametersMapper).isSome := by
  have hmethod := kindViolations_of_valid hvalid hc hm
  simpa [kindViolations, hkind, Option.isSome_iff_ne_none] using hmethod

end Valid

end ClientForge.Graph
