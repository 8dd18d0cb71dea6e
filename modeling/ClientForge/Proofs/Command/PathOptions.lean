import ClientForge.Proofs.Command.OptionNames

/-!
# Options for the path

A request cannot be made without the values of its path, so the option for such a value is required. But a value
gets an option only if none before it goes by the same name, be it one of the path, of the query or of the headers,
and different names can come to the same option. So what is declared first decides.

* `first_mem_distinctOptions`: the first option of a name is kept;
* `required_parameterOption_iff`: when the option of a value is required;
* **`path_option_required_iff`.** When there is a required option under the name of a path value.
-/

namespace ClientForge.Command

open ClientForge.Graph ClientForge.Plan

/-- What the URL and the headers of a request are made of. -/
def urlKinds : List ParameterKind := [.path, .queryParameter, .headers]

/-- A value of the URL or the headers whose option goes by a name. -/
def AsksAs (o : Options) (name : String) (q : Parameter) : Prop :=
  q.kind ∈ urlKinds ∧ Text.isBlankText q.name = false ∧ optionName o q.name = name

instance (o : Options) (name : String) (q : Parameter) : Decidable (AsksAs o name q) :=
  inferInstanceAs (Decidable (_ ∧ _))

/-- The value that gets the option of a name: the first one that asks for it. -/
def claimant (o : Options) (generator : Method) (name : String) : Option Parameter :=
  generator.parameters.find? fun q => AsksAs o name q

/-- The value that gets an option asks for it. -/
theorem asksAs_of_claimant {o : Options} {generator : Method} {name : String} {q : Parameter}
    (h : claimant o generator name = some q) : AsksAs o name q := by
  have hasks := List.find?_some h
  exact of_decide_eq_true hasks

/-! ### The first option of a name -/

/-- The first option of a name stays. -/
theorem first_mem_distinctOptions {seen : List String} {before : List CommandOption} {o : CommandOption}
    (after : List CommandOption) (hbefore : o.name ∉ optionNames before) (hseen : o.name ∉ seen) :
    o ∈ distinctOptions seen (before ++ o :: after) := by
  induction before generalizing seen with
  | nil =>
      rw [List.nil_append, distinctOptions, if_neg (by simpa using hseen)]
      exact List.mem_cons_self
  | cons first before ih =>
      obtain ⟨hne, hbefore⟩ := not_or.mp (mt List.mem_cons.mpr hbefore)
      rw [List.cons_append, distinctOptions]
      split
      · exact ih hbefore hseen
      · exact List.mem_cons_of_mem _ (ih hbefore fun h => (List.mem_cons.mp h).elim hne hseen)

/-- Of one name there is one option only. -/
theorem eq_of_mem_distinctOptions {seen : List String} {os : List CommandOption} {o o' : CommandOption}
    (h : o ∈ distinctOptions seen os) (h' : o' ∈ distinctOptions seen os) (hname : o.name = o'.name) : o = o' :=
  List.inj_on_of_nodup_map (nodup_distinctOptions seen os) h h' hname

/-! ### Options of values -/

section Values

variable {c : Context} {q : Parameter}

theorem name_parameterOption (h : q.kind ∈ urlKinds) :
    (parameterOption c q).name = optionName c.options q.name := by
  simp only [urlKinds, List.mem_cons, List.not_mem_nil, or_false] at h
  rcases h with h | h | h <;> simp only [parameterOption, h]

/-- The option of a value is required for paths, and for what is not optional. -/
theorem required_parameterOption_iff (h : q.kind ∈ urlKinds) :
    (parameterOption c q).required = true ↔ q.kind = .path ∨ q.optional = false := by
  simp only [urlKinds, List.mem_cons, List.not_mem_nil, or_false] at h
  rcases h with h | h | h <;> simp [parameterOption, h]

theorem required_outputOptions {executor : Method} {o : CommandOption} (h : o ∈ outputOptions executor) :
    o.required = false := by
  unfold outputOptions at h
  split at h
  · cases List.mem_singleton.mp h
    rfl
  · cases h
  · cases h
  · simp only [List.mem_append, List.mem_cons, List.not_mem_nil, or_false] at h
    rcases h with (rfl | rfl) | h
    · rfl
    · rfl
    · split at h
      · cases List.mem_singleton.mp h
        rfl
      · cases h

end Values

/-! ### Options of a request -/

section Request

variable {c : Context} {generator : Method} {name : String} {q : Parameter}

/-- The values that have an option, divided at one of them. -/
theorem named_eq_append (executor : Method) {before after : List Parameter}
    (hparameters : generator.parameters = before ++ q :: after) (hkind : q.kind ∈ urlKinds)
    (hblank : Text.isBlankText q.name = false) :
    ∃ back, (optionParameters generator executor).filter (!Text.isBlankText ·.name) =
      (before.filter (urlKinds.contains ·.kind)).filter (!Text.isBlankText ·.name) ++ q :: back := by
  have hurl : generator.parametersOfKinds urlKinds =
      before.filter (urlKinds.contains ·.kind) ++ q :: after.filter (urlKinds.contains ·.kind) := by
    rw [Method.parametersOfKinds, hparameters, List.filter_append, List.filter_cons_of_pos (by simpa using hkind)]
  have hall : optionParameters generator executor = generator.parametersOfKinds urlKinds ++
      (executor.parameterOfKind .requestBody).toList ++ (executor.parameterOfKind .requestBodyContentType).toList := rfl
  rw [hall, hurl, List.append_assoc, List.append_assoc, List.filter_append, List.cons_append,
    List.filter_cons_of_pos (by simp [hblank])]
  exact ⟨_, rfl⟩

/-- The value that claims a name gets its option, and no other value does. -/
theorem option_of_claimant (executor : Method) (h : claimant c.options generator name = some q) :
    parameterOption c q ∈ options c generator executor ∧
      ∀ o ∈ options c generator executor, o.name = name → o = parameterOption c q ∨ o ∈ outputOptions executor := by
  obtain ⟨hkind, hblank, hname⟩ := asksAs_of_claimant h
  obtain ⟨_, before, after, hparameters, hbefore⟩ := List.find?_eq_some_iff_append.mp h
  obtain ⟨back, hnamed⟩ := named_eq_append executor hparameters hkind hblank
  have hoption : (parameterOption c q).name = name := (name_parameterOption hkind).trans hname
  -- What is asked for before the claimant goes by other names.
  have hfront : (parameterOption c q).name ∉ optionNames
      (((before.filter (urlKinds.contains ·.kind)).filter (!Text.isBlankText ·.name)).map (parameterOption c)) := by
    intro hmem
    obtain ⟨_, ho, hsame⟩ := List.mem_map.mp hmem
    obtain ⟨r, hr, rfl⟩ := List.mem_map.mp ho
    obtain ⟨hr, hrblank⟩ := List.mem_filter.mp hr
    obtain ⟨hr, hrkind⟩ := List.mem_filter.mp hr
    have hrkind : r.kind ∈ urlKinds := by simpa using hrkind
    have hrasks : AsksAs c.options name r :=
      ⟨hrkind, by simpa using hrblank, (name_parameterOption hrkind).symm.trans (hsame.trans hoption)⟩
    simpa [hrasks] using hbefore r hr
  have hkept : parameterOption c q ∈ distinctOptions []
      (((optionParameters generator executor).filter (!Text.isBlankText ·.name)).map (parameterOption c)) := by
    rw [hnamed, List.map_append, List.map_cons]
    exact first_mem_distinctOptions _ hfront List.not_mem_nil
  refine ⟨List.mem_append_left _ hkept, fun o ho hsame => ?_⟩
  exact (List.mem_append.mp ho).imp_left fun ho => eq_of_mem_distinctOptions ho hkept (hsame.trans hoption.symm)

end Request

/-- Under the name of a path value stands the option of the value that was declared first of those that ask for
the name. There is a required option under the name exactly if this is a path value or is not optional. -/
theorem path_option_required_iff (c : Context) (generator executor : Method) (p : Parameter)
    (hp : p ∈ generator.parameters) (hkind : p.kind = .path) (hname : Text.isBlankText p.name = false) :
    ∃ q, claimant c.options generator (optionName c.options p.name) = some q ∧
      parameterOption c q ∈ options c generator executor ∧
      (parameterOption c q).name = optionName c.options p.name ∧
      ((∃ o ∈ options c generator executor, o.name = optionName c.options p.name ∧ o.required = true) ↔
        q.kind = .path ∨ q.optional = false) := by
  have hasks : AsksAs c.options (optionName c.options p.name) p := ⟨hkind ▸ List.mem_cons_self, hname, rfl⟩
  have hclaimed : (claimant c.options generator (optionName c.options p.name)).isSome = true :=
    List.find?_isSome.mpr ⟨p, hp, decide_eq_true hasks⟩
  obtain ⟨q, hq⟩ := Option.isSome_iff_exists.mp hclaimed
  obtain ⟨hqkind, _, hqname⟩ := asksAs_of_claimant hq
  obtain ⟨hmem, honly⟩ := option_of_claimant executor hq
  have hoption := (name_parameterOption (c := c) hqkind).trans hqname
  refine ⟨q, hq, hmem, hoption, ?_⟩
  rw [← required_parameterOption_iff (c := c) hqkind]
  constructor
  · rintro ⟨o, ho, hsame, hrequired⟩
    rcases honly o ho hsame with rfl | hanswer
    · exact hrequired
    · rw [required_outputOptions hanswer] at hrequired
      cases hrequired
  · exact fun hrequired => ⟨_, hmem, hoption, hrequired⟩

namespace UserSample

def user : Parameter :=
  { id := ⟨⟨⟨0⟩, 0⟩, 0⟩, name := "userId", kind := .path, type := .scalar { name := "string" } }

/-- A value of the query that need not be given and whose name comes to the same option. -/
def asked : Parameter :=
  { id := ⟨⟨⟨0⟩, 0⟩, 1⟩, name := "user-id", kind := .queryParameter, type := .scalar { name := "string" }
    optional := true }

def find (parameters : List Parameter) : Method :=
  { id := ⟨⟨0⟩, 0⟩, name := "ToFind", kind := .requestGenerator, parameters }

def executor : Method := { id := ⟨⟨0⟩, 1⟩, name := "Find", kind := .requestExecutor }

def context : Context :=
  ⟨{ root := { id := ⟨0⟩, name := "Sdk" }, classes := #[], enums := #[] }, Convention.Language.cli.policy, {}⟩

def UserRequired (parameters : List Parameter) : Prop :=
  ∃ o ∈ options context (find parameters) executor, o.name = "user-id" ∧ o.required = true

end UserSample

open UserSample in
/-- The user is asked for if it is declared first. If the value of the query is, there is no required option. -/
theorem user_required_in_front_only : UserRequired [user, asked] ∧ ¬UserRequired [asked, user] := by
  have hname : optionName context.options user.name = "user-id" := by decide
  constructor
  · obtain ⟨q, hq, _, _, hiff⟩ := path_option_required_iff context (find [user, asked]) executor user
      List.mem_cons_self rfl (by decide)
    cases hq
    rw [hname] at hiff
    exact hiff.mpr (.inl rfl)
  · obtain ⟨q, hq, _, _, hiff⟩ := path_option_required_iff context (find [asked, user]) executor user
      (List.mem_cons_of_mem _ List.mem_cons_self) rfl (by decide)
    cases hq
    rw [hname] at hiff
    exact fun hrequired => (hiff.mp hrequired).elim nofun nofun

end ClientForge.Command
