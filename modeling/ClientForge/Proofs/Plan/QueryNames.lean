import ClientForge.Plan.Evaluation
import ClientForge.Proofs.Plan.Factory
import Mathlib.Data.List.Pairwise

/-!
# Names of query parameters

A mapper has a case for each query parameter whose name on the wire is not its own, and asks for the cases
without regard to case. If no two query parameters have the same name in this sense, the order of the cases does
not matter. A parameter whose name on the wire is its own has no case, so that its name stays as it was spelled.

* `mapQueryParameter_of_renamed`, `mapQueryParameter_of_none`: what becomes of a name;
* **`query_names_mapped`.** A mapper gives every name the one on the wire, unless this is the parameter's own.
-/

namespace ClientForge.Plan

open ClientForge.Graph

/-- A query parameter of a class. -/
def IsQueryParameter (cls : ClassDef) (p : Property) : Prop := p ∈ cls.properties ∧ p.kind = .queryParameter

/-- The name of a property on the wire is another than its own. -/
def IsRenamed (p : Property) : Prop := p.serializationName ≠ "" ∧ p.serializationName ≠ p.name

/-- No two query parameters have the same name without regard to case. -/
def NamesApart (cls : ClassDef) : Prop :=
  (cls.properties.filter (·.kind == .queryParameter)).Pairwise fun p q => Text.foldEq p.name q.name = false

instance (cls : ClassDef) : Decidable (NamesApart cls) :=
  inferInstanceAs (Decidable (List.Pairwise _ _))

section Cases

variable {cls : ClassDef} {p : Property} {name : String} {body : Body}

/-- There is a case for every query parameter with another name on the wire. -/
theorem mem_queryNameCases_iff {x : QueryNameCase} :
    x ∈ queryNameCases cls ↔ ∃ p, IsQueryParameter cls p ∧ IsRenamed p ∧ x = ⟨p.name, p.serializationName⟩ := by
  have hkept (p : Property) :
      p ∈ cls.properties.filter (fun p =>
        p.kind == .queryParameter && !p.serializationName.isEmpty && p.serializationName != p.name) ↔
        IsQueryParameter cls p ∧ IsRenamed p := by
    simp [IsQueryParameter, IsRenamed, and_assoc]
  rw [queryNameCases, List.mem_map]
  simp only [hkept, and_assoc, @eq_comm _ x]

/-- The name of a query parameter tells which one it is. -/
theorem NamesApart.eq_of_foldEq {q : Property} (h : NamesApart cls) (hp : IsQueryParameter cls p)
    (hq : IsQueryParameter cls q) (hpname : Text.foldEq p.name name = true)
    (hqname : Text.foldEq q.name name = true) : p = q := by
  have hmem : ∀ {r : Property}, IsQueryParameter cls r → r ∈ cls.properties.filter (·.kind == .queryParameter) :=
    fun hr => List.mem_filter.mpr ⟨hr.1, by simp [hr.2]⟩
  have : Std.Symm fun p q : Property => Text.foldEq p.name q.name = false :=
    ⟨fun _ _ h => (Text.foldEq_comm _ _).trans h⟩
  have hsame : Text.foldEq p.name q.name = true := Text.foldEq_trans hpname ((Text.foldEq_comm _ _).trans hqname)
  by_contra hne
  rw [List.Pairwise.forall h (hmem hp) (hmem hq) hne] at hsame
  cases hsame

variable (hbody : body.queryNames = queryNameCases cls)
include hbody

/-- A renamed parameter is mapped to its name on the wire, whatever the case of its letters. -/
theorem mapQueryParameter_of_renamed (h : NamesApart cls) (hp : IsQueryParameter cls p) (hrenamed : IsRenamed p)
    (hname : Text.foldEq p.name name = true) : mapQueryParameter body name = p.serializationName := by
  rw [mapQueryParameter, hbody]
  cases hfind : (queryNameCases cls).find? fun x => Text.foldEq x.name name with
  | none =>
      have hcase := mem_queryNameCases_iff.mpr ⟨p, hp, hrenamed, rfl⟩
      exact absurd hname (List.find?_eq_none.mp hfind _ hcase)
  | some x =>
      obtain ⟨q, hq, _, rfl⟩ := mem_queryNameCases_iff.mp (List.mem_of_find?_eq_some hfind)
      have hqname := List.find?_some hfind
      rw [h.eq_of_foldEq hp hq hname hqname]

/-- Any other name is left as it is. -/
theorem mapQueryParameter_of_none
    (hnone : ∀ p, IsQueryParameter cls p → IsRenamed p → Text.foldEq p.name name = false) :
    mapQueryParameter body name = name := by
  have hfind : (queryNameCases cls).find? (fun x => Text.foldEq x.name name) = none := by
    refine List.find?_eq_none.mpr fun x hx => ?_
    obtain ⟨p, hp, hrenamed, rfl⟩ := mem_queryNameCases_iff.mp hx
    simp [hnone p hp hrenamed]
  rw [mapQueryParameter, hbody, hfind]

end Cases

/-- The body of a mapper with an input. -/
theorem synthesize_mapper {e : Engine} {cls : ClassDef} {m : Method}
    (hhandler : e.handlers .queryParametersMapper = defaultHandlers .queryParametersMapper)
    (hkind : m.kind = .queryParametersMapper) (hparent : e.context.graph.parentOf m = some cls)
    (hinput : (m.parameterOfKind .queryParametersMapper).isSome = true) :
    ∃ body, e.synthesize m = .ok body ∧ body.queryNames = queryNameCases cls := by
  obtain ⟨input, hinput⟩ := Option.isSome_iff_exists.mp hinput
  refine ⟨{ method := m, operations := [.mapQueryName input (queryNameCases cls)] }, ?_, List.append_nil _⟩
  rw [synthesize_in_class (by rw [hkind, hhandler]; rfl) hparent, inContext, mapError_eq_ok]
  simp only [queryParametersMapper, hinput]

/-- A mapper gives each name that is a query parameter's, without regard to case, the parameter's name on the
wire. The name stays as it is if no query parameter has it, or if the one that has it is not called differently on
the wire. -/
theorem query_names_mapped (e : Engine) (cls : ClassDef) (m : Method)
    (hhandler : e.handlers .queryParametersMapper = defaultHandlers .queryParametersMapper)
    (hkind : m.kind = .queryParametersMapper) (hparent : e.context.graph.parentOf m = some cls)
    (hinput : (m.parameterOfKind .queryParametersMapper).isSome = true) (hapart : NamesApart cls) :
    ∃ body, e.synthesize m = .ok body ∧ ∀ name,
      (∀ p, IsQueryParameter cls p → Text.foldEq p.name name = true →
        mapQueryParameter body name =
          if p.serializationName = "" ∨ p.serializationName = p.name then name else p.serializationName) ∧
      ((∀ p, IsQueryParameter cls p → Text.foldEq p.name name = false) → mapQueryParameter body name = name) := by
  obtain ⟨body, hsynthesize, hbody⟩ := synthesize_mapper hhandler hkind hparent hinput
  refine ⟨body, hsynthesize, fun name => ⟨fun p hp hname => ?_, fun hnone => ?_⟩⟩
  · split
    · rename_i hown
      refine mapQueryParameter_of_none hbody fun q hq hrenamed => ?_
      by_contra hqname
      cases hapart.eq_of_foldEq hp hq hname (Bool.not_eq_false _ ▸ hqname)
      exact hown.elim hrenamed.1 hrenamed.2
    · rename_i hother
      exact mapQueryParameter_of_renamed hbody hapart hp (not_or.mp hother) hname
  · exact mapQueryParameter_of_none hbody fun p hp _ => hnone p hp

namespace SearchSample

def top : Property := { name := "Top", serializationName := "%24top", kind := .queryParameter }

def search : Property := { name := "Search", serializationName := "Search", kind := .queryParameter }

def mapper : Method :=
  { id := ⟨⟨0⟩, 0⟩, name := "GetQueryParameter", kind := .queryParametersMapper, parent := some ⟨0⟩
    parameters := [{ id := ⟨⟨⟨0⟩, 0⟩, 0⟩, name := "originalName", kind := .queryParametersMapper
                     type := .scalar { name := "string" } }] }

def query : ClassDef :=
  { id := ⟨0⟩, name := "Query", kind := .queryParameters, home := some ⟨⟨0⟩, "Sdk"⟩, properties := [top, search]
    methods := [mapper] }

def engine : Engine :=
  ⟨⟨{ root := { id := ⟨0⟩, name := "Sdk", classes := [⟨0⟩] }, classes := #[query], enums := #[] },
    Convention.Language.csharp.policy, {}⟩, defaultHandlers⟩

end SearchSample

open SearchSample in
/-- `TOP` is called `%24top` on the wire, and an unknown name stays as it is. -/
theorem top_mapped_and_filter_kept :
    NamesApart query ∧ ∃ body, engine.synthesize mapper = .ok body ∧
      mapQueryParameter body "TOP" = "%24top" ∧ mapQueryParameter body "filter" = "filter" := by
  have hapart : NamesApart query := by decide
  obtain ⟨body, hsynthesize, hmapped⟩ := query_names_mapped engine query mapper rfl rfl rfl rfl hapart
  refine ⟨hapart, body, hsynthesize, ?_, ?_⟩
  · exact (hmapped "TOP").1 top ⟨List.mem_cons_self, rfl⟩ (by decide)
  · refine (hmapped "filter").2 ?_
    rintro p ⟨hp, _⟩
    simp only [query, List.mem_cons, List.not_mem_nil, or_false] at hp
    rcases hp with rfl | rfl <;> decide

open SearchSample in
/-- `search` is a spelling of `Search`, which is called `Search` on the wire too, and yet stays as it is. -/
theorem search_keeps_its_spelling :
    NamesApart query ∧ IsQueryParameter query search ∧ search.serializationName = "Search" ∧
      Text.foldEq search.name "search" = true ∧
      ∃ body, engine.synthesize mapper = .ok body ∧ mapQueryParameter body "search" ≠ search.serializationName := by
  refine ⟨by decide, ⟨List.mem_cons_of_mem _ List.mem_cons_self, rfl⟩, rfl, by decide, _, rfl, ?_⟩
  decide

end ClientForge.Plan
