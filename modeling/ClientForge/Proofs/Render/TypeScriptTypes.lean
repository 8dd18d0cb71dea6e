import ClientForge.Proofs.Document.References
import ClientForge.Proofs.Render.Following
import ClientForge.Proofs.Render.OwnName
import ClientForge.Proofs.Render.References
import ClientForge.Proofs.Text.Pieces

/-!
# What a page keeps of a type

Writing a type down asks for the name of each declared element in it, at any depth, and a page remembers those
(`mentions_translate`). What the runtime declares has no such name: it is imported if the text of the whole type is its
name, and so neither from inside a collection nor from a member of a composed type.

* `Mentions`: what a page becomes when some elements are named on it;
* **`mentions_translate`.** On any page a type can be written, and its elements are named there.
* **`runtime_type_imported_iff`.** A type of the runtime is imported if and only if the type at hand is a single value
  of it, or the page has imported it before.
-/

namespace ClientForge.Render

open ClientForge.Graph ClientForge.Plan ClientForge.Convention

/-! ### Naming elements -/

/-- Elements have been named on a page: each is referred to, unless it is the class at hand. -/
structure Mentions (ds : List Definition) (page page' : Page) : Prop where
  needs : page'.needs = page.needs
  host : page'.host = page.host
  kept : ∀ d, page.refersTo d = true → page'.refersTo d = true
  named : ∀ d ∈ ds, page'.refersTo d = true ∨ page.hosts d = true

namespace Mentions

variable {ds ds' : List Definition} {page page₁ page₂ : Page}

theorem refl (page : Page) : Mentions [] page page := ⟨rfl, rfl, fun _ => id, List.forall_mem_nil _⟩

theorem trans (h : Mentions ds page page₁) (h' : Mentions ds' page₁ page₂) : Mentions (ds ++ ds') page page₂ where
  needs := h'.needs.trans h.needs
  host := h'.host.trans h.host
  kept d hd := h'.kept d (h.kept d hd)
  named d hd := by
    rcases List.mem_append.mp hd with hd | hd
    · exact (h.named d hd).imp_left (h'.kept d)
    · have hhosts : page₁.hosts d = page.hosts d := by rw [Page.hosts, h.host, Page.hosts]
      exact hhosts ▸ h'.named d hd

end Mentions

/-- Naming an element mentions it. -/
theorem mentions_name (p : Policy) (place : Option NamespaceId) (d : Definition) (page : Page) :
    Mentions [d] page (page.name p place d).2 where
  needs := Page.needs_name p d page
  host := Page.host_name page p place d
  kept other hother := by
    unfold Page.refersTo at hother ⊢
    rw [Page.references_name, gather]
    split
    · exact hother
    · rw [List.any_cons, hother, Bool.or_true]
  named := by
    rw [List.forall_mem_singleton]
    unfold Page.refersTo
    rw [Page.references_name, gather]
    split
    · next hknown => simpa [Page.hosts] using hknown
    · simp

/-- The elements that a type refers to, in order. -/
def definitionsOf (g : Graph) (refs : List TypeRef) : List Definition :=
  refs.filterMap fun r => r.definition.bind g.definition?

section Types

variable {e : Engine} {place : Option NamespaceId} (g : Graph) {p : Policy}

/-- Writing a type mentions the element that it refers to. -/
theorem mentions_translateRef (r : TypeRef) (page : Page) :
    ∃ text page', (translateRef (m := Script) g p nameOf r).follow e place page = (.ok text, page') ∧
      Mentions (definitionsOf g [r]) page page' := by
  unfold translateRef definitionsOf
  rw [List.filterMap_cons, List.filterMap_nil]
  cases r.definition.bind g.definition? with
  | none => exact ⟨_, page, rfl, .refl page⟩
  | some d => exact ⟨_, _, rfl, mentions_name e.context.policy place d page⟩

mutual

/-- On any page a type can be written down, and the page then refers to its elements. -/
theorem mentions_translate (hcomposed : p.composedTypes = true) : ∀ (t : TypeExpr) (page : Page),
    ∃ text page', (Convention.translate (m := Script) g p nameOf t).follow e place page = (.ok text, page') ∧
      Mentions (definitionsOf g t.refs) page page'
  | .scalar ref, page => by
      rw [Convention.translate]
      exact mentions_translateRef g ref page
  | .composed form name members nullable, page => by
      obtain ⟨parts, page', hfollow, hmentions⟩ := mentions_translateAll hcomposed members page
      rw [Convention.translate]
      simp only [hcomposed, Bool.not_true, Bool.false_eq_true, if_false]
      exact ⟨_, page', follow_bind hfollow, hmentions⟩

/-- Writing the parts of a composed type mentions all elements in them. -/
theorem mentions_translateAll (hcomposed : p.composedTypes = true) : ∀ (ts : List TypeExpr) (page : Page),
    ∃ parts page', (translateAll (m := Script) g p nameOf ts).follow e place page = (.ok parts, page') ∧
      Mentions (definitionsOf g (TypeExpr.refsOf ts)) page page'
  | [], page => by
      rw [translateAll]
      exact ⟨[], page, rfl, .refl page⟩
  | t :: ts, page => by
      obtain ⟨part, page₁, hfirst, hmentions⟩ := mentions_translate hcomposed t page
      obtain ⟨parts, page₂, hrest, hmentions'⟩ := mentions_translateAll hcomposed ts page₁
      refine ⟨part :: parts, page₂, ?_, ?_⟩
      · rw [translateAll, follow_bind hfirst, follow_bind hrest]
        rfl
      · rw [TypeExpr.refsOf, definitionsOf, List.filterMap_append]
        exact hmentions.trans hmentions'

end

end Types

namespace TypeScript

/-! ### Types of the runtime -/

theorem scalarName_runtimeTypes : ∀ name ∈ runtimeTypes, typescriptPolicy.scalarName name = name := by
  decide +kernel

theorem dropBack_runtimeTypes : ∀ name ∈ runtimeTypes, Text.dropBack name " | null" = name := by
  decide +kernel

/-- What is written as a type of the runtime is as long as the name of one. -/
theorem length_of_scalarName_mem {name : String} (h : typescriptPolicy.scalarName name ∈ runtimeTypes) :
    name.length ∈ runtimeTypes.map String.length := by
  have htranslated : ∀ x ∈ typescriptPolicy.scalarNames, x.2 ∈ runtimeTypes → x.1.length = x.2.length := by
    decide +kernel
  unfold Policy.scalarName at h
  split at h
  · next key translated hfound =>
    have hkey : key = Text.lower name := by simpa using List.find?_some hfound
    have hlength := htranslated _ (List.mem_of_find?_eq_some hfound) h
    have hlower : (Text.lower name).length = name.length := by simp [Text.lower, ← String.length_toList]
    rw [← hlower, ← hkey, hlength]
    exact List.mem_map_of_mem h
  · exact List.mem_map_of_mem h

/-- No type of the runtime is taken for a dictionary. -/
theorem not_isMap_of_scalarName_mem {r : TypeRef} (h : typescriptPolicy.scalarName r.name ∈ runtimeTypes) :
    isMap r = false := by
  have hlength := length_of_scalarName_mem h
  have hfold : ∀ word : String, Text.foldEq r.name word = true → r.name.length = word.length := by
    intro word hword
    have hkeys := congrArg List.length ((Text.foldEq_iff _ _).mp hword)
    simpa [Text.foldKey, String.length_toList] using hkeys
  by_contra hmap
  rw [Bool.not_eq_false, isMap, Bool.or_eq_true] at hmap
  rcases hmap with hmap | hmap
  · rw [hfold _ hmap] at hlength
    revert hlength
    decide
  · rw [hfold _ hmap] at hlength
    revert hlength
    decide

section Written

variable {e : Engine}

theorem mem_needs_need (page : Page) (item : String) : item ∈ (page.need item).needs := by
  unfold Page.need
  split
  · next hknown => exact List.contains_iff_mem.mp hknown
  · exact List.mem_cons_self

/-- Behind the name of a single value stands a mark or nothing, and without it the name is left. -/
theorem dropBack_decorate {r : TypeRef} (hsingle : r.collection = .none)
    (hruntime : typescriptPolicy.scalarName r.name ∈ runtimeTypes) :
    Text.dropBack (typescriptPolicy.decorate r (typescriptPolicy.scalarName r.name)) " | null" =
      typescriptPolicy.scalarName r.name := by
  unfold Policy.decorate
  simp only [hsingle]
  split
  · exact Text.dropBack_append _ _
  · exact dropBack_runtimeTypes _ hruntime

/-- A single value of a primitive can be written, and one of a type of the runtime is imported. -/
theorem follow_primitive (hpolicy : e.context.policy = typescriptPolicy) {r : TypeRef}
    (hdefinition : r.definition = none) (hsingle : r.collection = .none) (place : Option NamespaceId) (page : Page) :
    ∃ text page', (typeOf e.context (some (.scalar r))).follow e place page = (.ok text, page') ∧
      (typescriptPolicy.scalarName r.name ∈ runtimeTypes → typescriptPolicy.scalarName r.name ∈ page'.needs) := by
  have hprimitive : primitive? (.scalar r) = some r := by
    simp [primitive?, TypeExpr.ref?, hdefinition, TypeRef.isCollection, hsingle]
  have htext : typeText e.context (some (.scalar r)) =
      pure (typescriptPolicy.decorate r (typescriptPolicy.scalarName r.name)) := by
    rw [typeText, hpolicy, translate?, Convention.translate, translateRef, hdefinition]
    rfl
  simp only [typeOf, Option.bind_some, hprimitive]
  cases hmap : isMap r with
  | true =>
      refine ⟨mapType, page, rfl, fun hruntime => ?_⟩
      rw [not_isMap_of_scalarName_mem hruntime] at hmap
      cases hmap
  | false =>
      -- The import is decided by the text without its mark, whether or not that is the name.
      generalize hname : typescriptPolicy.decorate r (typescriptPolicy.scalarName r.name) = name at htext
      have hfollow : (typeText e.context (some (.scalar r))).follow e place page = (.ok name, page) := by
        rw [htext]
        rfl
      simp only [Bool.false_eq_true, if_false]
      rw [follow_bind hfollow]
      cases hbase : runtimeTypes.contains (Text.dropBack name " | null") with
      | false =>
          refine ⟨name, page, rfl, fun hruntime => ?_⟩
          rw [← hname, dropBack_decorate hsingle hruntime, List.contains_iff_mem.mpr hruntime] at hbase
          cases hbase
      | true =>
          refine ⟨name, page.need (Text.dropBack name " | null"), rfl, fun hruntime => ?_⟩
          rw [← hname, dropBack_decorate hsingle hruntime]
          exact mem_needs_need page _

/-- A type is a single value of a primitive, or it is written like any type. -/
theorem primitive?_eq_some_iff {t : TypeExpr} {r : TypeRef} :
    primitive? t = some r ↔ t = .scalar r ∧ r.definition = none ∧ r.collection = .none := by
  cases t with
  | scalar ref =>
      simp only [primitive?, TypeExpr.ref?, Option.filter_eq_some_iff, Option.some.injEq, TypeExpr.scalar.injEq,
        Bool.and_eq_true, Option.isNone_iff_eq_none, Bool.not_eq_true', TypeRef.isCollection, bne_eq_false_iff_eq]
  | composed form name members nullable => simp [primitive?, TypeExpr.ref?]

/-- On any page of a TypeScript client a type can be written down. The page then refers to every element in it, other
than the class at hand. Of the types of the runtime in it, which are written by their names, one is imported if and only
if the type is a single value of it, or it was imported before. -/
theorem runtime_type_imported_iff (hpolicy : e.context.policy = typescriptPolicy) (t : TypeExpr)
    (place : Option NamespaceId) (page : Page) :
    ∃ text page', (typeOf e.context (some t)).follow e place page = (.ok text, page') ∧
      (∀ r ∈ t.refs, ∀ d, r.definition.bind e.context.graph.definition? = some d →
        page'.refersTo d = true ∨ page.hosts d = true) ∧
      (∀ r ∈ t.refs, r.definition = none → typescriptPolicy.scalarName r.name ∈ runtimeTypes →
        (typescriptPolicy.scalarName r.name ∈ page'.needs ↔
          t = .scalar r ∧ r.collection = .none ∨ typescriptPolicy.scalarName r.name ∈ page.needs)) ∧
      ∀ name ∈ runtimeTypes, typescriptPolicy.scalarName name = name := by
  cases hprimitive : primitive? t with
  | some r =>
      obtain ⟨rfl, hdefinition, hsingle⟩ := primitive?_eq_some_iff.mp hprimitive
      obtain ⟨text, page', hfollow, hneeds⟩ := follow_primitive hpolicy hdefinition hsingle place page
      refine ⟨text, page', hfollow, ?_, ?_, scalarName_runtimeTypes⟩
      · intro other hother d hd
        obtain rfl := List.mem_singleton.mp hother
        rw [hdefinition] at hd
        cases hd
      · intro other hother _ hruntime
        obtain rfl := List.mem_singleton.mp hother
        exact iff_of_true (hneeds hruntime) (.inl ⟨rfl, hsingle⟩)
  | none =>
      have hcomposed : e.context.policy.composedTypes = true := by
        rw [hpolicy]
        rfl
      obtain ⟨text, page', hfollow, hmentions⟩ := mentions_translate e.context.graph hcomposed t page
      refine ⟨text, page', ?_, ?_, ?_, scalarName_runtimeTypes⟩
      · rw [typeOf, Option.bind_some, hprimitive]
        exact hfollow
      · intro r hr d hd
        exact hmentions.named d (List.mem_filterMap.mpr ⟨r, hr, hd⟩)
      · intro r _ hdefinition _
        rw [hmentions.needs]
        refine (or_iff_right ?_).symm
        rintro ⟨rfl, hsingle⟩
        rw [primitive?_eq_some_iff.mpr ⟨rfl, hdefinition, hsingle⟩] at hprimitive
        cases hprimitive

end Written

open HeirSample in
/-- On the page of a class `ParseNode?` is imported, while `ParseNode[]` and `ParseNode | Item` leave it out; the class
in the last one is referred to. -/
theorem parse_node_imported_alone :
    let page := startPage .typescript (.ofClass base)
    let node : TypeRef := { name := "ParseNode" }
    let item : TypeRef := { name := "Item", definition := some (.ofClass heir.id) }
    page.needs = [] ∧
    (∃ text page', (typeOf (engine .typescript).context (some (.scalar { node with nullable := true }))).follow
      (engine .typescript) none page = (.ok text, page') ∧ "ParseNode" ∈ page'.needs) ∧
    (∃ text page', (typeOf (engine .typescript).context (some (.scalar { node with collection := .array }))).follow
      (engine .typescript) none page = (.ok text, page') ∧ "ParseNode" ∉ page'.needs) ∧
    ∃ text page', (typeOf (engine .typescript).context
        (some (.composed .union "Either" [.scalar node, .scalar item] false))).follow
      (engine .typescript) none page = (.ok text, page') ∧ "ParseNode" ∉ page'.needs ∧
      page'.refersTo (.ofClass heir) = true := by
  intro page node item
  have hname : typescriptPolicy.scalarName "ParseNode" = "ParseNode" := scalarName_runtimeTypes _ (by decide)
  have hruntime : typescriptPolicy.scalarName node.name ∈ runtimeTypes := by
    rw [show typescriptPolicy.scalarName node.name = "ParseNode" from hname]
    decide
  have hneeds : typescriptPolicy.scalarName node.name ∉ page.needs := List.not_mem_nil
  refine ⟨rfl, ?_, ?_, ?_⟩
  · obtain ⟨text, page', hfollow, -, hruntimes, -⟩ := runtime_type_imported_iff (e := engine .typescript) rfl
      (.scalar { node with nullable := true }) none page
    have hiff := hruntimes _ List.mem_cons_self rfl hruntime
    exact ⟨text, page', hfollow, hname ▸ hiff.mpr (.inl ⟨rfl, rfl⟩)⟩
  · obtain ⟨text, page', hfollow, -, hruntimes, -⟩ := runtime_type_imported_iff (e := engine .typescript) rfl
      (.scalar { node with collection := .array }) none page
    have hiff := hruntimes _ List.mem_cons_self rfl hruntime
    refine ⟨text, page', hfollow, fun hmem => ?_⟩
    rcases hiff.mp (hname.symm ▸ hmem) with ⟨-, hsingle⟩ | hbefore
    · cases hsingle
    · exact hneeds hbefore
  · obtain ⟨text, page', hfollow, hnamed, hruntimes, -⟩ := runtime_type_imported_iff (e := engine .typescript) rfl
      (.composed .union "Either" [.scalar node, .scalar item] false) none page
    have hiff := hruntimes node List.mem_cons_self rfl hruntime
    refine ⟨text, page', hfollow, fun hmem => ?_, ?_⟩
    · rcases hiff.mp (hname.symm ▸ hmem) with ⟨hscalar, -⟩ | hbefore
      · cases hscalar
      · exact hneeds hbefore
    · have hreferred := hnamed item (List.mem_cons_of_mem _ List.mem_cons_self) (.ofClass heir) rfl
      exact hreferred.resolve_right (by decide)

end TypeScript

end ClientForge.Render
