import ClientForge.Proofs.Document.Elements
import ClientForge.Proofs.Document.References
import Mathlib.Data.List.Nodup

/-!
# Resolution of names

What a name means depends on the titles of what is declared, and on nothing else of it (`lookup_title`). Where no two
declarations share a full name their order does not matter either (`lookupTitle_perm`). Entries are then read alike:
both readings fail in the same way, or they give results whose references are to declarations of the same titles
(`Agree`, `SameRef`).

* `sameScope_of_perm`: names mean the same among the same titles;
* `agree_ref`, `agree_type`, `agree_link`: types and links are read alike where names mean the same;
* **`agree_classOf`.** So are classes.
-/

namespace ClientForge.Document

open ClientForge.Graph

/-! ### Names by title -/

section Titles

/-- The only one of some candidates, if there are any. -/
def theOnly (name : String) : List Title → Except Failure (Option Title)
  | [] => .ok none
  | [t] => .ok (some t)
  | _ => .error (.cause (.ambiguousName name))

/-- What a name means at a place, by the titles of all declarations. -/
def lookupTitle (titles : List Title) (root place name : String) : Except Failure (Option Title) :=
  match [name, root ++ "." ++ name, place ++ "." ++ name].findSome? fun full => titles.find? (·.full == full) with
  | some t => .ok (some t)
  | none => theOnly name (titles.filter (·.name == name))

variable {names : Names} {place : NamespaceRef}

/-- Looking a full name up among declarations is looking it up among their titles. -/
theorem withFullName_title (names : Names) (full : String) :
    (names.withFullName full).map Declaration.title =
      (names.declared.map Declaration.title).find? (·.full == full) := by
  rw [List.find?_map]
  rfl

/-- To try the root a second time changes nothing. -/
theorem findSome?_candidates (hplace : place.id = names.root.id → place.name = names.root.name) (name : String) :
    ((names.candidates name place).findSome? names.withFullName).map Declaration.title =
      [name, names.root.name ++ "." ++ name, place.name ++ "." ++ name].findSome? fun full =>
        (names.declared.map Declaration.title).find? (·.full == full) := by
  simp only [← withFullName_title, Names.candidates, beq_iff_eq]
  split
  · next hroot =>
    rw [hplace hroot]
    simp only [List.append_nil, List.findSome?_cons, List.findSome?_nil]
    cases names.withFullName name <;> cases names.withFullName (names.root.name ++ "." ++ name) <;> rfl
  · simp only [List.cons_append, List.nil_append, List.findSome?_cons, List.findSome?_nil]
    cases names.withFullName name <;> cases names.withFullName (names.root.name ++ "." ++ name) <;>
      cases names.withFullName (place.name ++ "." ++ name) <;> rfl

/-- What a name means depends on the titles of all declarations, and on the names of the root and the place. -/
theorem lookup_title (hplace : place.id = names.root.id → place.name = names.root.name) (name : String) :
    (names.lookup name place).map (Option.map Declaration.title) =
      lookupTitle (names.declared.map Declaration.title) names.root.name place.name name := by
  unfold Names.lookup lookupTitle
  rw [← findSome?_candidates hplace, List.filter_map]
  cases (names.candidates name place).findSome? names.withFullName with
  | some x => rfl
  | none =>
      change _ = theOnly name ((names.declared.filter (·.name == name)).map Declaration.title)
      dsimp only
      generalize names.declared.filter (·.name == name) = found
      rcases found with - | ⟨x, - | ⟨y, rest⟩⟩ <;> rfl

theorem theOnly_perm {l₁ l₂ : List Title} (h : l₁.Perm l₂) (name : String) : theOnly name l₁ = theOnly name l₂ := by
  rcases l₁ with - | ⟨t, - | ⟨t', rest⟩⟩
  · rw [h.nil_eq]
  · rw [List.singleton_perm.mp h]
  · -- more than one stay more than one
    have hlength := h.length_eq
    rcases l₂ with - | ⟨u, - | ⟨u', rest'⟩⟩
    · simp at hlength
    · simp at hlength
    · rfl

/-- Where full names are distinct, the title with a full name is the one that is found. -/
theorem find?_full_eq_some {titles : List Title} (hdistinct : (titles.map Title.full).Nodup) {full : String}
    {t : Title} :
    titles.find? (·.full == full) = some t ↔ t ∈ titles ∧ t.full = full := by
  constructor
  · intro h
    exact ⟨List.mem_of_find?_eq_some h, by simpa using List.find?_some h⟩
  · rintro ⟨hmem, rfl⟩
    cases hfound : titles.find? (·.full == t.full) with
    | none => simpa using List.find?_eq_none.mp hfound t hmem
    | some t' =>
        have hsame : t'.full = t.full := by simpa using List.find?_some hfound
        rw [List.inj_on_of_nodup_map hdistinct (List.mem_of_find?_eq_some hfound) hmem hsame]

/-- Where full names are distinct, the order of the titles does not matter. -/
theorem lookupTitle_perm {l₁ l₂ : List Title} (hperm : l₁.Perm l₂) (hdistinct : (l₁.map Title.full).Nodup)
    (root place name : String) : lookupTitle l₁ root place name = lookupTitle l₂ root place name := by
  have hdistinct' : (l₂.map Title.full).Nodup := (hperm.map _).nodup_iff.mp hdistinct
  have hfind : ∀ full, l₁.find? (·.full == full) = l₂.find? (·.full == full) := by
    intro full
    refine Option.ext fun t => ?_
    rw [find?_full_eq_some hdistinct, find?_full_eq_some hdistinct', hperm.mem_iff]
  simp only [lookupTitle, hfind, theOnly_perm (hperm.filter (·.name == name)) name]

end Titles

/-! ### Agreement -/

/-- Two computations fail alike, or give results that are related. -/
inductive Agree {α β : Type} (R : α → β → Prop) : Except Failure α → Except Failure β → Prop
  | ok {a : α} {b : β} (h : R a b) : Agree R (.ok a) (.ok b)
  | error (failure : Failure) : Agree R (.error failure) (.error failure)

namespace Agree

variable {α β γ δ : Type} {R : α → β → Prop} {S : γ → δ → Prop} {x : Except Failure α} {y : Except Failure β}

theorem same (x : Except Failure α) : Agree Eq x x := by
  cases x with
  | ok a => exact .ok rfl
  | error failure => exact .error failure

theorem mono {R' : α → β → Prop} (h : Agree R x y) (hR : ∀ a b, R a b → R' a b) : Agree R' x y := by
  cases h with
  | ok h => exact .ok (hR _ _ h)
  | error failure => exact .error failure

/-- Results with the same image are related by that. -/
theorem of_map_eq {f : α → γ} {g : β → γ} (h : x.map f = y.map g) :
    Agree (fun a b => x = .ok a ∧ y = .ok b ∧ f a = g b) x y := by
  cases x with
  | ok a =>
      cases y with
      | ok b => exact .ok ⟨rfl, rfl, Except.ok.inj h⟩
      | error failure => cases h
  | error failure =>
      cases y with
      | ok b => cases h
      | error failure' =>
          obtain rfl : failure = failure' := Except.error.inj h
          exact .error failure

/-- Computations that agree go on agreeing if what follows does. -/
theorem bind {f : α → Except Failure γ} {g : β → Except Failure δ} (h : Agree R x y)
    (hf : ∀ a b, R a b → Agree S (f a) (g b)) : Agree S (x >>= f) (y >>= g) := by
  cases h with
  | ok h => exact hf _ _ h
  | error failure => exact .error failure

/-- A context in front of failures does not matter. -/
theorem inContext (context : String) (h : Agree R x y) :
    Agree R (ClientForge.inContext context x) (ClientForge.inContext context y) := by
  cases h with
  | ok h => exact .ok h
  | error failure => exact .error _

/-- Lists whose elements agree one by one are read in agreement. -/
theorem mapM {f : α → Except Failure γ} {g : β → Except Failure δ} {as : List α} {bs : List β}
    (h : List.Forall₂ R as bs) (hf : ∀ a b, R a b → Agree S (f a) (g b)) :
    Agree (List.Forall₂ S) (as.mapM f) (bs.mapM g) := by
  induction h with
  | nil => exact .ok .nil
  | cons hfirst _ ih =>
      rw [List.mapM_cons, List.mapM_cons]
      exact (hf _ _ hfirst).bind fun _ _ hc => ih.bind fun _ _ hcs => .ok (.cons hc hcs)

/-- The same for one list that is read in two ways. -/
theorem mapM_same {f : α → Except Failure γ} {g : α → Except Failure δ} (hf : ∀ a, Agree S (f a) (g a))
    (as : List α) : Agree (List.Forall₂ S) (as.mapM f) (as.mapM g) :=
  mapM (List.forall₂_same.mpr fun a _ => (rfl : a = a)) fun a _ hab => hab ▸ hf a

/-- The same for what may be left out. -/
theorem option {f : α → Except Failure γ} {g : α → Except Failure δ} (hf : ∀ a, Agree S (f a) (g a))
    (a : Option α) : Agree (fun c d => List.Forall₂ S c.toList d.toList) (a.mapM f) (a.mapM g) := by
  cases a with
  | none => exact .ok .nil
  | some a => exact (hf a).bind fun _ _ hc => .ok (.cons hc .nil)

theorem exists_ok (h : Agree R x y) {a : α} (ha : x = .ok a) : ∃ b, y = .ok b ∧ R a b := by
  cases h with
  | ok h =>
      cases ha
      exact ⟨_, rfl, h⟩
  | error failure => cases ha

end Agree

/-! ### Types -/

section Types

variable (names₁ names₂ : Names)

/-- Two declarations have the same title. -/
structure SameDeclaration (x₁ x₂ : Declaration) : Prop where
  left : x₁ ∈ names₁.declared
  right : x₂ ∈ names₂.declared
  title : x₁.title = x₂.title

/-- Two references have the same name, and they lead to declarations of the same title or to none. -/
structure SameRef (r₁ r₂ : TypeRef) : Prop where
  name : r₁.name = r₂.name
  definition : Option.Rel
    (fun id₁ id₂ => ∃ x₁ x₂, SameDeclaration names₁ names₂ x₁ x₂ ∧ x₁.definition = id₁ ∧ x₂.definition = id₂)
    r₁.definition r₂.definition

/-- Names mean the same at two places. -/
def SameScope (place₁ place₂ : NamespaceRef) : Prop :=
  ∀ name, Agree (Option.Rel (SameDeclaration names₁ names₂)) (names₁.lookup name place₁) (names₂.lookup name place₂)

variable {names₁ names₂} {place₁ place₂ : NamespaceRef}

/-- Where declarations have the same titles, in any order, names mean the same at places of one name. -/
theorem sameScope_of_perm (hroot : names₁.root.name = names₂.root.name)
    (hperm : (names₁.declared.map Declaration.title).Perm (names₂.declared.map Declaration.title))
    (hdistinct : ((names₁.declared.map Declaration.title).map Title.full).Nodup)
    (hplace : place₁.name = place₂.name)
    (hplace₁ : place₁.id = names₁.root.id → place₁.name = names₁.root.name)
    (hplace₂ : place₂.id = names₂.root.id → place₂.name = names₂.root.name) :
    SameScope names₁ names₂ place₁ place₂ := by
  intro name
  have htitles : (names₁.lookup name place₁).map (Option.map Declaration.title) =
      (names₂.lookup name place₂).map (Option.map Declaration.title) := by
    rw [lookup_title hplace₁, lookup_title hplace₂, lookupTitle_perm hperm hdistinct, hroot, hplace]
  refine (Agree.of_map_eq htitles).mono ?_
  rintro found₁ found₂ ⟨h₁, h₂, hfound⟩
  cases found₁ with
  | none =>
      obtain rfl : found₂ = none := by simpa using hfound.symm
      exact .none
  | some x₁ =>
      obtain ⟨x₂, rfl, htitle⟩ := Option.map_eq_some_iff.mp hfound.symm
      exact .some ⟨mem_of_lookup h₁, mem_of_lookup h₂, htitle.symm⟩

/-- A name that is read in the same scope refers to the same element. -/
theorem agree_ref (hscope : SameScope names₁ names₂ place₁ place₂) (t : TypeEntry) :
    Agree (SameRef names₁ names₂) (names₁.ref place₁ t) (names₂.ref place₂ t) := by
  simp only [Names.ref]
  split
  · exact .error _
  split
  · exact .error _
  refine (hscope t.name).bind fun found₁ found₂ hfound => ?_
  split
  · exact .error _
  · cases hfound with
    | none => exact .ok ⟨rfl, .none⟩
    | some hx => exact .ok ⟨congrArg Title.name hx.title, .some ⟨_, _, hx, rfl, rfl⟩⟩

mutual

/-- So do all names in a type. -/
theorem agree_type (hscope : SameScope names₁ names₂ place₁ place₂) : ∀ t : TypeEntry,
    Agree (fun a b => List.Forall₂ (SameRef names₁ names₂) a.refs b.refs) (names₁.type place₁ t) (names₂.type place₂ t)
  | ⟨name, collection, nullable, union, intersection⟩ => by
      rw [Names.type, Names.type]
      split
      · exact (agree_types hscope union).bind fun _ _ h => .ok h
      · split
        · exact (agree_types hscope intersection).bind fun _ _ h => .ok h
        · exact (agree_ref hscope _).bind fun _ _ h => .ok (.cons h .nil)

/-- So do all names in the types that another one is composed of. -/
theorem agree_types (hscope : SameScope names₁ names₂ place₁ place₂) : ∀ ts : List TypeEntry,
    Agree (fun as bs => List.Forall₂ (SameRef names₁ names₂) (TypeExpr.refsOf as) (TypeExpr.refsOf bs))
      (names₁.types place₁ ts) (names₂.types place₂ ts)
  | [] => .ok .nil
  | t :: ts => by
      rw [Names.types, Names.types]
      exact (agree_type hscope t).bind fun _ _ hfirst => (agree_types hscope ts).bind fun _ _ hrest =>
        .ok (List.rel_append hfirst hrest)

end

end Types

/-! ### Members -/

section Members

variable (names₁ names₂ : Names)

/-- Two members have the same key, and their references are the same one by one. -/
structure Alike {α κ : Type} (key : α → κ) (refs : α → List TypeRef) (a b : α) : Prop where
  key : key a = key b
  refs : List.Forall₂ (SameRef names₁ names₂) (refs a) (refs b)

/-- What links look for in a method. -/
def methodKey (m : Method) : String × MethodKind := (m.name, m.kind)

variable {names₁ names₂} {place₁ place₂ : NamespaceRef}

/-- Members that are alike one by one are alike as a list. -/
theorem Alike.list {α κ : Type} {key : α → κ} {refs : α → List TypeRef} {as bs : List α}
    (h : List.Forall₂ (Alike names₁ names₂ key refs) as bs) :
    Alike names₁ names₂ (List.map key) (List.flatMap refs) as bs := by
  induction h with
  | nil => exact ⟨rfl, .nil⟩
  | cons hfirst _ ih =>
      exact ⟨by rw [List.map_cons, List.map_cons, hfirst.key, ih.key], List.rel_append hfirst.refs ih.refs⟩

section Scope

variable (hscope : SameScope names₁ names₂ place₁ place₂)
include hscope

/-- A property is read alike in the same scope, in whichever class. -/
theorem agree_property (owner₁ owner₂ : ClassId) (e : PropertyEntry) :
    Agree (Alike names₁ names₂ Property.name Property.typeRefs) (property names₁ place₁ owner₁ e)
      (property names₂ place₂ owner₂ e) := by
  refine .inContext _ ((Agree.same _).bind ?_)
  rintro kind _ rfl
  refine (Agree.same _).bind ?_
  rintro access _ rfl
  exact (agree_type hscope e.type).bind fun _ _ h => .ok ⟨rfl, by simpa [Property.typeRefs] using h⟩

/-- So is an indexer. -/
theorem agree_indexer (id₁ id₂ : IndexerId) (e : IndexerEntry) :
    Agree (Alike names₁ names₂ Indexer.name Indexer.typeRefs) (indexer names₁ place₁ id₁ e)
      (indexer names₂ place₂ id₂ e) :=
  .inContext _ <| (agree_ref hscope e.indexType).bind fun _ _ hindex =>
    (agree_ref hscope e.returnType).bind fun _ _ hreturn => .ok ⟨rfl, .cons hindex (.cons hreturn .nil)⟩

/-- So is a parameter. -/
theorem agree_parameter (id₁ id₂ : ParameterId) (e : ParameterEntry) :
    Agree (Alike names₁ names₂ Parameter.name (·.type.refs)) (parameter names₁ place₁ id₁ e)
      (parameter names₂ place₂ id₂ e) := by
  refine .inContext _ ((Agree.same _).bind ?_)
  rintro kind _ rfl
  exact (agree_type hscope e.type).bind fun _ _ h => .ok ⟨rfl, h⟩

/-- So is the class of an error. -/
theorem agree_errorMapping (e : ErrorMappingEntry) :
    Agree (Alike names₁ names₂ ErrorMapping.code ([·.type])) (errorMapping names₁ place₁ e)
      (errorMapping names₂ place₂ e) :=
  .inContext _ <| (agree_ref hscope e.type).bind fun _ _ h => .ok ⟨rfl, .cons h .nil⟩

/-- So is a method before its links are found. -/
theorem agree_unlinkedMethod (id₁ id₂ : MethodId) (e : MethodEntry) :
    Agree (Alike names₁ names₂ methodKey Method.typeRefs) (unlinkedMethod names₁ place₁ id₁ e)
      (unlinkedMethod names₂ place₂ id₂ e) := by
  refine .inContext _ ((Agree.same _).bind ?_)
  rintro kind _ rfl
  refine (Agree.same _).bind ?_
  rintro access _ rfl
  refine (Agree.inContext _ (.option (agree_type hscope) e.returnType)).bind fun _ _ hreturn => ?_
  refine (Agree.mapM_same (agree_errorMapping hscope) e.errorMappings).bind fun _ _ herrors => ?_
  have hparameter : ∀ p : ParameterEntry × Nat, Agree (Alike names₁ names₂ Parameter.name (·.type.refs))
      (parameter names₁ place₁ ⟨id₁, p.2⟩ p.1) (parameter names₂ place₂ ⟨id₂, p.2⟩ p.1) :=
    fun p => agree_parameter hscope _ _ p.1
  refine (Agree.mapM_same hparameter e.parameters.zipIdx).bind fun _ _ hparameters => .ok ⟨rfl, ?_⟩
  simp only [Method.typeRefs, List.map_eq_flatMap]
  exact List.rel_append (List.rel_append (List.rel_flatMap hreturn fun _ _ h => h) (Alike.list hparameters).refs)
    (Alike.list herrors).refs

/-- So is a discriminator. -/
theorem agree_discriminator (e : Option DiscriminatorEntry) :
    Agree (fun d₁ d₂ => List.Forall₂ (SameRef names₁ names₂) (d₁.mappings.flatMap (·.type.toList))
        (d₂.mappings.flatMap (·.type.toList)))
      (discriminator names₁ place₁ e) (discriminator names₂ place₂ e) := by
  cases e with
  | none => exact .ok .nil
  | some e =>
      have hmapping : ∀ m, Agree (Alike names₁ names₂ DiscriminatorMapping.key (·.type.toList))
          (discriminatorMapping names₁ place₁ m) (discriminatorMapping names₂ place₂ m) := fun m =>
        .inContext _ <| (agree_ref hscope m.type).bind fun _ _ h => .ok ⟨rfl, .cons h .nil⟩
      exact (Agree.mapM_same hmapping e.mappings).bind fun _ _ h => .ok (Alike.list h).refs

end Scope

/-! ### Links -/

/-- A search that looks at keys only can be done on the keys. -/
theorem lastIdx?_map {α κ : Type} (key : α → κ) (p : κ → Bool) (xs : List α) :
    lastIdx? p (xs.map key) = lastIdx? (fun x => p (key x)) xs := by
  simp only [lastIdx?, List.zipIdx_map, ← List.map_reverse, List.find?_map, Option.map_map]
  rfl

/-- Related lists stay related next to a third. -/
theorem forall₂_zip {α β γ : Type} {R : α → β → Prop} {as : List α} {bs : List β} (h : List.Forall₂ R as bs)
    (cs : List γ) : List.Forall₂ (fun x y => R x.1 y.1 ∧ x.2 = y.2) (as.zip cs) (bs.zip cs) := by
  induction h generalizing cs with
  | nil => exact .nil
  | cons hfirst _ ih =>
      cases cs with
      | nil => exact .nil
      | cons c cs => exact .cons ⟨hfirst, rfl⟩ (ih cs)

/-- Two classes have members of the same keys, in the same order. -/
structure SameKeys (c₁ c₂ : ClassDef) : Prop where
  methods : c₁.methods.map methodKey = c₂.methods.map methodKey
  indexers : c₁.indexers.map Indexer.name = c₂.indexers.map Indexer.name
  properties : c₁.properties.map Property.name = c₂.properties.map Property.name

/-- Links are made alike in classes with the same keys. -/
theorem agree_link {c₁ c₂ : ClassDef} (hkeys : SameKeys c₁ c₂) {m₁ m₂ : Method}
    (hm : Alike names₁ names₂ methodKey Method.typeRefs m₁ m₂) (e : MethodEntry) :
    Agree (Alike names₁ names₂ methodKey Method.typeRefs) (link c₁ m₁ e) (link c₂ m₂ e) := by
  have hmethod : ∀ c : ClassDef, (c.methods.findIdx? fun o => o.name == e.representedMethod && !o.isCommandBuilder) =
      (c.methods.map methodKey).findIdx? fun k => k.1 == e.representedMethod && !(k.2 == .commandBuilder) := by
    intro c
    rw [List.findIdx?_map]
    rfl
  have hindexer := lastIdx?_map Indexer.name (· == e.representedIndexer)
  have hproperty := lastIdx?_map Property.name (· == e.accessedProperty)
  rw [link, link, hmethod c₁, hmethod c₂, ← hindexer c₁.indexers, ← hindexer c₂.indexers, ← hproperty c₁.properties,
    ← hproperty c₂.properties, hkeys.methods, hkeys.indexers, hkeys.properties]
  refine .inContext _ ((Agree.same _).bind ?_)
  rintro method _ rfl
  refine (Agree.same _).bind ?_
  rintro indexer _ rfl
  refine (Agree.same _).bind ?_
  rintro property _ rfl
  exact .ok ⟨hm.key, hm.refs⟩

/-! ### Classes -/

/-- An entry is read alike at places where names mean the same. -/
theorem agree_classOf (hscope : SameScope names₁ names₂ place₁ place₂) (hplace : place₁.name = place₂.name)
    (id₁ id₂ : ClassId) (e : ClassEntry) :
    Agree (fun c₁ c₂ => List.Forall₂ (SameRef names₁ names₂) c₁.typeRefs c₂.typeRefs)
      (classOf names₁ place₁ id₁ e) (classOf names₂ place₂ id₂ e) := by
  have hname : qualified (some place₁) e.name = qualified (some place₂) e.name := by
    rw [qualified, qualified, hplace]
  have hindexer : ∀ x : IndexerEntry × Nat, Agree (Alike names₁ names₂ Indexer.name Indexer.typeRefs)
      (indexer names₁ place₁ ⟨id₁, x.2⟩ x.1) (indexer names₂ place₂ ⟨id₂, x.2⟩ x.1) :=
    fun x => agree_indexer hscope _ _ x.1
  have hmethod : ∀ m : MethodEntry × Nat, Agree (Alike names₁ names₂ methodKey Method.typeRefs)
      (unlinkedMethod names₁ place₁ ⟨id₁, m.2⟩ m.1) (unlinkedMethod names₂ place₂ ⟨id₂, m.2⟩ m.1) :=
    fun m => agree_unlinkedMethod hscope _ _ m.1
  rw [classOf, classOf, hname]
  refine .inContext _ ((Agree.same _).bind ?_)
  rintro kind _ rfl
  refine (Agree.inContext _ (.option (agree_ref hscope) e.inherits)).bind fun _ _ hinherits => ?_
  refine (Agree.inContext _ (.mapM_same (agree_ref hscope) e.implements)).bind fun _ _ himplements => ?_
  refine (agree_discriminator hscope e.discriminator).bind fun _ _ hdiscriminator => ?_
  refine (Agree.mapM_same (agree_property hscope id₁ id₂) e.properties).bind fun _ _ hproperties => ?_
  refine (Agree.mapM_same hindexer e.indexers.zipIdx).bind fun _ _ hindexers => ?_
  refine (Agree.mapM_same hmethod e.methods.zipIdx).bind fun _ _ hunlinked => ?_
  have hzip := forall₂_zip hunlinked e.methods
  refine (Agree.mapM (S := Alike names₁ names₂ methodKey Method.typeRefs) hzip ?_).bind fun _ _ hmethods => .ok ?_
  · rintro ⟨m₁, entry⟩ ⟨m₂, _⟩ ⟨hm, rfl⟩
    exact agree_link ⟨(Alike.list hunlinked).key, (Alike.list hindexers).key, (Alike.list hproperties).key⟩ hm entry
  · exact List.rel_append (List.rel_append (List.rel_append (List.rel_append (List.rel_append hinherits himplements)
      hdiscriminator) (Alike.list hproperties).refs) (Alike.list hindexers).refs) (Alike.list hmethods).refs

end Members

end ClientForge.Document
