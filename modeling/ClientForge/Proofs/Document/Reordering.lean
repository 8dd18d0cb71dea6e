import ClientForge.Proofs.Document.Resolution

/-!
# Documents in another order

The graph of a document can be described by the elements of the document, whatever their order: its classes are read
from the entries of classes one by one (`reads_of_graphOf`), and what a declaration stands for has its title for a
qualified name (`definition?_declared`).

* `exists_graphOf_of_sameElements`: whether there is a graph does not depend on the order of the elements;
* `sameRefs_of_qualifiedName_eq`: neither does what the classes refer to;
* **`names_resolve_in_any_order`.** Both together, for texts.
-/

namespace ClientForge

namespace Graph

/-- What a reference means: an element by its qualified name, or a primitive. -/
inductive Meaning where
  | element (name : String)
  | primitive (name : String)
deriving DecidableEq, Repr

def meaning (g : Graph) (r : TypeRef) : Option Meaning :=
  match r.definition with
  | some id => (g.definition? id).map (.element ·.qualifiedName)
  | none => some (.primitive r.name)

end Graph

namespace Document

open ClientForge.Graph

/-! ### Declared documents -/

/-- What declaring a document leaves behind. -/
def declaredOf (entry : NamespaceEntry) : Declared := ((declare entry { id := ⟨0⟩, name := entry.name }).run {}).2

def namesOf (entry : NamespaceEntry) : Names := ⟨⟨⟨0⟩, entry.name⟩, (declaredOf entry).all⟩

section Declared

variable (entry : NamespaceEntry)

theorem hears_declaredOf : Hears {} (entry.elements entry.name) (declaredOf entry) :=
  hears_declare entry { id := ⟨0⟩, name := entry.name } {} entry.name rfl

theorem titles_namesOf :
    ((namesOf entry).declared.map Declaration.title).Perm ((entry.elements entry.name).map Element.title) := by
  rw [← List.nil_append (List.map Element.title _)]
  refine .trans ?_ (List.Perm.of_eq (hears_declaredOf entry).titles)
  exact (List.reverse_perm _).symm.map _

theorem placed_declaredOf : (declaredOf entry).placed = (entry.elements entry.name).filterMap Element.class? :=
  (hears_declaredOf entry).placed

theorem entitled_declaredOf : (declaredOf entry).Entitled :=
  (hears_declaredOf entry).entitled fun _ hx => by cases hx

/-- A place with the identity of the root has the name of the root. -/
def AtHome (place : NamespaceRef) : Prop :=
  place.id = (namesOf entry).root.id → place.name = (namesOf entry).root.name

theorem atHome_of_mem {c : PlacedClass} (hc : c ∈ (declaredOf entry).classes) : AtHome entry c.place := by
  have hroot : ∀ n ∈ ({ id := ⟨0⟩, name := entry.name } : Namespace).all, n.ref ∈ [⟨⟨0⟩, entry.name⟩] := by
    simp [Namespace.all, Namespace.allOf, Namespace.ref]
  obtain ⟨more, hsettled, -⟩ := extends_declare entry _ _ _ (settled_start entry.name) hroot
  intro hid
  obtain ⟨i, hi⟩ := List.mem_iff_getElem?.mp (hsettled.class_place c hc)
  have hindex : (⟨0⟩ : NamespaceId) = ⟨i⟩ := hid.symm.trans (hsettled.space_id i _ hi)
  cases hindex
  have hplace : ⟨⟨0⟩, entry.name⟩ = c.place := by simpa using hi
  rw [← hplace]
  rfl

end Declared

section Graphs

variable {entry : NamespaceEntry} {g : Graph}

/-- A graph is what is declared for an entry with a name, with all classes read. -/
theorem graphOf_eq_ok_iff_declaredOf :
    graphOf entry = .ok g ↔ Text.isBlankText entry.name = false ∧
      ∃ classes, ((declaredOf entry).classes.toList.zipIdx.mapM fun (c, i) =>
          classOf (namesOf entry) c.place ⟨i⟩ c.entry) = .ok classes ∧
        g = { root := ((declare entry { id := ⟨0⟩, name := entry.name }).run {}).1, classes := classes.toArray,
              enums := (declaredOf entry).enums } := by
  have hroot : ((declare entry { id := ⟨0⟩, name := entry.name }).run {}).1.ref = ⟨⟨0⟩, entry.name⟩ :=
    ref_declare entry _ _
  rw [graphOf_eq_ok_iff, namesOf, ← hroot]
  constructor
  · rintro ⟨hblank, root, declared, hdeclare, classes, hclasses, rfl⟩
    obtain ⟨rfl, rfl⟩ := Prod.mk.inj hdeclare
    exact ⟨hblank, classes, hclasses, rfl⟩
  · rintro ⟨hblank, classes, hclasses, rfl⟩
    exact ⟨hblank, _, _, rfl, classes, hclasses, rfl⟩

/-- All namespaces of a document that is decoded have names. -/
theorem space_ne_empty_of_graphOf (h : graphOf entry = .ok g) {x : Element} (hx : x ∈ entry.elements entry.name) :
    x.space ≠ "" := by
  obtain ⟨hblank, -⟩ := graphOf_eq_ok_iff_declaredOf.mp h
  refine entry.space_ne_empty entry.name ?_ x hx
  intro hempty
  rw [hempty] at hblank
  revert hblank
  decide

/-- Inside a namespace with a name, the full name of an element begins with it. -/
theorem qualified_of_name_ne_empty {place : NamespaceRef} (h : place.name ≠ "") (name : String) :
    qualified (some place) name = place.name ++ "." ++ name := by
  simp [qualified, h]

/-- A class among the elements is one of them. -/
theorem mem_of_mem_class {xs : List Element} {x : String × ClassEntry} (h : x ∈ xs.filterMap Element.class?) :
    (⟨x.1, .ofClass x.2⟩ : Element) ∈ xs := by
  obtain ⟨⟨space, element⟩, hmem, hclass⟩ := List.mem_filterMap.mp h
  cases element with
  | ofEnum e => cases hclass
  | ofClass e =>
      cases hclass
      exact hmem

/-- A class is read from the entry of an element, in a namespace of the document. -/
structure Reads (entry : NamespaceEntry) (x : String × ClassEntry) (c : ClassDef) : Prop where
  read : ∃ place id, place.name = x.1 ∧ AtHome entry place ∧ classOf (namesOf entry) place id x.2 = .ok c
  fullName : c.qualifiedName = x.1 ++ "." ++ x.2.name

/-- The classes of a graph are read from the classes of the document, in order. -/
theorem reads_of_graphOf (h : graphOf entry = .ok g) :
    List.Forall₂ (Reads entry) ((entry.elements entry.name).filterMap Element.class?) g.classes.toList := by
  obtain ⟨-, classes, hclasses, rfl⟩ := graphOf_eq_ok_iff_declaredOf.mp h
  have hplaced : ∀ x ∈ (declaredOf entry).classes.toList.zipIdx, AtHome entry x.1.place ∧ x.1.place.name ≠ "" := by
    intro x hx
    have hc := List.fst_mem_of_mem_zipIdx hx
    have hmem : (x.1.place.name, x.1.entry) ∈ (declaredOf entry).placed := List.mem_map_of_mem hc
    rw [placed_declaredOf] at hmem
    exact ⟨atHome_of_mem entry (Array.mem_def.mpr hc), space_ne_empty_of_graphOf h (mem_of_mem_class hmem)⟩
  have hread := (List.forall₂_and_left _ _).mpr ⟨hplaced, mapM_eq_ok.mp hclasses⟩
  rw [← placed_declaredOf, Declared.placed, List.forall₂_map_left_iff,
    ← List.zipIdx_map_fst 0 (declaredOf entry).classes.toList, List.forall₂_map_left_iff]
  refine hread.imp fun x c hx => ⟨⟨x.1.place, _, rfl, hx.1.1, hx.2⟩, ?_⟩
  have hclass := read_of_classOf hx.2
  rw [ClassDef.qualifiedName, hclass.home, hclass.name, qualified_of_name_ne_empty hx.1.2]

/-- The classes have the titles of their elements for qualified names. -/
theorem qualifiedNames_of_graphOf (h : graphOf entry = .ok g) : g.classes.toList.map ClassDef.qualifiedName =
    ((entry.elements entry.name).filterMap Element.class?).map fun x => x.1 ++ "." ++ x.2.name := by
  rw [← List.forall₂_eq_eq_eq, List.forall₂_map_left_iff, List.forall₂_map_right_iff]
  exact ((reads_of_graphOf h).imp fun x c hread => hread.fullName).flip

/-- What has been declared is in the graph, and its title is its qualified name. -/
theorem definition?_declared (h : graphOf entry = .ok g) {x : Declaration} (hx : x ∈ (namesOf entry).declared) :
    ∃ d, g.definition? x.definition = some d ∧ d.qualifiedName = x.title.full := by
  have hspace : x.home.name ≠ "" := by
    obtain ⟨y, hy, htitle⟩ := List.mem_map.mp ((titles_namesOf entry).mem_iff.mp (List.mem_map_of_mem hx))
    have hne := space_ne_empty_of_graphOf h hy
    rw [← y.space_title, htitle] at hne
    exact hne
  have hentitled := entitled_declaredOf entry x hx
  obtain ⟨-, classes, hclasses, rfl⟩ := graphOf_eq_ok_iff_declaredOf.mp h
  cases hid : x.definition with
  | ofClass id =>
      rw [hid] at hentitled
      obtain ⟨c, hc, htitle⟩ := Option.map_eq_some_iff.mp hentitled
      obtain ⟨hplace, hname⟩ := Prod.mk.inj htitle
      have hindex : (declaredOf entry).classes.toList.zipIdx[id.index]? = some (c, id.index) := by
        simp [List.getElem?_zipIdx, hc]
      obtain ⟨found, hfound, hclass⟩ := exists_getElem?_of_mapM hclasses hindex
      have hread := read_of_classOf hclass
      refine ⟨.ofClass found, by simp [definition?, class?, hfound], ?_⟩
      change qualified found.home found.name = _
      rw [hread.home, hread.name, hplace, hname, qualified_of_name_ne_empty hspace]
      rfl
  | ofEnum id =>
      rw [hid] at hentitled
      obtain ⟨e, he, htitle⟩ := Option.bind_eq_some_iff.mp hentitled
      obtain ⟨home, hhome, htitle⟩ := Option.map_eq_some_iff.mp htitle
      obtain ⟨rfl, hname⟩ := Prod.mk.inj htitle
      refine ⟨.ofEnum e, by simp [definition?, enum?, he], ?_⟩
      change qualified e.home e.name = _
      rw [hhome, hname, qualified_of_name_ne_empty hspace]
      rfl

end Graphs

/-! ### Reordering -/

/-- Two documents have the same name and the same elements, in any order. -/
structure SameElements (entry₁ entry₂ : NamespaceEntry) : Prop where
  name : entry₁.name = entry₂.name
  elements : (entry₁.elements entry₁.name).Perm (entry₂.elements entry₂.name)

theorem Reordered.sameElements {entry₁ entry₂ : NamespaceEntry} (h : Reordered entry₁ entry₂) :
    SameElements entry₁ entry₂ :=
  ⟨h.name_eq, h.name_eq ▸ elements_perm h entry₁.name⟩

section Reordering

variable {entry₁ entry₂ : NamespaceEntry} {g₁ g₂ : Graph}

theorem SameElements.symm (h : SameElements entry₁ entry₂) : SameElements entry₂ entry₁ :=
  ⟨h.name.symm, h.elements.symm⟩

theorem SameElements.nodup (h : SameElements entry₁ entry₂) (hdistinct : entry₁.fullNames.Nodup) :
    entry₂.fullNames.Nodup :=
  (h.elements.map _).nodup_iff.mp hdistinct

/-- Names mean the same in two documents with the same elements. -/
theorem sameScope_of_sameElements (h : SameElements entry₁ entry₂) (hdistinct : entry₁.fullNames.Nodup)
    {place₁ place₂ : NamespaceRef} (hplace : place₁.name = place₂.name) (hplace₁ : AtHome entry₁ place₁)
    (hplace₂ : AtHome entry₂ place₂) : SameScope (namesOf entry₁) (namesOf entry₂) place₁ place₂ := by
  have hperm := (titles_namesOf entry₁).trans ((h.elements.map _).trans (titles_namesOf entry₂).symm)
  refine sameScope_of_perm h.name hperm ?_ hplace hplace₁ hplace₂
  rw [((titles_namesOf entry₁).map _).nodup_iff, List.map_map]
  exact hdistinct

/-- Whether there is a graph does not depend on the order of the elements. -/
theorem exists_graphOf_of_sameElements (h : SameElements entry₁ entry₂) (hdistinct : entry₁.fullNames.Nodup)
    (hg : graphOf entry₁ = .ok g₁) : ∃ g, graphOf entry₂ = .ok g := by
  have hclass : ∀ x ∈ (declaredOf entry₂).classes.toList.zipIdx,
      ∃ c, classOf (namesOf entry₂) x.1.place ⟨x.2⟩ x.1.entry = .ok c := by
    intro x hx
    have hc := List.fst_mem_of_mem_zipIdx hx
    have hmem : (x.1.place.name, x.1.entry) ∈ (declaredOf entry₂).placed := List.mem_map_of_mem hc
    rw [placed_declaredOf, (h.symm.elements.filterMap _).mem_iff] at hmem
    -- The same entry was read in the other document, at a place of the same name.
    obtain ⟨c₁, -, hread⟩ := exists_of_mem_left (reads_of_graphOf hg) hmem
    obtain ⟨place₁, id₁, hplace, hhome, hclass⟩ := hread.read
    have hscope := sameScope_of_sameElements h hdistinct hplace hhome (atHome_of_mem entry₂ (Array.mem_def.mpr hc))
    obtain ⟨c, hc, -⟩ := (agree_classOf hscope hplace id₁ ⟨x.2⟩ x.1.entry).exists_ok hclass
    exact ⟨c, hc⟩
  obtain ⟨classes, hclasses⟩ := exists_mapM_eq_ok hclass
  obtain ⟨hblank, -⟩ := graphOf_eq_ok_iff_declaredOf.mp hg
  exact ⟨_, graphOf_eq_ok_iff_declaredOf.mpr ⟨h.name ▸ hblank, classes, hclasses, rfl⟩⟩

/-- References to declarations of the same title mean the same, and they mean something. -/
theorem meaning_of_sameRef (hg₁ : graphOf entry₁ = .ok g₁) (hg₂ : graphOf entry₂ = .ok g₂) {r₁ r₂ : TypeRef}
    (h : SameRef (namesOf entry₁) (namesOf entry₂) r₁ r₂) : ∃ m, g₁.meaning r₁ = some m ∧ g₂.meaning r₂ = some m := by
  have hdefinition := h.definition
  rw [meaning, meaning]
  generalize r₁.definition = definition₁ at hdefinition ⊢
  generalize r₂.definition = definition₂ at hdefinition ⊢
  cases hdefinition with
  | none => exact ⟨_, rfl, by rw [h.name]⟩
  | some hsame =>
      obtain ⟨x₁, x₂, hx, rfl, rfl⟩ := hsame
      obtain ⟨d₁, hd₁, hname₁⟩ := definition?_declared hg₁ hx.left
      obtain ⟨d₂, hd₂, hname₂⟩ := definition?_declared hg₂ hx.right
      refine ⟨.element x₁.title.full, by simp [hd₁, hname₁], ?_⟩
      simp [hd₂, hname₂, hx.title]

/-- Classes of one qualified name are read from one entry. -/
theorem sameRefs_of_qualifiedName_eq (h : SameElements entry₁ entry₂) (hdistinct : entry₁.fullNames.Nodup)
    (hg₁ : graphOf entry₁ = .ok g₁) (hg₂ : graphOf entry₂ = .ok g₂) {c₁ c₂ : ClassDef} (hc₁ : c₁ ∈ g₁.classes)
    (hc₂ : c₂ ∈ g₂.classes) (hname : c₁.qualifiedName = c₂.qualifiedName) :
    List.Forall₂ (SameRef (namesOf entry₁) (namesOf entry₂)) c₁.typeRefs c₂.typeRefs := by
  obtain ⟨⟨space₁, e₁⟩, hx₁, hread₁⟩ := exists_of_mem_right (reads_of_graphOf hg₁) (Array.mem_def.mp hc₁)
  obtain ⟨⟨space₂, e₂⟩, hx₂, hread₂⟩ := exists_of_mem_right (reads_of_graphOf hg₂) (Array.mem_def.mp hc₂)
  have hmem₁ := mem_of_mem_class hx₁
  have hmem₂ := h.elements.mem_iff.mpr (mem_of_mem_class hx₂)
  have hsame := List.inj_on_of_nodup_map hdistinct hmem₁ hmem₂
    (hread₁.fullName.symm.trans (hname.trans hread₂.fullName))
  cases hsame
  obtain ⟨place₁, id₁, hplace₁, hhome₁, hclass₁⟩ := hread₁.read
  obtain ⟨place₂, id₂, hplace₂, hhome₂, hclass₂⟩ := hread₂.read
  have hplace := hplace₁.trans hplace₂.symm
  have hscope := sameScope_of_sameElements h hdistinct hplace hhome₁ hhome₂
  obtain ⟨c, hc, hrefs⟩ := (agree_classOf hscope hplace id₁ id₂ e₁).exists_ok hclass₁
  obtain rfl : c = c₂ := Except.ok.inj (hc.symm.trans hclass₂)
  exact hrefs

/-- The same references mean the same in both graphs, and all of them mean something. -/
theorem meanings_of_sameRefs (hg₁ : graphOf entry₁ = .ok g₁) (hg₂ : graphOf entry₂ = .ok g₂)
    {refs₁ refs₂ : List TypeRef} (h : List.Forall₂ (SameRef (namesOf entry₁) (namesOf entry₂)) refs₁ refs₂) :
    refs₁.map g₁.meaning = refs₂.map g₂.meaning ∧ ∀ r ∈ refs₁, (g₁.meaning r).isSome := by
  induction h with
  | nil => exact ⟨rfl, List.forall_mem_nil _⟩
  | cons hfirst _ ih =>
      obtain ⟨m, hm₁, hm₂⟩ := meaning_of_sameRef hg₁ hg₂ hfirst
      refine ⟨by rw [List.map_cons, List.map_cons, hm₁, hm₂, ih.1], List.forall_mem_cons.mpr ⟨?_, ih.2⟩⟩
      rw [hm₁, Option.isSome_some]

/-- Two texts describe documents that differ in the order of their lists alone, and no two classes or enums share a
qualified name. Then one can be decoded if the other can. Both graphs have classes of the same qualified names, and the
references of two classes of one name mean the same, one by one: an element by its qualified name, or a primitive. -/
theorem names_resolve_in_any_order {text₁ text₂ : String} (h₁ : Outcome.ofText text₁ = .read entry₁)
    (h₂ : Outcome.ofText text₂ = .read entry₂) (hdistinct : entry₁.fullNames.Nodup)
    (horder : Reordered entry₁ entry₂) :
    ((∃ source, decode text₁ = .ok source) ↔ ∃ source, decode text₂ = .ok source) ∧
    ∀ source₁ source₂, decode text₁ = .ok source₁ → decode text₂ = .ok source₂ →
      (source₁.graph.classes.toList.map ClassDef.qualifiedName).Perm
        (source₂.graph.classes.toList.map ClassDef.qualifiedName) ∧
      ∀ c₁ ∈ source₁.graph.classes, ∀ c₂ ∈ source₂.graph.classes, c₁.qualifiedName = c₂.qualifiedName →
        c₁.typeRefs.map source₁.graph.meaning = c₂.typeRefs.map source₂.graph.meaning ∧
          ∀ r ∈ c₁.typeRefs, (source₁.graph.meaning r).isSome := by
  have hsame := horder.sameElements
  have hgraph {text : String} {entry : NamespaceEntry} {source : Source} (hread : Outcome.ofText text = .read entry)
      (hsource : decode text = .ok source) : graphOf entry = .ok source.graph := by
    obtain ⟨_, hread', hg, -⟩ := decode_eq_ok_iff.mp hsource
    cases hread.symm.trans hread'
    exact hg
  refine ⟨⟨?_, ?_⟩, ?_⟩
  · rintro ⟨source, hsource⟩
    obtain ⟨g', hg'⟩ := exists_graphOf_of_sameElements hsame hdistinct (hgraph h₁ hsource)
    exact ⟨⟨g', _⟩, decode_eq_ok_iff.mpr ⟨entry₂, h₂, hg', rfl⟩⟩
  · rintro ⟨source, hsource⟩
    obtain ⟨g', hg'⟩ := exists_graphOf_of_sameElements hsame.symm (hsame.nodup hdistinct) (hgraph h₂ hsource)
    exact ⟨⟨g', _⟩, decode_eq_ok_iff.mpr ⟨entry₁, h₁, hg', rfl⟩⟩
  · intro source₁ source₂ hsource₁ hsource₂
    have hg₁ := hgraph h₁ hsource₁
    have hg₂ := hgraph h₂ hsource₂
    refine ⟨?_, fun c₁ hc₁ c₂ hc₂ hname => ?_⟩
    · rw [qualifiedNames_of_graphOf hg₁, qualifiedNames_of_graphOf hg₂]
      exact (hsame.elements.filterMap _).map _
    · exact meanings_of_sameRefs hg₁ hg₂ (sameRefs_of_qualifiedName_eq hsame hdistinct hg₁ hg₂ hc₁ hc₂ hname)

end Reordering

namespace HolderText

/-- A class that refers to one of its own namespace, to one of the same name in another, and to a primitive. -/
def holderFirst : String :=
  "name: Sdk\nnamespaces:\n- name: a\n  classes:\n  - name: Holder\n    inherits: Item\n" ++
    "    implements: [b.Item, string]\n  - name: Item\n- name: b\n  classes:\n  - name: Item\n"

/-- The same with the namespaces the other way round, and the classes of the first one too. -/
def holderLast : String :=
  "name: Sdk\nnamespaces:\n- name: b\n  classes:\n  - name: Item\n- name: a\n  classes:\n  - name: Item\n" ++
    "  - name: Holder\n    inherits: Item\n    implements: [b.Item, string]\n"

def item : ClassEntry := { name := "Item" }

def holder : ClassEntry where
  name := "Holder"
  inherits := some { name := "Item" }
  implements := [{ name := "b.Item" }, { name := "string" }]

def entryFirst : NamespaceEntry where
  name := "Sdk"
  namespaces := [{ name := "a", classes := [holder, item] }, { name := "b", classes := [item] }]

def entryLast : NamespaceEntry where
  name := "Sdk"
  namespaces := [{ name := "b", classes := [item] }, { name := "a", classes := [item, holder] }]

theorem reordered : Reordered entryFirst entryLast := by
  have hinner : Reordered entryFirst { entryFirst with
      namespaces := [{ name := "a", classes := [item, holder] }, { name := "b", classes := [item] }] } :=
    @Reordered.within entryFirst _ _ [] _ rfl (.lists .nil (.swap item holder []) .nil)
  exact hinner.trans (.lists .nil .nil (.swap _ _ []))

end HolderText

open HolderText in
/-- A class whose types come before or after it refers to the same ones. -/
theorem holder_resolves_in_any_order :
    Outcome.ofText holderFirst = .read entryFirst ∧ Outcome.ofText holderLast = .read entryLast ∧
    entryFirst.fullNames.Nodup ∧ Reordered entryFirst entryLast ∧
    ∃ source₁ source₂, decode holderFirst = .ok source₁ ∧ decode holderLast = .ok source₂ ∧
      ∃ c₁ ∈ source₁.graph.classes, ∃ c₂ ∈ source₂.graph.classes,
        c₁.qualifiedName = "Sdk.a.Holder" ∧ c₂.qualifiedName = "Sdk.a.Holder" ∧
        c₁.typeRefs.map source₁.graph.meaning = c₂.typeRefs.map source₂.graph.meaning ∧
        c₁.typeRefs.map source₁.graph.meaning =
          [some (.element "Sdk.a.Item"), some (.element "Sdk.b.Item"), some (.primitive "string")] := by
  have hfirst : Outcome.ofText holderFirst = .read entryFirst := by decide +kernel
  have hlast : Outcome.ofText holderLast = .read entryLast := by decide +kernel
  have hdistinct : entryFirst.fullNames.Nodup := by decide
  obtain ⟨hdecodes, hmeaning⟩ := names_resolve_in_any_order hfirst hlast hdistinct reordered
  have hfound : (graphOf entryFirst).toOption.bind (fun g => (g.classes.toList.find?
      (·.qualifiedName == "Sdk.a.Holder")).map (·.typeRefs.map g.meaning)) =
        some [some (.element "Sdk.a.Item"), some (.element "Sdk.b.Item"), some (.primitive "string")] := by
    decide +kernel
  cases hg₁ : graphOf entryFirst with
  | error failure =>
      rw [hg₁] at hfound
      cases hfound
  | ok g₁ =>
      rw [hg₁] at hfound
      obtain ⟨c₁, hc₁, hrefs⟩ := Option.map_eq_some_iff.mp hfound
      have hmem₁ : c₁ ∈ g₁.classes := Array.mem_def.mpr (List.mem_of_find?_eq_some hc₁)
      have hname : c₁.qualifiedName = "Sdk.a.Holder" := by simpa using List.find?_some hc₁
      have hsource₁ : decode holderFirst = .ok ⟨g₁, Text.Digest.sha256 holderFirst⟩ :=
        decode_eq_ok_iff.mpr ⟨entryFirst, hfirst, hg₁, rfl⟩
      obtain ⟨source₂, hsource₂⟩ := hdecodes.mp ⟨_, hsource₁⟩
      obtain ⟨hperm, hsame⟩ := hmeaning _ _ hsource₁ hsource₂
      -- The class is found in the second graph by its name.
      obtain ⟨c₂, hmem₂, hname₂⟩ := List.mem_map.mp (hperm.mem_iff.mp (List.mem_map_of_mem (Array.mem_def.mp hmem₁)))
      have hmem₂ : c₂ ∈ source₂.graph.classes := Array.mem_def.mpr hmem₂
      exact ⟨hfirst, hlast, hdistinct, reordered, _, source₂, hsource₁, hsource₂, c₁, hmem₁, c₂, hmem₂, hname,
        hname₂.trans hname, (hsame c₁ hmem₁ c₂ hmem₂ hname₂.symm).1, hrefs⟩

end Document

end ClientForge
