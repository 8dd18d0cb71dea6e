import ClientForge.Proofs.Document.Homes
import Mathlib.Data.List.Perm.Basic

/-!
# Elements of a document

The classes and enums of a document, each with the full name of the namespace that it stands in, can be listed without
decoding it (`NamespaceEntry.elements`). Another order of the lists of a document is another order of its elements
(`elements_perm`), and declaring goes through the elements one by one (`hears_declare`): what it remembers of each is
its title, and for a class its entry.
-/

namespace ClientForge.Document

open ClientForge.Graph

/-! ### Comparing

Entries nest in lists of themselves, so whether two are equal is decided along with the lists. -/

mutual

def TypeEntry.decEq : (a b : TypeEntry) → Decidable (a = b)
  | ⟨name, collection, nullable, union, intersection⟩, ⟨name', collection', nullable', union', intersection'⟩ =>
    have := TypeEntry.decEqs union union'
    have := TypeEntry.decEqs intersection intersection'
    decidable_of_iff (name = name' ∧ collection = collection' ∧ nullable = nullable' ∧ union = union' ∧
      intersection = intersection') (by simp)

def TypeEntry.decEqs : (as bs : List TypeEntry) → Decidable (as = bs)
  | [], [] => .isTrue rfl
  | [], _ :: _ => .isFalse nofun
  | _ :: _, [] => .isFalse nofun
  | a :: as, b :: bs =>
    have := TypeEntry.decEq a b
    have := TypeEntry.decEqs as bs
    decidable_of_iff (a = b ∧ as = bs) (by simp)

end

instance : DecidableEq TypeEntry := TypeEntry.decEq

deriving instance DecidableEq for MappingEntry, DiscriminatorEntry, PropertyEntry, ParameterEntry, IndexerEntry,
  ErrorMappingEntry, MethodEntry, ClassEntry

mutual

def NamespaceEntry.decEq : (a b : NamespaceEntry) → Decidable (a = b)
  | ⟨name, enums, classes, namespaces⟩, ⟨name', enums', classes', namespaces'⟩ =>
    have := NamespaceEntry.decEqs namespaces namespaces'
    decidable_of_iff (name = name' ∧ enums = enums' ∧ classes = classes' ∧ namespaces = namespaces') (by simp)

def NamespaceEntry.decEqs : (as bs : List NamespaceEntry) → Decidable (as = bs)
  | [], [] => .isTrue rfl
  | [], _ :: _ => .isFalse nofun
  | _ :: _, [] => .isFalse nofun
  | a :: as, b :: bs =>
    have := NamespaceEntry.decEq a b
    have := NamespaceEntry.decEqs as bs
    decidable_of_iff (a = b ∧ as = bs) (by simp)

end

instance : DecidableEq NamespaceEntry := NamespaceEntry.decEq

deriving instance DecidableEq for Outcome

/-! ### Listing -/

/-- An element by the name of its namespace and its own. -/
structure Title where
  space : String
  name : String
deriving DecidableEq, Repr

/-- The qualified name that a title stands for. -/
def Title.full (t : Title) : String := t.space ++ "." ++ t.name

def Declaration.title (x : Declaration) : Title := ⟨x.home.name, x.name⟩

inductive ElementEntry where
  | ofEnum (e : EnumEntry)
  | ofClass (e : ClassEntry)

/-- A class or enum of a document, with the name of the namespace that it stands in. -/
structure Element where
  space : String
  entry : ElementEntry

namespace Element

def title : Element → Title
  | ⟨space, .ofEnum e⟩ => ⟨space, e.name⟩
  | ⟨space, .ofClass e⟩ => ⟨space, e.name⟩

theorem space_title (x : Element) : x.title.space = x.space := by
  rcases x with ⟨space, e | e⟩ <;> rfl

def class? : Element → Option (String × ClassEntry)
  | ⟨_, .ofEnum _⟩ => none
  | ⟨space, .ofClass e⟩ => some (space, e)

end Element

namespace NamespaceEntry

mutual

/-- The elements of an entry that describes the namespace with a name. -/
def elements (space : String) : NamespaceEntry → List Element
  | ⟨_, enums, classes, namespaces⟩ =>
    enums.map (⟨space, .ofEnum ·⟩) ++ classes.map (⟨space, .ofClass ·⟩) ++ elementsOf space namespaces

def elementsOf (space : String) : List NamespaceEntry → List Element
  | [] => []
  | entry :: entries => entry.elements (childName space entry.name) ++ elementsOf space entries

end

/-- The qualified names of all classes and enums of a document. -/
def fullNames (entry : NamespaceEntry) : List String := (entry.elements entry.name).map (·.title.full)

/-- The elements of an entry are its own, and those of the entries inside it under their names. -/
theorem elements_eq (space : String) (e : NamespaceEntry) :
    e.elements space = e.enums.map (⟨space, .ofEnum ·⟩) ++ e.classes.map (⟨space, .ofClass ·⟩) ++
      e.namespaces.flatMap fun child => child.elements (childName space child.name) := by
  have hchildren : ∀ entries, elementsOf space entries =
      entries.flatMap fun child => child.elements (childName space child.name) := by
    intro entries
    induction entries with
    | nil => rfl
    | cons entry entries ih => rw [elementsOf, ih, List.flatMap_cons]
  cases e
  rw [elements, hchildren]

mutual

/-- Below a namespace with a name all namespaces have one. -/
theorem space_ne_empty : ∀ (e : NamespaceEntry) (space : String), space ≠ "" →
    ∀ x ∈ e.elements space, x.space ≠ ""
  | ⟨_, enums, classes, namespaces⟩, space, hspace, x, hx => by
      rw [elements, List.mem_append, List.mem_append] at hx
      rcases hx with (hx | hx) | hx
      · obtain ⟨_, _, rfl⟩ := List.mem_map.mp hx
        exact hspace
      · obtain ⟨_, _, rfl⟩ := List.mem_map.mp hx
        exact hspace
      · exact space_ne_empty_of namespaces space hspace x hx

/-- Below a namespace with a name, elements have a namespace with a name. -/
theorem space_ne_empty_of : ∀ (es : List NamespaceEntry) (space : String), space ≠ "" →
    ∀ x ∈ elementsOf space es, x.space ≠ ""
  | [], _, _, _, hx => by cases hx
  | e :: es, space, hspace, x, hx => by
      rcases List.mem_append.mp hx with hx | hx
      · exact space_ne_empty e _ (by simp [childName, hspace]) x hx
      · exact space_ne_empty_of es space hspace x hx

end

end NamespaceEntry

/-! ### Reordering -/

/-- One document is another with lists of namespaces, classes and enums in another order, at any level. -/
inductive Reordered : NamespaceEntry → NamespaceEntry → Prop
  | lists {e : NamespaceEntry} {enums : List EnumEntry} {classes : List ClassEntry}
      {namespaces : List NamespaceEntry} (henums : e.enums.Perm enums) (hclasses : e.classes.Perm classes)
      (hnamespaces : e.namespaces.Perm namespaces) : Reordered e { e with enums, classes, namespaces }
  | within {e child child' : NamespaceEntry} {before after : List NamespaceEntry}
      (hchild : e.namespaces = before ++ child :: after) (h : Reordered child child') :
      Reordered e { e with namespaces := before ++ child' :: after }
  | trans {a b c : NamespaceEntry} (h : Reordered a b) (h' : Reordered b c) : Reordered a c

theorem Reordered.name_eq {a b : NamespaceEntry} (h : Reordered a b) : a.name = b.name := by
  induction h with
  | lists => rfl
  | within => rfl
  | trans _ _ ih ih' => exact ih.trans ih'

theorem elements_perm {a b : NamespaceEntry} (h : Reordered a b) (space : String) :
    (a.elements space).Perm (b.elements space) := by
  induction h generalizing space with
  | lists henums hclasses hnamespaces =>
      rw [NamespaceEntry.elements_eq, NamespaceEntry.elements_eq]
      exact ((henums.map _).append (hclasses.map _)).append (hnamespaces.flatMap_right _)
  | within hchild h ih =>
      rw [NamespaceEntry.elements_eq, NamespaceEntry.elements_eq]
      simp only [hchild, List.flatMap_append, List.flatMap_cons, ← h.name_eq]
      exact .append_left _ (.append_left _ ((ih _).append_right _))
  | trans _ _ ih ih' => exact (ih space).trans (ih' space)

/-! ### Declaring -/

section Declaring

variable {d d₁ d₂ : Declared} {xs ys : List Element}

/-- The titles of all declarations, in order. -/
def Declared.titles (d : Declared) : List Title := d.all.reverse.map Declaration.title

/-- The classes by the names of their namespaces, in order. -/
def Declared.placed (d : Declared) : List (String × ClassEntry) := d.classes.toList.map fun c => (c.place.name, c.entry)

/-- The home and the name of an element of the tables. -/
def Declared.entitled (d : Declared) : DefinitionId → Option (NamespaceRef × String)
  | .ofClass id => d.classes[id.index]?.map fun c => (c.place, c.entry.name)
  | .ofEnum id => d.enums[id.index]?.bind fun e => e.home.map (·, e.name)

/-- Declarations have the homes and names of the elements in the tables. -/
def Declared.Entitled (d : Declared) : Prop := ∀ x ∈ d.all, d.entitled x.definition = some (x.home, x.name)

/-- Elements have been declared, one after another. -/
structure Hears (d : Declared) (xs : List Element) (d' : Declared) : Prop where
  titles : d'.titles = d.titles ++ xs.map Element.title
  placed : d'.placed = d.placed ++ xs.filterMap Element.class?
  entitled : d.Entitled → d'.Entitled

theorem Hears.refl (d : Declared) : Hears d [] d := ⟨by simp, by simp, id⟩

theorem Hears.trans (h : Hears d xs d₁) (h' : Hears d₁ ys d₂) : Hears d (xs ++ ys) d₂ where
  titles := by rw [h'.titles, h.titles, List.map_append, List.append_assoc]
  placed := by rw [h'.placed, h.placed, List.filterMap_append, List.append_assoc]
  entitled hd := h'.entitled (h.entitled hd)

/-- One more declaration keeps titles true, as long as no element loses its own. -/
theorem entitled_cons {x : Declaration} (hall : d₁.all = x :: d.all)
    (hnew : d₁.entitled x.definition = some (x.home, x.name))
    (hkept : ∀ id found, d.entitled id = some found → d₁.entitled id = some found) (hd : d.Entitled) : d₁.Entitled := by
  intro y hy
  rw [hall] at hy
  rcases List.mem_cons.mp hy with rfl | hy
  · exact hnew
  · exact hkept _ _ (hd y hy)

/-- Declaring an enum adds this one element. -/
theorem hears_declareEnum (place : NamespaceRef) (e : EnumEntry) (d : Declared) :
    Hears d [⟨place.name, .ofEnum e⟩] ((declareEnum place e).run d).2 where
  titles := by
    change ((_ :: d.all).reverse).map Declaration.title = _
    simp [Declared.titles, Declaration.title, Element.title]
  placed := by
    change d.placed = _
    simp [Element.class?]
  entitled := by
    refine entitled_cons rfl ?_ fun id found hfound => ?_
    · change (d.enums.push _)[d.enums.size]?.bind _ = _
      simp
    · cases id with
      | ofClass id => exact hfound
      | ofEnum id =>
          obtain ⟨x, hx, hfound⟩ := Option.bind_eq_some_iff.mp hfound
          obtain ⟨hi, hx⟩ := Array.getElem?_eq_some_iff.mp hx
          change (d.enums.push _)[id.index]?.bind _ = _
          rw [Array.getElem?_push_lt hi, hx]
          exact hfound

/-- Declaring a class adds this one element. -/
theorem hears_declareClass (place : NamespaceRef) (e : ClassEntry) (d : Declared) :
    Hears d [⟨place.name, .ofClass e⟩] ((declareClass place e).run d).2 where
  titles := by
    change ((_ :: d.all).reverse).map Declaration.title = _
    simp [Declared.titles, Declaration.title, Element.title]
  placed := by
    change (d.classes.push _).toList.map _ = _
    simp [Declared.placed, Element.class?]
  entitled := by
    refine entitled_cons rfl ?_ fun id found hfound => ?_
    · change (d.classes.push _)[d.classes.size]?.map _ = _
      simp
    · cases id with
      | ofEnum id => exact hfound
      | ofClass id =>
          obtain ⟨x, hx, hfound⟩ := Option.map_eq_some_iff.mp hfound
          obtain ⟨hi, hx⟩ := Array.getElem?_eq_some_iff.mp hx
          change (d.classes.push _)[id.index]?.map _ = _
          rw [Array.getElem?_push_lt hi, hx, ← hfound]
          rfl

/-- A new namespace adds no element. -/
theorem hears_newNamespace (parent : NamespaceId) (name : String) (d : Declared) :
    Hears d [] ((newNamespace parent name).run d).2 where
  titles := (List.append_nil d.titles).symm
  placed := (List.append_nil d.placed).symm
  entitled := id

/-- Declarations in a row add their elements in order. -/
theorem hears_mapM {α β : Type} {f : α → Declare β} {element : α → Element}
    (hf : ∀ a d, Hears d [element a] ((f a).run d).2) (as : List α) (d : Declared) :
    Hears d (as.map element) ((as.mapM f).run d).2 := by
  induction as generalizing d with
  | nil => exact .refl d
  | cons a as ih =>
      rw [List.mapM_cons]
      exact (hf a d).trans (ih ((f a).run d).2)

mutual

/-- Declaring an entry in the namespace of its elements declares these, in order. -/
theorem hears_declare : ∀ (entry : NamespaceEntry) (ns : Namespace) (d : Declared) (space : String),
    ns.name = space → Hears d (entry.elements space) ((declare entry ns).run d).2
  | ⟨_, enums, classes, namespaces⟩, ns, d, _, rfl =>
      ((hears_mapM (hears_declareEnum ns.ref) enums d).trans
        (hears_mapM (hears_declareClass ns.ref) classes _)).trans (hears_declareChildren namespaces _ _ _ rfl)

/-- The entries inside a namespace add their elements in the order of the document. -/
theorem hears_declareChildren : ∀ (entries : List NamespaceEntry) (ns : Namespace) (d : Declared) (space : String),
    ns.name = space → Hears d (NamespaceEntry.elementsOf space entries) ((declareChildren entries ns).run d).2
  | [], _, d, _, _ => .refl d
  | entry :: entries, ns, d, _, rfl => by
      obtain ⟨before, child, after, d₀, hopens, hrun⟩ := run_declareChildren_cons entry entries ns d
      have hopened : Hears d [] d₀ := by
        cases hopens with
        | found _ _ => exact .refl d
        | new _ => exact hears_newNamespace _ _ d
      rw [hrun]
      exact (hopened.trans (hears_declare entry child d₀ _ hopens.name_eq)).trans
        (hears_declareChildren entries _ _ _ rfl)

end

end Declaring

end ClientForge.Document
