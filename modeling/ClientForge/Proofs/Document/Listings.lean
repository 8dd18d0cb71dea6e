import ClientForge.Proofs.Document.Homes
import Mathlib.Data.List.Perm.Basic
import Mathlib.Data.List.Range

/-!
# Listings in decoded graphs

Declaring goes through a document namespace by namespace, and merges those that share a name. Whatever it
declares is listed once, by the namespace it is declared in, and stays listed while the tree grows. `Grown` says so
of one step, together with the numbers and parents that new namespaces get; steps compose, and a whole document is
one.

* **`grown_declare`.** What a namespace becomes when an entry is declared in it.
* **`listings_of_declare`.** In the end every declaration is listed at its home, each namespace has a number of
  its own and the parent that lists it, and the tables hold what is declared and nothing else.
* **`listing_of_declare`.** In the end the namespaces list the tables, element by element.
-/

namespace ClientForge

namespace Graph.Namespace

/-- Whether a namespace lists an element. -/
def Lists (n : Namespace) : DefinitionId → Prop
  | .ofClass id => id ∈ n.classes
  | .ofEnum id => id ∈ n.enums

/-- The elements that a namespace lists itself. -/
def own (n : Namespace) : List DefinitionId := n.classes.map .ofClass ++ n.enums.map .ofEnum

/-- The elements that a namespace and those below it list. -/
def listing (ns : Namespace) : List DefinitionId := ns.all.flatMap own

theorem mem_own {n : Namespace} {id : DefinitionId} : id ∈ n.own ↔ n.Lists id := by
  cases id <;> simp [own, Lists]

/-- Whether an element is listed by a namespace with a reference, in a namespace or below it. -/
def ListsAt (ns : Namespace) (place : NamespaceRef) (id : DefinitionId) : Prop :=
  ∃ n ∈ ns.all, n.ref = place ∧ n.Lists id

/-- The numbers of a namespace and those below it. -/
def numbers (ns : Namespace) : List Nat := ns.all.map (·.id.index)

/-- What is listed at a place is listed in the namespace itself or inside one of its children. -/
theorem listsAt_iff {ns : Namespace} {place : NamespaceRef} {id : DefinitionId} :
    ns.ListsAt place id ↔ ns.ref = place ∧ ns.Lists id ∨ ∃ child ∈ ns.children, child.ListsAt place id := by
  constructor
  · rintro ⟨n, hn, hlists⟩
    rcases Document.mem_all.mp hn with rfl | hn
    · exact .inl hlists
    · obtain ⟨child, hchild, hn⟩ := Document.mem_allOf.mp hn
      exact .inr ⟨child, hchild, n, hn, hlists⟩
  · rintro (hlists | ⟨child, hchild, n, hn, hlists⟩)
    · exact ⟨ns, Document.mem_all.mpr (.inl rfl), hlists⟩
    · exact ⟨n, Document.mem_all.mpr (.inr (Document.mem_allOf.mpr ⟨child, hchild, hn⟩)), hlists⟩

/-- In a namespace and below it, children have the identity of the namespace that lists them as their parent. -/
def Nested (ns : Namespace) : Prop := ∀ n ∈ ns.all, ∀ child ∈ n.children, child.parent = some n.id

theorem nested_iff {ns : Namespace} :
    ns.Nested ↔ ∀ child ∈ ns.children, child.parent = some ns.id ∧ child.Nested := by
  constructor
  · intro h child hchild
    refine ⟨h ns (Document.mem_all.mpr (.inl rfl)) child hchild, fun n hn => h n ?_⟩
    exact Document.mem_all.mpr (.inr (Document.mem_allOf.mpr ⟨child, hchild, hn⟩))
  · intro h n hn
    rcases Document.mem_all.mp hn with rfl | hn
    · exact fun child hchild => (h child hchild).1
    · obtain ⟨child, hchild, hn⟩ := Document.mem_allOf.mp hn
      exact (h child hchild).2 n hn

theorem allOf_eq_flatMap (nss : List Namespace) : allOf nss = nss.flatMap all := by
  induction nss with
  | nil => rfl
  | cons n nss ih => rw [allOf, ih, List.flatMap_cons]

theorem numbers_eq (ns : Namespace) : ns.numbers = ns.id.index :: ns.children.flatMap numbers := by
  cases ns
  rw [numbers, all, List.map_cons, allOf_eq_flatMap, List.map_flatMap]
  rfl

theorem listing_eq (ns : Namespace) : ns.listing = ns.own ++ ns.children.flatMap listing := by
  cases ns
  rw [listing, all, List.flatMap_cons, allOf_eq_flatMap, List.flatMap_assoc]
  rfl

end Graph.Namespace

namespace Document

open ClientForge.Graph

/-! ### Tables -/

/-- The namespace that an element of the tables is declared in. -/
def Declared.placeOf (d : Declared) : DefinitionId → Option NamespaceRef
  | .ofClass id => d.classes[id.index]?.bind (some ·.place)
  | .ofEnum id => d.enums[id.index]?.bind (·.home)

/-- The elements of the tables. -/
def Declared.ids (d : Declared) : List DefinitionId :=
  (List.range d.classes.size).map (.ofClass ⟨·⟩) ++ (List.range d.enums.size).map (.ofEnum ⟨·⟩)

/-- The tables hold what is declared and nothing else. -/
def Declared.Recorded (d : Declared) : Prop :=
  ∀ id place, d.placeOf id = some place ↔ ∃ x ∈ d.all, x.definition = id ∧ x.home = place

/-- What one declaration does. -/
structure Declares (place : NamespaceRef) (d : Declared) (id : DefinitionId) (d' : Declared) : Prop where
  all : ∃ name, d'.all = ⟨id, place, name⟩ :: d.all
  next : d'.nextNamespace = d.nextNamespace
  ids : d'.ids.Perm (id :: d.ids)
  fresh : d.placeOf id = none
  placeOf : ∀ other, d'.placeOf other = if other = id then some place else d.placeOf other

/-- A table with one more element gives the others the places they had. -/
theorem place_push {α : Type} (table : Array α) (x : α) (place : α → Option NamespaceRef) (i : Nat) :
    (table.push x)[i]?.bind place = if i = table.size then place x else table[i]?.bind place := by
  rw [Array.getElem?_push]
  split <;> rfl

/-- Declaring an enum does one declaration. -/
theorem declares_declareEnum (place : NamespaceRef) (e : EnumEntry) (d : Declared) :
    Declares place d (.ofEnum ((declareEnum place e).run d).1) ((declareEnum place e).run d).2 where
  all := ⟨e.name, rfl⟩
  next := rfl
  ids := by
    change List.Perm (_ ++ (List.range (d.enums.push _).size).map _) (DefinitionId.ofEnum ⟨d.enums.size⟩ :: _)
    rw [Array.size_push, List.range_succ, List.map_append, ← List.append_assoc]
    exact List.perm_append_singleton _ _
  fresh := by
    change d.enums[d.enums.size]?.bind _ = none
    simp
  placeOf other := by
    cases other with
    | ofClass other => rfl
    | ofEnum other =>
        obtain ⟨i⟩ := other
        have hid : DefinitionId.ofEnum ⟨i⟩ = .ofEnum ⟨d.enums.size⟩ ↔ i = d.enums.size := by simp
        change (d.enums.push _)[i]?.bind _ = if DefinitionId.ofEnum ⟨i⟩ = .ofEnum ⟨d.enums.size⟩ then _ else _
        simp only [place_push, hid]
        rfl

/-- Declaring a class does one declaration. -/
theorem declares_declareClass (place : NamespaceRef) (e : ClassEntry) (d : Declared) :
    Declares place d (.ofClass ((declareClass place e).run d).1) ((declareClass place e).run d).2 where
  all := ⟨e.name, rfl⟩
  next := rfl
  ids := by
    change List.Perm ((List.range (d.classes.push _).size).map _ ++ _) (DefinitionId.ofClass ⟨d.classes.size⟩ :: _)
    rw [Array.size_push, List.range_succ, List.map_append, List.append_assoc]
    exact List.perm_middle
  fresh := by
    change d.classes[d.classes.size]?.bind _ = none
    simp
  placeOf other := by
    cases other with
    | ofEnum other => rfl
    | ofClass other =>
        obtain ⟨i⟩ := other
        have hid : DefinitionId.ofClass ⟨i⟩ = .ofClass ⟨d.classes.size⟩ ↔ i = d.classes.size := by simp
        change (d.classes.push _)[i]?.bind _ = if DefinitionId.ofClass ⟨i⟩ = .ofClass ⟨d.classes.size⟩ then _ else _
        simp only [place_push, hid]
        rfl

/-- A declaration keeps all records in their places. -/
theorem Declares.recorded {place : NamespaceRef} {d d' : Declared} {id : DefinitionId} (h : Declares place d id d')
    (hd : d.Recorded) : d'.Recorded := by
  intro other there
  obtain ⟨name, hall⟩ := h.all
  rw [h.placeOf, hall]
  simp only [List.mem_cons, exists_eq_or_imp]
  by_cases hother : other = id
  · subst hother
    have hold : ∀ x ∈ d.all, x.definition ≠ other := by
      intro x hx hdefinition
      have hplace := (hd other x.home).mpr ⟨x, hx, hdefinition, rfl⟩
      rw [h.fresh] at hplace
      cases hplace
    rw [if_pos rfl]
    constructor
    · intro heq
      exact .inl ⟨rfl, Option.some.inj heq⟩
    · rintro (⟨-, rfl⟩ | ⟨x, hx, hdefinition, -⟩)
      · rfl
      · exact absurd hdefinition (hold x hx)
  · rw [if_neg hother, hd]
    exact ⟨.inr, fun hfound => hfound.resolve_left fun hnew => hother hnew.1.symm⟩

/-- One declaration after the other: each result is declared in the namespace, and nothing else is. -/
theorem declared_mapM {α β : Type} {place : NamespaceRef} {f : α → Declare β} {tag : β → DefinitionId}
    (hf : ∀ a d, Declares place d (tag ((f a).run d).1) ((f a).run d).2) (xs : List α) (d : Declared) :
    (∀ x ∈ ((xs.mapM f).run d).2.all,
        x ∈ d.all ∨ x.home = place ∧ ∃ b ∈ ((xs.mapM f).run d).1, x.definition = tag b) ∧
      ((xs.mapM f).run d).2.nextNamespace = d.nextNamespace ∧
      ((xs.mapM f).run d).2.ids.Perm (((xs.mapM f).run d).1.map tag ++ d.ids) ∧
      (d.Recorded → ((xs.mapM f).run d).2.Recorded) := by
  induction xs generalizing d with
  | nil => exact ⟨fun x hx => .inl hx, rfl, .refl _, id⟩
  | cons a xs ih =>
      have hfirst := hf a d
      obtain ⟨hlisted, hnext, hids, hrecorded⟩ := ih ((f a).run d).2
      rw [List.mapM_cons]
      refine ⟨fun x hx => ?_, hnext.trans hfirst.next, ?_, fun hd => hrecorded (hfirst.recorded hd)⟩
      case refine_2 => exact hids.trans ((hfirst.ids.append_left _).trans List.perm_middle)
      rcases hlisted x hx with hx | ⟨hhome, b, hb, hdefinition⟩
      · obtain ⟨name, hall⟩ := hfirst.all
        rw [hall] at hx
        rcases List.mem_cons.mp hx with rfl | hx
        · exact .inr ⟨rfl, _, List.mem_cons_self, rfl⟩
        · exact .inl hx
      · exact .inr ⟨hhome, b, List.mem_cons_of_mem _ hb, hdefinition⟩

/-! ### Namespaces -/

/-- A namespace has grown along with what is declared: it keeps what it lists, lists what is new and nothing twice,
and new namespaces are numbered in order and know the ones they are made in. -/
structure Grown (ns : Namespace) (d : Declared) (ns' : Namespace) (d' : Declared) : Prop where
  identity : ns'.id = ns.id
  parent : ns'.parent = ns.parent
  nested : ns.Nested → ns'.Nested
  kept : ∀ place id, ns.ListsAt place id → ns'.ListsAt place id
  listed : ∀ x ∈ d'.all, x ∈ d.all ∨ ns'.ListsAt x.home x.definition
  numbered : ∃ count, d'.nextNamespace = d.nextNamespace + count ∧
    ns'.numbers.Perm (ns.numbers ++ List.range' d.nextNamespace count)
  listing : (ns'.listing ++ d.ids).Perm (ns.listing ++ d'.ids)
  recorded : d.Recorded → d'.Recorded

namespace Grown

variable {ns ns₁ ns₂ : Namespace} {d d₁ d₂ : Declared}

theorem refl (ns : Namespace) (d : Declared) : Grown ns d ns d :=
  ⟨rfl, rfl, id, fun _ _ => id, fun _ => .inl, ⟨0, by simp⟩, .refl _, id⟩

theorem trans (h : Grown ns d ns₁ d₁) (h' : Grown ns₁ d₁ ns₂ d₂) : Grown ns d ns₂ d₂ where
  identity := h'.identity.trans h.identity
  parent := h'.parent.trans h.parent
  nested hns := h'.nested (h.nested hns)
  kept place id hlists := h'.kept place id (h.kept place id hlists)
  listed x hx := by
    rcases h'.listed x hx with hx | hlists
    · rcases h.listed x hx with hx | hlists
      · exact .inl hx
      · exact .inr (h'.kept _ _ hlists)
    · exact .inr hlists
  numbered := by
    obtain ⟨m, hnext, hperm⟩ := h.numbered
    obtain ⟨n, hnext', hperm'⟩ := h'.numbered
    refine ⟨m + n, by omega, hperm'.trans ?_⟩
    rw [hnext, ← List.range'_append_1, ← List.append_assoc]
    exact hperm.append_right _
  listing := by
    refine List.perm_iff_count.mpr fun id => ?_
    have hcount := h.listing.count_eq id
    have hcount' := h'.listing.count_eq id
    simp only [List.count_append] at hcount hcount' ⊢
    omega
  recorded hd := h'.recorded (h.recorded hd)

/-- Elements that are declared in a namespace are added to its lists. -/
theorem of_mapM {α β : Type} {f : α → Declare β} (tag : β → DefinitionId)
    (hf : ∀ a d, Declares ns.ref d (tag ((f a).run d).1) ((f a).run d).2) (xs : List α)
    {enums : List EnumId} {classes : List ClassId}
    (hown : ({ ns with enums, classes } : Namespace).own.Perm (((xs.mapM f).run d).1.map tag ++ ns.own)) :
    Grown ns d { ns with enums, classes } ((xs.mapM f).run d).2 := by
  obtain ⟨hlisted, hnext, hids, hrecorded⟩ := declared_mapM hf xs d
  refine ⟨rfl, rfl, fun hns => ?_, fun place id hlists => ?_, fun x hx => ?_, ⟨0, hnext, ?_⟩, ?_, hrecorded⟩
  · rw [Namespace.nested_iff] at hns ⊢
    exact hns
  · rw [Namespace.listsAt_iff] at hlists ⊢
    refine hlists.imp_left fun h => ⟨h.1, ?_⟩
    exact Namespace.mem_own.mp (hown.mem_iff.mpr (List.mem_append_right _ (Namespace.mem_own.mpr h.2)))
  · rcases hlisted x hx with hx | ⟨hhome, b, hb, hdefinition⟩
    · exact .inl hx
    · have hnew : tag b ∈ ((xs.mapM f).run d).1.map tag ++ ns.own :=
        List.mem_append_left _ (List.mem_map_of_mem hb)
      exact .inr (Namespace.listsAt_iff.mpr
        (.inl ⟨hhome.symm, hdefinition ▸ Namespace.mem_own.mp (hown.mem_iff.mpr hnew)⟩))
  · rw [Namespace.numbers_eq, Namespace.numbers_eq]
    simp
  · rw [Namespace.listing_eq, Namespace.listing_eq ns]
    refine List.perm_iff_count.mpr fun id => ?_
    have hcount := hown.count_eq id
    have hcount' := hids.count_eq id
    simp only [List.count_append] at hcount hcount' ⊢
    omega

/-- Where one child grows the namespace grows. -/
theorem of_child {found child : Namespace} {before after : List Namespace}
    (hchildren : ns.children = before ++ found :: after) (h : Grown found d child d₁) :
    Grown ns d { ns with children := before ++ child :: after } d₁ where
  identity := rfl
  parent := rfl
  nested hns := by
    rw [Namespace.nested_iff, hchildren] at hns
    refine Namespace.nested_iff.mpr fun other hother => ?_
    rcases List.mem_append.mp hother with hother | hother
    · exact hns other (List.mem_append_left _ hother)
    · rcases List.mem_cons.mp hother with rfl | hother
      · obtain ⟨hparent, hfound⟩ := hns found (by simp)
        exact ⟨h.parent.trans hparent, h.nested hfound⟩
      · exact hns other (by simp [hother])
  kept place id hlists := by
    rw [Namespace.listsAt_iff] at hlists ⊢
    refine hlists.imp_right ?_
    rintro ⟨other, hother, hlists⟩
    rw [hchildren, List.mem_append, List.mem_cons] at hother
    rcases hother with hother | rfl | hother
    · exact ⟨other, by simp [hother], hlists⟩
    · exact ⟨child, by simp, h.kept place id hlists⟩
    · exact ⟨other, by simp [hother], hlists⟩
  listed x hx := (h.listed x hx).imp_right fun hlists =>
    Namespace.listsAt_iff.mpr (.inr ⟨child, by simp, hlists⟩)
  numbered := by
    obtain ⟨count, hnext, hperm⟩ := h.numbered
    refine ⟨count, hnext, ?_⟩
    rw [Namespace.numbers_eq, Namespace.numbers_eq, hchildren]
    simp only [List.flatMap_append, List.flatMap_cons]
    refine List.perm_iff_count.mpr fun a => ?_
    have hcount := hperm.count_eq a
    simp only [List.cons_append, List.count_cons, List.count_append] at hcount ⊢
    omega
  listing := by
    rw [Namespace.listing_eq, Namespace.listing_eq ns, hchildren]
    refine List.perm_iff_count.mpr fun id => ?_
    have hcount := h.listing.count_eq id
    have hown : ({ ns with children := before ++ child :: after } : Namespace).own = ns.own := rfl
    simp only [hown, List.flatMap_append, List.flatMap_cons, List.count_append] at hcount ⊢
    omega
  recorded := h.recorded

/-- A namespace grows by a new child. -/
theorem of_newNamespace {child : Namespace} (name : String)
    (h : Grown ((newNamespace ns.id name).run d).1 ((newNamespace ns.id name).run d).2 child d₁) :
    Grown ns d { ns with children := ns.children ++ [child] } d₁ where
  identity := rfl
  parent := rfl
  nested hns := by
    refine Namespace.nested_iff.mpr fun other hother => ?_
    rcases List.mem_append.mp hother with hother | hother
    · exact Namespace.nested_iff.mp hns other hother
    · obtain rfl := List.mem_singleton.mp hother
      exact ⟨h.parent, h.nested (Namespace.nested_iff.mpr nofun)⟩
  kept place id hlists := by
    rw [Namespace.listsAt_iff] at hlists ⊢
    refine hlists.imp_right ?_
    rintro ⟨other, hother, hlists⟩
    exact ⟨other, List.mem_append_left _ hother, hlists⟩
  listed x hx := (h.listed x hx).imp_right fun hlists =>
    Namespace.listsAt_iff.mpr (.inr ⟨child, by simp, hlists⟩)
  numbered := by
    obtain ⟨count, hnext, hperm⟩ := h.numbered
    change d₁.nextNamespace = d.nextNamespace + 1 + count at hnext
    refine ⟨count + 1, by omega, ?_⟩
    have hnew : child.numbers.Perm (List.range' d.nextNamespace (count + 1)) := hperm
    rw [Namespace.numbers_eq, Namespace.numbers_eq ns]
    simp only [List.flatMap_append, List.flatMap_cons, List.flatMap_nil, List.append_nil, List.cons_append]
    exact (hnew.append_left _).cons _
  listing := by
    have hnew : (child.listing ++ d.ids).Perm d₁.ids := h.listing
    rw [Namespace.listing_eq, Namespace.listing_eq ns]
    simp only [List.flatMap_append, List.flatMap_cons, List.flatMap_nil, List.append_nil, List.append_assoc]
    exact (hnew.append_left _).append_left _
  recorded hd := h.recorded hd

end Grown

/-- A namespace that lists the enums that were declared in it has grown. -/
theorem grown_declareEnums (enums : List EnumEntry) (ns : Namespace) (d : Declared) :
    Grown ns d { ns with enums := ns.enums ++ ((enums.mapM (declareEnum ns.ref)).run d).1 }
      ((enums.mapM (declareEnum ns.ref)).run d).2 := by
  refine Grown.of_mapM .ofEnum (declares_declareEnum ns.ref) enums ?_
  simp only [Namespace.own, List.map_append, ← List.append_assoc]
  exact List.perm_append_comm.trans (by rw [List.append_assoc])

/-- A namespace that lists the classes that were declared in it has grown. -/
theorem grown_declareClasses (classes : List ClassEntry) (ns : Namespace) (d : Declared) :
    Grown ns d { ns with classes := ns.classes ++ ((classes.mapM (declareClass ns.ref)).run d).1 }
      ((classes.mapM (declareClass ns.ref)).run d).2 := by
  refine Grown.of_mapM .ofClass (declares_declareClass ns.ref) classes ?_
  simp only [Namespace.own, List.map_append, ← List.append_assoc]
  exact List.perm_append_comm.append_right _

mutual

/-- A namespace grows with every entry that is declared in it. -/
theorem grown_declare : ∀ (entry : NamespaceEntry) (ns : Namespace) (d : Declared),
    Grown ns d ((declare entry ns).run d).1 ((declare entry ns).run d).2
  | ⟨_, enums, classes, namespaces⟩, ns, d => by
      exact ((grown_declareEnums enums ns d).trans (grown_declareClasses classes _ _)).trans
        (grown_declareChildren namespaces _ _)

/-- It grows with the entries inside, whether they open a child or go to one that is there. -/
theorem grown_declareChildren : ∀ (entries : List NamespaceEntry) (ns : Namespace) (d : Declared),
    Grown ns d ((declareChildren entries ns).run d).1 ((declareChildren entries ns).run d).2
  | [], ns, d => .refl ns d
  | entry :: entries, ns, d => by
      obtain ⟨before, child, after, d₀, hopens, hrun⟩ := run_declareChildren_cons entry entries ns d
      rw [hrun]
      refine .trans ?_ (grown_declareChildren entries _ _)
      cases hopens with
      | found hchildren _ => exact .of_child hchildren (grown_declare entry child d)
      | new _ => exact .of_newNamespace _ (grown_declare entry _ _)

end

/-- In the end every declaration is listed at its home, the tables hold what is declared, namespaces are told apart by
their numbers, and they have the parents that list them. -/
theorem listings_of_declare {entry : NamespaceEntry} {name : String} {root : Namespace} {d : Declared}
    (h : (declare entry { id := ⟨0⟩, name }).run {} = (root, d)) :
    (∀ x ∈ d.all, root.ListsAt x.home x.definition) ∧ d.Recorded ∧ root.numbers.Nodup ∧ root.parent = none ∧
      root.Nested := by
  have hgrown := grown_declare entry { id := ⟨0⟩, name } {}
  rw [h] at hgrown
  obtain ⟨count, -, hperm⟩ := hgrown.numbered
  refine ⟨fun x hx => (hgrown.listed x hx).resolve_left List.not_mem_nil, hgrown.recorded ?_, ?_, hgrown.parent,
    hgrown.nested (Namespace.nested_iff.mpr nofun)⟩
  · intro id place
    cases id <;> simp [Declared.placeOf]
  · have hnumbers : List.Perm root.numbers (List.range' 0 (count + 1)) := hperm
    exact hnumbers.nodup_iff.mpr List.nodup_range'

/-- In the end the namespaces list the tables, each element once. -/
theorem listing_of_declare {entry : NamespaceEntry} {name : String} {root : Namespace} {d : Declared}
    (h : (declare entry { id := ⟨0⟩, name }).run {} = (root, d)) : root.listing.Perm d.ids := by
  have hgrown := grown_declare entry { id := ⟨0⟩, name } {}
  rw [h] at hgrown
  have hlisting : (root.listing ++ []).Perm d.ids := hgrown.listing
  rwa [List.append_nil] at hlisting

end Document

end ClientForge
