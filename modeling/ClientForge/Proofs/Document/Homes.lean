import ClientForge.Proofs.Document.Placed
import ClientForge.Proofs.Plan.Elements
import Mathlib.Data.List.TakeDrop

/-!
# Homes in decoded graphs

Decoding numbers namespaces as it meets them, and it declares every class and every enum inside one of them.
What has been declared at any time is therefore at home in the namespaces made so far, which their numbers tell
apart (`Declared.Settled`). Each declaration keeps that up, and so does a whole document.

* **`housed_of_graphOf`.** In the graph of a document every element has a home, and homes with one number are
  the same.
* **`holds_ext`.** Elements of such a graph with one identity are the same.
-/

namespace ClientForge

namespace Graph

/-- Enums stand where their identities say, every element has a home, and homes are known by their
identities. -/
structure Housed (g : Graph) : Prop where
  enum_id : ∀ (i : Nat) (x : Enum), g.enums[i]? = some x → x.id = ⟨i⟩
  home_isSome : ∀ d, g.Holds d → d.home.isSome
  home_ext : ∀ d₁ d₂ n₁ n₂, g.Holds d₁ → g.Holds d₂ → d₁.home = some n₁ → d₂.home = some n₂ →
    n₁.id = n₂.id → n₁ = n₂

section Identities

variable {g : Graph} (hplaced : g.Placed) (hhoused : g.Housed)

include hplaced hhoused

/-- Following the identity of an element leads back to it. -/
theorem definition?_id {d : Definition} (h : g.Holds d) : g.definition? d.id = some d := by
  obtain ⟨id, hid⟩ := h
  cases id with
  | ofClass id =>
      obtain ⟨c, hc, rfl⟩ := Option.map_eq_some_iff.mp hid
      have hid : c.id = id := hplaced.class_id _ _ hc
      simp [Definition.id, definition?, hid, hc]
  | ofEnum id =>
      obtain ⟨x, hx, rfl⟩ := Option.map_eq_some_iff.mp hid
      have hid : x.id = id := hhoused.enum_id _ _ hx
      simp [Definition.id, definition?, hid, hx]

theorem holds_ext {d₁ d₂ : Definition} (h₁ : g.Holds d₁) (h₂ : g.Holds d₂) (hid : d₁.id = d₂.id) :
    d₁ = d₂ := by
  have heq := definition?_id hplaced hhoused h₁
  rw [hid, definition?_id hplaced hhoused h₂] at heq
  exact (Option.some.inj heq).symm

end Identities

end Graph

namespace Document

open ClientForge.Graph

/-! ### Declarations -/

/-- What has been declared is at home in the namespaces made so far, which are numbered in order. -/
structure Declared.Settled (spaces : List NamespaceRef) (d : Declared) : Prop where
  space_id : ∀ (i : Nat) (n : NamespaceRef), spaces[i]? = some n → n.id = ⟨i⟩
  next : d.nextNamespace = spaces.length
  enum_id : ∀ (i : Nat) (x : Enum), d.enums[i]? = some x → x.id = ⟨i⟩
  enum_home : ∀ x ∈ d.enums, ∃ n ∈ spaces, x.home = some n
  class_place : ∀ c ∈ d.classes, c.place ∈ spaces

section Steps

variable {spaces : List NamespaceRef} {d : Declared}

/-- An enum that is declared in a known namespace has it for its home. -/
theorem settled_declareEnum {place : NamespaceRef} (e : EnumEntry) (hplace : place ∈ spaces)
    (h : d.Settled spaces) : ((declareEnum place e).run d).2.Settled spaces where
  space_id := h.space_id
  next := h.next
  enum_id i x hx := by
    change (d.enums.push _)[i]? = some x at hx
    rw [Array.getElem?_push] at hx
    split at hx
    · next hi =>
      cases hx
      rw [hi]
    · exact h.enum_id i x hx
  enum_home x hx := by
    change x ∈ d.enums.push _ at hx
    rcases Array.mem_push.mp hx with hx | rfl
    · exact h.enum_home x hx
    · exact ⟨place, hplace, rfl⟩
  class_place := h.class_place

/-- So has a class. -/
theorem settled_declareClass {place : NamespaceRef} (e : ClassEntry) (hplace : place ∈ spaces)
    (h : d.Settled spaces) : ((declareClass place e).run d).2.Settled spaces where
  space_id := h.space_id
  next := h.next
  enum_id := h.enum_id
  enum_home := h.enum_home
  class_place c hc := by
    change c ∈ d.classes.push _ at hc
    rcases Array.mem_push.mp hc with hc | rfl
    · exact h.class_place c hc
    · exact hplace

/-- A new namespace has the number behind those of all others. -/
theorem settled_newNamespace (parent : NamespaceId) (name : String) (h : d.Settled spaces) :
    ((newNamespace parent name).run d).2.Settled (spaces ++ [((newNamespace parent name).run d).1.ref]) where
  space_id i n hn := by
    rw [List.getElem?_append] at hn
    split at hn
    · exact h.space_id i n hn
    · next hi =>
      obtain ⟨hlength, hnew⟩ := List.getElem?_eq_some_iff.mp hn
      have hlength : i - spaces.length < 1 := hlength
      obtain rfl : i = spaces.length := by omega
      simp only [Nat.sub_self, List.getElem_cons_zero] at hnew
      rw [← hnew, ← h.next]
      rfl
  next := by
    change d.nextNamespace + 1 = _
    simp [h.next]
  enum_id := h.enum_id
  enum_home x hx := by
    obtain ⟨n, hn, hhome⟩ := h.enum_home x hx
    exact ⟨n, List.mem_append_left _ hn, hhome⟩
  class_place c hc := List.mem_append_left _ (h.class_place c hc)

/-- What each declaration keeps settled, all of them do. -/
theorem settled_mapM {α β : Type} {f : α → Declare β}
    (hf : ∀ x d, d.Settled spaces → ((f x).run d).2.Settled spaces) (xs : List α) (h : d.Settled spaces) :
    ((xs.mapM f).run d).2.Settled spaces := by
  induction xs generalizing d with
  | nil => exact h
  | cons x xs ih =>
      rw [List.mapM_cons]
      exact ih (hf x d h)

end Steps

/-! ### Namespaces -/

/-- What a namespace has become along with the declarations in it: it is one of the namespaces made so far,
like all below it, and no namespace was lost. -/
def Extends (spaces : List NamespaceRef) (result : Namespace × Declared) : Prop :=
  ∃ more, result.2.Settled (spaces ++ more) ∧ ∀ n ∈ result.1.all, n.ref ∈ spaces ++ more

theorem mem_all {n ns : Namespace} : n ∈ ns.all ↔ n = ns ∨ n ∈ Namespace.allOf ns.children := by
  cases ns
  simp [Namespace.all]

theorem mem_allOf {n : Namespace} {nss : List Namespace} : n ∈ Namespace.allOf nss ↔ ∃ ns ∈ nss, n ∈ ns.all := by
  induction nss with
  | nil => simp [Namespace.allOf]
  | cons ns nss ih => simp [Namespace.allOf, ih]

/-- What extends more namespaces extends fewer. -/
theorem Extends.of_append {spaces more : List NamespaceRef} {result : Namespace × Declared}
    (h : Extends (spaces ++ more) result) : Extends spaces result := by
  obtain ⟨rest, hsettled, hall⟩ := h
  rw [List.append_assoc] at hsettled
  exact ⟨more ++ rest, hsettled, fun n hn => by simpa using hall n hn⟩

/-- A child that grew leaves the other children as they were. -/
theorem ref_mem_of_child {spaces more : List NamespaceRef} {ns child : Namespace} {before after : List Namespace}
    (hns : ∀ n ∈ ns.all, n.ref ∈ spaces) (hkept : ∀ other ∈ before ++ after, other ∈ ns.children)
    (hchild : ∀ n ∈ child.all, n.ref ∈ spaces ++ more) :
    ∀ n ∈ ({ ns with children := before ++ child :: after } : Namespace).all, n.ref ∈ spaces ++ more := by
  have hother : ∀ other ∈ before ++ after, ∀ n ∈ other.all, n.ref ∈ spaces ++ more := fun other hother n hn =>
    List.mem_append_left _ (hns n (mem_all.mpr (.inr (mem_allOf.mpr ⟨other, hkept other hother, hn⟩))))
  intro n hn
  rcases mem_all.mp hn with rfl | hn
  · exact List.mem_append_left _ (hns ns (mem_all.mpr (.inl rfl)))
  · obtain ⟨other, hmem, hin⟩ := mem_allOf.mp hn
    simp only [List.mem_append, List.mem_cons] at hmem
    rcases hmem with hmem | rfl | hmem
    · exact hother other (List.mem_append_left _ hmem) n hin
    · exact hchild n hin
    · exact hother other (List.mem_append_right _ hmem) n hin

mutual

/-- Every declaration of an entry is at home in a namespace that is there in the end. -/
theorem extends_declare : ∀ (entry : NamespaceEntry) (ns : Namespace) (spaces : List NamespaceRef) (d : Declared),
    d.Settled spaces → (∀ n ∈ ns.all, n.ref ∈ spaces) → Extends spaces ((declare entry ns).run d)
  | ⟨_, enums, classes, namespaces⟩, ns, spaces, d, hd, hns => by
      have hplace : ns.ref ∈ spaces := hns ns (mem_all.mpr (.inl rfl))
      have henums := settled_mapM (fun e _ h => settled_declareEnum e hplace h) enums hd
      have hclasses := settled_mapM (fun e _ h => settled_declareClass e hplace h) classes henums
      refine extends_declareChildren namespaces _ spaces _ hclasses fun n hn => ?_
      rcases mem_all.mp hn with rfl | hn
      · exact hplace
      · exact hns n (mem_all.mpr (.inr hn))

/-- So is every declaration of the entries inside it. -/
theorem extends_declareChildren : ∀ (entries : List NamespaceEntry) (ns : Namespace) (spaces : List NamespaceRef)
    (d : Declared), d.Settled spaces → (∀ n ∈ ns.all, n.ref ∈ spaces) →
      Extends spaces ((declareChildren entries ns).run d)
  | [], ns, spaces, d, hd, hns => by
      refine ⟨[], ?_⟩
      rw [declareChildren, List.append_nil]
      exact ⟨hd, hns⟩
  | entry :: entries, ns, spaces, d, hd, hns => by
      obtain ⟨before, child, after, d₀, hopens, hrun⟩ := run_declareChildren_cons entry entries ns d
      rw [hrun]
      have hopened : ∃ opened, d₀.Settled (spaces ++ opened) ∧ (∀ n ∈ child.all, n.ref ∈ spaces ++ opened) ∧
          ∀ other ∈ before ++ after, other ∈ ns.children := by
        cases hopens with
        | found hchildren _ =>
            refine ⟨[], by simpa using hd, fun n hn => ?_, by simp +contextual [hchildren, or_imp]⟩
            rw [List.append_nil]
            exact hns n (mem_all.mpr (.inr (mem_allOf.mpr ⟨child, by simp [hchildren], hn⟩)))
        | new _ =>
            refine ⟨_, settled_newNamespace ns.id _ hd, fun n hn => ?_, by simp⟩
            rcases mem_all.mp hn with rfl | hn
            · simp
            · cases hn
      obtain ⟨opened, hsettled, hall, hkept⟩ := hopened
      obtain ⟨more, hgrown, hchild⟩ := extends_declare entry child _ d₀ hsettled hall
      rw [List.append_assoc] at hgrown hchild
      exact (extends_declareChildren entries _ _ _ hgrown (ref_mem_of_child hns hkept hchild)).of_append

end

/-! ### Graphs -/

/-- At first there is the root, and nothing is declared. -/
theorem settled_start (name : String) : Declared.Settled [⟨⟨0⟩, name⟩] {} := by
  constructor
  case space_id =>
    intro i n hn
    obtain ⟨hi, rfl⟩ := List.getElem?_eq_some_iff.mp hn
    obtain rfl : i = 0 := by simpa using hi
    rfl
  all_goals simp

/-- The elements of a decoded graph are at home in namespaces that are numbered in order. -/
theorem exists_spaces_of_graphOf {entry : NamespaceEntry} {g : Graph} (h : graphOf entry = .ok g) :
    ∃ spaces : List NamespaceRef, (∀ (i : Nat) (n : NamespaceRef), spaces[i]? = some n → n.id = ⟨i⟩) ∧
      (∀ (i : Nat) (x : Enum), g.enums[i]? = some x → x.id = ⟨i⟩) ∧
      ∀ d, g.Holds d → ∃ n ∈ spaces, d.home = some n := by
  obtain ⟨-, root, declared, hdeclare, classes, hclasses, rfl⟩ := graphOf_eq_ok_iff.mp h
  have hroot : ∀ n ∈ ({ id := ⟨0⟩, name := entry.name } : Namespace).all, n.ref ∈ [⟨⟨0⟩, entry.name⟩] := by
    simp [Namespace.all, Namespace.allOf, Namespace.ref]
  obtain ⟨more, hsettled, -⟩ := extends_declare entry _ _ _ (settled_start entry.name) hroot
  rw [hdeclare] at hsettled
  refine ⟨_, hsettled.space_id, hsettled.enum_id, ?_⟩
  rintro d ⟨id, hid⟩
  cases id with
  | ofClass id =>
      obtain ⟨c, hc, rfl⟩ := Option.map_eq_some_iff.mp hid
      have hc : classes[id.index]? = some c := by simpa [class?] using hc
      obtain ⟨⟨declaration, j⟩, hindex, hclass⟩ := getElem?_of_mapM hclasses hc
      rw [List.getElem?_zipIdx] at hindex
      obtain ⟨_, hdeclared, heq⟩ := Option.map_eq_some_iff.mp hindex
      cases heq
      exact ⟨_, hsettled.class_place _ (Array.mem_def.mpr (List.mem_of_getElem? hdeclared)),
        (read_of_classOf hclass).home⟩
  | ofEnum id =>
      obtain ⟨x, hx, rfl⟩ := Option.map_eq_some_iff.mp hid
      exact hsettled.enum_home x (Array.mem_of_getElem? hx)

theorem housed_of_graphOf {entry : NamespaceEntry} {g : Graph} (h : graphOf entry = .ok g) : g.Housed := by
  obtain ⟨spaces, hnumbered, henums, hhomes⟩ := exists_spaces_of_graphOf h
  refine ⟨henums, fun d hd => ?_, fun d₁ d₂ n₁ n₂ hd₁ hd₂ hn₁ hn₂ hid => ?_⟩
  · obtain ⟨n, -, hn⟩ := hhomes d hd
    simp [hn]
  · have hplace : ∀ d n, g.Holds d → d.home = some n → spaces[n.id.index]? = some n := by
      intro d n hd hn
      obtain ⟨n', hmem, hn'⟩ := hhomes d hd
      obtain rfl : n' = n := Option.some.inj (hn'.symm.trans hn)
      obtain ⟨i, hi⟩ := List.mem_iff_getElem?.mp hmem
      rw [hnumbered i n' hi]
      exact hi
    have heq := hplace d₁ n₁ hd₁ hn₁
    rw [hid, hplace d₂ n₂ hd₂ hn₂] at heq
    exact (Option.some.inj heq).symm

end Document

end ClientForge
