import ClientForge.Convention.Language
import ClientForge.Plan.Evaluation
import ClientForge.Plan.Serialization
import ClientForge.Proofs.Failure

/-!
# What is written is what is read

A serializer and a deserializer each select the properties of their class, sort them by name and go through
what is left. Sorting keeps the order of properties with the same name, so it does not matter whether the
read-only ones are left out before it or after it, and the values that are written are those that are read but
for the read-only ones.

* `filter_mergeSort`: leaving elements out commutes with sorting;
* `ownProperties_false`: the properties that are written, as a selection of those that are read;
* `serializer_mirrors_deserializer`: a class that can be read can be written, value for value.
-/

namespace ClientForge.Plan

open ClientForge.Graph

/-! ### Leaving out before and after sorting -/

section Sorting

variable {α : Type} {le : α → α → Bool}

/-- An element divides a list in one way only into what comes before it and what does not. -/
theorem eq_of_divided {a : α} {xs₁ xs₂ ys₁ ys₂ : List α} (heq : xs₁ ++ xs₂ = ys₁ ++ ys₂)
    (hxs₁ : ∀ b ∈ xs₁, !le a b) (hxs₂ : ∀ b ∈ xs₂, le a b)
    (hys₁ : ∀ b ∈ ys₁, !le a b) (hys₂ : ∀ b ∈ ys₂, le a b) : xs₁ = ys₁ ∧ xs₂ = ys₂ := by
  have hfirst : ∀ {zs₁ zs₂ : List α}, (∀ b ∈ zs₁, !le a b) → (∀ b ∈ zs₂, le a b) →
      (zs₁ ++ zs₂).filter (!le a ·) = zs₁ := by
    intro zs₁ zs₂ hbefore hafter
    have hnone : zs₂.filter (!le a ·) = [] :=
      List.filter_eq_nil_iff.mpr fun b hb => by simp [hafter b hb]
    rw [List.filter_append, List.filter_eq_self.mpr hbefore, hnone, List.append_nil]
  have h₁ : xs₁ = ys₁ := by rw [← hfirst hxs₁ hxs₂, heq, hfirst hys₁ hys₂]
  subst h₁
  exact ⟨rfl, List.append_cancel_left heq⟩

variable (htrans : ∀ a b c, le a b → le b c → le a c) (htotal : ∀ a b, le a b || le b a)
include htrans htotal

/-- Sorting puts an element in front of all that it is not behind. -/
theorem mergeSort_cons_divided (a : α) (l : List α) :
    ∃ l₁ l₂, (a :: l).mergeSort le = l₁ ++ a :: l₂ ∧ l.mergeSort le = l₁ ++ l₂ ∧
      (∀ b ∈ l₁, !le a b) ∧ ∀ b ∈ l₂, le a b := by
  obtain ⟨l₁, l₂, hcons, hrest, hbefore⟩ := List.mergeSort_cons htrans htotal a l
  refine ⟨l₁, l₂, hcons, hrest, hbefore, ?_⟩
  have hsorted := List.pairwise_mergeSort htrans htotal (a :: l)
  rw [hcons, List.pairwise_append, List.pairwise_cons] at hsorted
  exact hsorted.2.1.1

theorem filter_mergeSort (p : α → Bool) (l : List α) :
    (l.mergeSort le).filter p = (l.filter p).mergeSort le := by
  induction l with
  | nil => simp
  | cons a l ih =>
      obtain ⟨l₁, l₂, hcons, hrest, hbefore, hafter⟩ := mergeSort_cons_divided htrans htotal a l
      rw [hrest, List.filter_append] at ih
      rw [hcons, List.filter_append]
      by_cases hp : p a
      · obtain ⟨k₁, k₂, hcons', hrest', hbefore', hafter'⟩ :=
          mergeSort_cons_divided htrans htotal a (l.filter p)
        obtain ⟨rfl, rfl⟩ := eq_of_divided (ih.trans hrest')
          (fun b hb => hbefore b (List.mem_filter.mp hb).1)
          (fun b hb => hafter b (List.mem_filter.mp hb).1) hbefore' hafter'
        rw [List.filter_cons_of_pos hp, List.filter_cons_of_pos hp, hcons']
      · rw [List.filter_cons_of_neg hp, List.filter_cons_of_neg hp, ih]

end Sorting

/-! ### Own properties -/

/-- A custom property that the class itself handles. -/
def IsOwn (p : Property) : Prop := p.kind = .custom ∧ p.inBase = false

/-- The properties that a class handles itself, with or without those that are only read. -/
theorem mem_ownProperties {cls : ClassDef} {withReadOnly : Bool} {p : Property} :
    p ∈ ownProperties cls withReadOnly ↔
      p ∈ cls.properties ∧ IsOwn p ∧ (withReadOnly = false → p.readOnly = false) := by
  unfold ownProperties IsOwn
  rw [(List.mergeSort_perm _ _).mem_iff, List.mem_filter]
  cases withReadOnly <;> simp [and_assoc]

/-- The properties that are written are those that are read but for the read-only ones, in the same order. -/
theorem ownProperties_false (cls : ClassDef) :
    ownProperties cls false = (ownProperties cls true).filter (!·.readOnly) := by
  unfold ownProperties
  rw [filter_mergeSort, List.filter_filter]
  · congr 1
    apply List.filter_congr
    intro p _
    simp [Bool.and_comm]
  · intro a b c hab hbc
    simp only [decide_eq_true_eq] at *
    exact String.le_trans hab hbc
  · intro a b
    simpa using String.le_total a.name b.name

/-! ### Bodies -/

/-- The base class whose serializer a body calls. -/
def Body.writtenBase (b : Body) : List ClassDef :=
  b.operations.filterMap fun
    | .callBaseSerializer base => some base
    | _ => none

/-- The base class on top of whose map a body reads. -/
def Body.readBase (b : Body) : List ClassDef :=
  b.operations.filterMap fun
    | .fieldMap base _ => base
    | _ => none

section Bodies

variable {c : Context} {cls : ClassDef} {m : Method} {body : Body}

theorem property_of_slotOf {p : Property} {s : ValueSlot} (h : slotOf c p = .ok s) : s.property = p := by
  obtain ⟨v, _, h⟩ := bind_eq_ok.mp h
  cases h
  rfl

/-- A deserializer reads the own properties of its class on top of the base class. -/
theorem deserializer_eq_ok (h : deserializer c cls m = .ok body) :
    List.Forall₂ (fun p s => slotOf c p = .ok s) (ownProperties cls true) body.read ∧
      body.readBase = (c.graph.baseClass cls).toList := by
  obtain ⟨slots, hslots, h⟩ := bind_eq_ok.mp h
  cases h
  refine ⟨?_, ?_⟩
  · simpa [Body.read] using mapM_eq_ok.mp hslots
  · cases c.graph.baseClass cls <;> simp [Body.readBase]

/-- A serializer whose values all have a form writes them after those of the base class, and the additional
data last. -/
theorem serializer_eq_ok {slots : List ValueSlot}
    (h : List.Forall₂ (fun p s => slotOf c p = .ok s) (ownProperties cls false) slots) :
    ∃ body, serializer c cls m = .ok body ∧ body.written = slots ∧
      body.writtenBase = (c.graph.baseClass cls).toList ∧
      ∀ o ∈ body.operations, (∃ base, o = .callBaseSerializer base) ∨ (∃ s ∈ slots, o = .writeValue s) ∨
        ∃ p ∈ cls.propertyOfKind .additionalData, o = .writeAdditionalData p := by
  refine ⟨_, bind_eq_ok.mpr ⟨slots, mapM_eq_ok.mpr h, rfl⟩, ?_, ?_, fun o ho => ?_⟩
  · cases c.graph.baseClass cls <;> cases cls.propertyOfKind .additionalData <;>
      simp [Body.written]
  · cases c.graph.baseClass cls <;> cases cls.propertyOfKind .additionalData <;>
      simp [Body.writtenBase]
  · rcases List.mem_append.mp ho with ho | ho
    · rcases List.mem_append.mp ho with ho | ho
      · obtain ⟨base, _, rfl⟩ := Option.map_eq_some_iff.mp (Option.mem_toList.mp ho)
        exact .inl ⟨base, rfl⟩
      · obtain ⟨s, hs, rfl⟩ := List.mem_map.mp ho
        exact .inr (.inl ⟨s, hs, rfl⟩)
    · obtain ⟨p, hp, rfl⟩ := Option.map_eq_some_iff.mp (Option.mem_toList.mp ho)
      exact .inr (.inr ⟨p, hp, rfl⟩)

end Bodies

/-! ### Reading and writing -/

/-- What a class writes, against what it reads. -/
structure Mirrors (c : Context) (cls : ClassDef) (writing reading : Body) : Prop where
  /-- The same values under the same keys and by the same variant, but for those that are only read. -/
  slots : writing.written = reading.read.filter (!·.property.readOnly)
  keys_sublist : (writtenKeys writing).Sublist (readKeys reading)
  keys_eq : (∀ p ∈ cls.properties, IsOwn p → p.readOnly = false) → writtenKeys writing = readKeys reading
  written_base : writing.writtenBase = (c.graph.baseClass cls).toList
  read_base : reading.readBase = (c.graph.baseClass cls).toList
  own : ∀ s ∈ writing.written ++ reading.read, IsOwn s.property
  /-- No own property is left out. -/
  complete : ∀ p ∈ cls.properties, IsOwn p → ∃ s ∈ reading.read, s.property = p
  /-- Besides these values only the additional data are written, which have no key of their own. -/
  besides : ∀ o ∈ writing.operations, (∃ base, o = .callBaseSerializer base) ∨
    (∃ s ∈ writing.written, o = .writeValue s) ∨
      ∃ p ∈ cls.propertyOfKind .additionalData, o = .writeAdditionalData p

section Mirrors

variable {c : Context} {cls : ClassDef} {slots : List ValueSlot}

/-- Slots are made for properties one by one. -/
theorem properties_of_slots {ps : List Property} (h : List.Forall₂ (fun p s => slotOf c p = .ok s) ps slots) :
    slots.map (·.property) = ps := by
  induction h with
  | nil => rfl
  | cons hp _ ih => rw [List.map_cons, property_of_slotOf hp, ih]

variable (hslots : List.Forall₂ (fun p s => slotOf c p = .ok s) (ownProperties cls true) slots)
include hslots

theorem mem_of_mem_slots {s : ValueSlot} (hs : s ∈ slots) :
    s.property ∈ cls.properties ∧ IsOwn s.property := by
  have hmem : s.property ∈ ownProperties cls true := by
    rw [← properties_of_slots hslots]
    exact List.mem_map_of_mem hs
  exact ⟨(mem_ownProperties.mp hmem).1, (mem_ownProperties.mp hmem).2.1⟩

/-- The values that are written have a form, since they are among those that are read. -/
theorem written_of_slots :
    List.Forall₂ (fun p s => slotOf c p = .ok s) (ownProperties cls false)
      (slots.filter (!·.property.readOnly)) := by
  rw [ownProperties_false]
  refine List.rel_filter (fun p s hs => ?_) hslots
  dsimp only
  rw [property_of_slotOf hs]

/-- Where no property is only read, everything that is read is written. -/
theorem filter_slots_eq_self (h : ∀ p ∈ cls.properties, IsOwn p → p.readOnly = false) :
    slots.filter (!·.property.readOnly) = slots := by
  apply List.filter_eq_self.mpr
  intro s hs
  obtain ⟨hproperty, hown⟩ := mem_of_mem_slots hslots hs
  simp [h s.property hproperty hown]

end Mirrors

/-- If the values of a class can be read, they can be written. What is written is what is read, value for
value and in the same order, but for the read-only properties. -/
theorem serializer_mirrors_deserializer {c : Context} {cls : ClassDef} {reader : Method} {reading : Body}
    (h : deserializer c cls reader = .ok reading) (writer : Method) :
    ∃ writing, serializer c cls writer = .ok writing ∧ Mirrors c cls writing reading := by
  obtain ⟨hslots, hreadBase⟩ := deserializer_eq_ok h
  obtain ⟨writing, hwriting, hwritten, hwrittenBase, hbesides⟩ := serializer_eq_ok (written_of_slots hslots)
  refine ⟨writing, hwriting, hwritten, ?_, ?_, hwrittenBase, hreadBase, ?_, ?_, hwritten ▸ hbesides⟩
  · unfold writtenKeys readKeys
    rw [hwritten]
    exact List.filter_sublist.map _
  · intro hnone
    unfold writtenKeys readKeys
    rw [hwritten, filter_slots_eq_self hslots hnone]
  · intro s hs
    rw [hwritten] at hs
    rcases List.mem_append.mp hs with hs | hs
    · exact (mem_of_mem_slots hslots (List.mem_filter.mp hs).1).2
    · exact (mem_of_mem_slots hslots hs).2
  · intro p hp hown
    have hmem : p ∈ reading.read.map (·.property) := by
      rw [properties_of_slots hslots]
      exact mem_ownProperties.mpr ⟨hp, hown, nofun⟩
    exact List.mem_map.mp hmem

namespace AccountSample

def created : Property :=
  { name := "CreatedAt", type := some (.scalar { name := "datetimeoffset" }), readOnly := true }

def key : Property := { name := "Id", type := some (.scalar { name := "guid" }) }

def entity : ClassDef := { id := ⟨0⟩, name := "Entity", home := none }

/-- A class with a base class, a read-only property and one that the base class handles. -/
def account : ClassDef :=
  { id := ⟨1⟩, name := "Account", home := none
    inherits := some { name := "Entity", definition := some (.ofClass ⟨0⟩) }
    properties := [created, key, { name := "Owner", inBase := true },
      { name := "AdditionalData", kind := .additionalData }] }

def accounts : Context :=
  ⟨{ root := { id := ⟨0⟩, name := "Sdk", classes := [⟨0⟩, ⟨1⟩] }, classes := #[entity, account], enums := #[] },
    Convention.Language.csharp.policy, {}⟩

def reader : Method := { id := ⟨⟨1⟩, 0⟩, name := "GetFieldDeserializers", kind := .deserializer }

def writer : Method := { id := ⟨⟨1⟩, 1⟩, name := "Serialize", kind := .serializer }

theorem ownProperties_account : ownProperties account true = [created, key] := by
  unfold ownProperties
  rw [List.mergeSort_of_pairwise (by decide)]
  rfl

end AccountSample

open AccountSample

/-- An account reads its identifier and the time of its creation, and writes the identifier only. -/
theorem account_mirrored :
    ∃ reading, deserializer accounts account reader = .ok reading ∧ readKeys reading = ["createdAt", "id"] ∧
      ∃ writing, serializer accounts account writer = .ok writing ∧ Mirrors accounts account writing reading ∧
        writtenKeys writing = ["id"] := by
  have hreading : deserializer accounts account reader = .ok
      { method := reader
        operations := [.fieldMap (some entity)
          [⟨"createdAt", created, .primitive⟩, ⟨"id", key, .primitive⟩]] } := by
    rw [deserializer, ownProperties_account]
    rfl
  obtain ⟨writing, hwriting, hmirrors⟩ := serializer_mirrors_deserializer hreading writer
  refine ⟨_, hreading, rfl, writing, hwriting, hmirrors, ?_⟩
  rw [writtenKeys, hmirrors.slots]
  rfl

end ClientForge.Plan
