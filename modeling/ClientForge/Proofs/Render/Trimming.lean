import ClientForge.Render.Calls
import Mathlib.Data.List.DropRight
import Mathlib.Order.Bounds.Basic

/-!
# Arguments that are left out

A call has an argument for each parameter of the signature, but some of them may be missing. Where a target has default
values, a call ends with the last argument that the callee cannot make up for by itself: it is there, or its parameter
is not optional.

* `keptArguments_le_iff`: a call can do with its first arguments exactly if there are at least as many of them as are
  kept;
* **`trailing_arguments_trimmed`.** So what is written are the fewest arguments that a call can do with, each in its
  place, and all of them where nothing may be left out.
-/

namespace ClientForge.Render

open ClientForge.Graph

/-- For each argument, whether it can be left out. -/
def droppable (arguments : List (Option Parameter)) (signature : List Parameter) : List Bool :=
  arguments.zipIdx.map fun (a, i) => isDroppable a signature[i]?

/-- From some place on all arguments are missing, and the parameters in their places are optional. -/
def DroppableFrom (signature : List Parameter) (arguments : List (Option Parameter)) (n : Nat) : Prop :=
  ∀ i, n ≤ i → i < arguments.length →
    arguments[i]? = some none ∧ ∃ p, signature[i]? = some p ∧ p.optional = true

/-- What is left after dropping from the end is no longer than a given length exactly if everything behind it is
dropped. -/
theorem length_rdropWhile_le_iff {α : Type} {test : α → Bool} {xs : List α} {n : Nat} :
    (xs.rdropWhile test).length ≤ n ↔ ∀ x ∈ xs.drop n, test x = true := by
  induction xs using List.reverseRecOn with
  | nil => simp
  | append_singleton xs x ih =>
      by_cases hx : test x = true
      · have hlast : ∀ y ∈ [x].drop (n - xs.length), test y = true := by
          intro y hy
          rwa [List.mem_singleton.mp (List.mem_of_mem_drop hy)]
        rw [List.rdropWhile_concat_pos _ _ _ hx, ih, List.drop_append, List.forall_mem_append, and_iff_left hlast]
      · rw [List.rdropWhile_concat_neg _ _ _ hx]
        constructor
        · intro hn
          simp [List.drop_eq_nil_of_le hn]
        · intro h
          by_contra hn
          have hle : n ≤ xs.length := by simpa [Nat.lt_succ_iff] using hn
          exact hx (h x (by simp [List.drop_append_of_le_length hle]))

section Arguments

variable (arguments : List (Option Parameter)) (signature : List Parameter)

theorem keptArguments_eq :
    keptArguments arguments signature = ((droppable arguments signature).rdropWhile id).length := by
  simp [keptArguments, droppable, List.rdropWhile]

theorem keptArguments_le : keptArguments arguments signature ≤ arguments.length := by
  rw [keptArguments_eq]
  simpa [droppable] using (List.rdropWhile_prefix id (l := droppable arguments signature)).length_le

theorem getElem?_droppable (i : Nat) :
    (droppable arguments signature)[i]? = arguments[i]?.map (isDroppable · signature[i]?) := by
  simp only [droppable, List.getElem?_map, List.getElem?_zipIdx, Option.map_map, Nat.zero_add]
  rfl

theorem isDroppable_iff {a p : Option Parameter} :
    isDroppable a p = true ↔ a = none ∧ ∃ q, p = some q ∧ q.optional = true := by
  cases p <;> simp [isDroppable]

/-- A call can do with its first arguments exactly if there are at least as many of them as are kept. -/
theorem keptArguments_le_iff {n : Nat} :
    keptArguments arguments signature ≤ n ↔ DroppableFrom signature arguments n := by
  rw [keptArguments_eq, length_rdropWhile_le_iff]
  constructor
  · intro h i hn hi
    have hflag : ((droppable arguments signature).drop n)[i - n]? = some (isDroppable arguments[i] signature[i]?) := by
      rw [List.getElem?_drop, Nat.add_sub_cancel' hn, getElem?_droppable, List.getElem?_eq_getElem hi]
      rfl
    obtain ⟨hmissing, hoptional⟩ := isDroppable_iff.mp (h _ (List.mem_of_getElem? hflag))
    exact ⟨by rw [List.getElem?_eq_getElem hi, hmissing], hoptional⟩
  · intro h flag hflag
    obtain ⟨i, hi⟩ := List.getElem?_of_mem hflag
    rw [List.getElem?_drop, getElem?_droppable] at hi
    obtain ⟨a, ha, rfl⟩ := Option.map_eq_some_iff.mp hi
    obtain ⟨hmissing, hoptional⟩ := h (n + i) (Nat.le_add_right n i) (List.getElem?_eq_some_iff.mp ha).1
    exact isDroppable_iff.mpr ⟨Option.some.inj (ha.symm.trans hmissing), hoptional⟩

end Arguments

/-- Where arguments may be left out, what is written are the first arguments of a call, as many as have to be for the
others to be missing and to have optional parameters. Otherwise all are written. A placeholder stands for an argument
that is missing. -/
theorem trailing_arguments_trimmed (generator : Method) (arguments : List (Option Parameter))
    (render : Parameter → String) (placeholder : String) :
    (∃ kept, IsLeast {n | n ≤ arguments.length ∧ DroppableFrom generator.signature arguments n} kept ∧
      renderArguments generator.signature arguments render placeholder true =
        (arguments.take kept).map (·.elim placeholder render)) ∧
    renderArguments generator.signature arguments render placeholder false =
      arguments.map (·.elim placeholder render) := by
  have hrender : (fun a : Option Parameter => (a.map render).getD placeholder) = (·.elim placeholder render) := by
    funext a
    cases a <;> rfl
  refine ⟨⟨keptArguments arguments generator.signature, ⟨⟨keptArguments_le _ _, ?_⟩, ?_⟩, ?_⟩, ?_⟩
  · exact (keptArguments_le_iff _ _).mp le_rfl
  · rintro n ⟨-, hn⟩
    exact (keptArguments_le_iff _ _).mpr hn
  · simp [renderArguments, hrender]
  · simp [renderArguments, hrender]

end ClientForge.Render
