import Mathlib.Data.List.Nodup
import Mathlib.Data.String.Basic

/-!
# Sorting

A linear order leaves no choice: sorting by it forgets the order in which things arrive (`mergeSort_eq_of_perm`), and
so does sorting what remains without repetitions (`mergeSort_eraseDups_eq`). It is enough if the order is linear on the
things at hand (`mergeSort_eq_of_perm_of_antisymm`). Sorting by a key leaves the order of things with the same key
open, but not the order of the keys (`map_mergeSort_eq_of_perm`).
-/

namespace ClientForge.Text

/-- Whether a test is a linear order. -/
structure LinearlyOrders {α : Type} (le : α → α → Bool) : Prop where
  trans : ∀ a b c, le a b = true → le b c = true → le a c = true
  total : ∀ a b, (le a b || le b a) = true
  antisymm : ∀ a b, le a b = true → le b a = true → a = b

theorem linearlyOrders_le : LinearlyOrders fun a b : String => decide (a ≤ b) where
  trans a b c hab hbc := by
    rw [decide_eq_true_eq] at *
    exact le_trans hab hbc
  total a b := by simpa using le_total a b
  antisymm a b hab hba := by
    rw [decide_eq_true_eq] at *
    exact le_antisymm hab hba

theorem nodup_eraseDups {α : Type} [BEq α] [LawfulBEq α] (xs : List α) : xs.eraseDups.Nodup := by
  induction hlength : xs.length using Nat.strong_induction_on generalizing xs with
  | _ n ih =>
    cases xs with
    | nil => simp
    | cons x rest =>
        rw [List.eraseDups_cons, List.nodup_cons]
        have hshorter := List.length_filter_le (fun b => !b == x) rest
        refine ⟨by simp, ih _ ?_ _ rfl⟩
        simp only [List.length_cons] at hlength
        omega

section Sorting

variable {α : Type} {le : α → α → Bool} {xs ys : List α}

/-- It is enough that the order tells apart what is sorted. -/
theorem mergeSort_eq_of_perm_of_antisymm (htrans : ∀ a b c, le a b = true → le b c = true → le a c = true)
    (htotal : ∀ a b, (le a b || le b a) = true)
    (hanti : ∀ a ∈ xs, ∀ b ∈ xs, le a b = true → le b a = true → a = b) (h : xs.Perm ys) :
    xs.mergeSort le = ys.mergeSort le := by
  refine List.Perm.eq_of_pairwise ?_ (List.pairwise_mergeSort htrans htotal xs)
    (List.pairwise_mergeSort htrans htotal ys) ?_
  · intro a b ha hb
    exact hanti a (List.mem_mergeSort.mp ha) b (h.mem_iff.mpr (List.mem_mergeSort.mp hb))
  · exact (List.mergeSort_perm xs le).trans (h.trans (List.mergeSort_perm ys le).symm)

theorem mergeSort_eq_of_perm (hle : LinearlyOrders le) (h : xs.Perm ys) : xs.mergeSort le = ys.mergeSort le :=
  mergeSort_eq_of_perm_of_antisymm hle.trans hle.total (fun a _ b _ => hle.antisymm a b) h

/-- The keys of things that are sorted by them stand in one order. -/
theorem map_mergeSort_eq_of_perm {key : α → String} (keep : α → Bool) (h : xs.Perm ys) :
    ((xs.mergeSort fun a b => decide (key a ≤ key b)).filter keep).map key =
      ((ys.mergeSort fun a b => decide (key a ≤ key b)).filter keep).map key := by
  have hsorted : ∀ zs : List α, (((zs.mergeSort fun a b => decide (key a ≤ key b)).filter keep).map key).Pairwise
      fun a b => decide (a ≤ b) = true := fun zs =>
    List.pairwise_map.mpr ((List.pairwise_mergeSort (fun a b c => linearlyOrders_le.trans (key a) (key b) (key c))
      (fun a b => linearlyOrders_le.total (key a) (key b)) zs).filter keep)
  refine List.Perm.eq_of_pairwise (fun a b _ _ => linearlyOrders_le.antisymm a b) (hsorted xs) (hsorted ys) ?_
  exact (((List.mergeSort_perm xs _).trans (h.trans (List.mergeSort_perm ys _).symm)).filter keep).map key

end Sorting

/-- Keys that are gathered in different orders from the same texts are sorted alike. -/
theorem mergeSort_eraseDups_eq {le : String → String → Bool} (hle : LinearlyOrders le) {xs ys keys keys' : List String}
    (hkeys : keys.Perm xs.eraseDups) (hkeys' : keys'.Perm ys.eraseDups) (h : ∀ x, x ∈ xs ↔ x ∈ ys) :
    keys.mergeSort le = keys'.mergeSort le := by
  refine mergeSort_eq_of_perm hle (hkeys.trans (List.Perm.trans ?_ hkeys'.symm))
  rw [List.perm_ext_iff_of_nodup (nodup_eraseDups xs) (nodup_eraseDups ys)]
  simpa using h

end ClientForge.Text
