import Mathlib.Data.List.Lex

/-!
# Two orders of texts

Texts are ordered by their characters here, and by their UTF-16 code units in programs that compare them
ordinally. Both orders are linear (`eq_of_ordinalLe` is the part that is not obvious: the code units of a text
determine it), but they differ where a character beyond the first plane meets one from the end of it.
`mergeSort_eq_iff` says when two orders sort a list in the same way.
-/

namespace ClientForge.Text

/-! ### Code units -/

/-- The UTF-16 code units of a character. -/
def codeUnitsOf (c : Char) : List Nat :=
  if c.toNat < 0x10000 then [c.toNat]
  else [0xD800 + (c.toNat - 0x10000) / 0x400, 0xDC00 + (c.toNat - 0x10000) % 0x400]

def codeUnits (s : String) : List Nat := s.toList.flatMap codeUnitsOf

theorem toNat_valid (c : Char) : c.toNat < 0xD800 ∨ 0xDFFF < c.toNat ∧ c.toNat < 0x110000 :=
  c.valid

/-- The first code units tell the first character. -/
theorem codeUnitsOf_append_inj {c d : Char} {us vs : List Nat}
    (h : codeUnitsOf c ++ us = codeUnitsOf d ++ vs) : c = d ∧ us = vs := by
  have hc := toNat_valid c
  have hd := toNat_valid d
  unfold codeUnitsOf at h
  split at h <;> split at h <;>
    simp only [List.cons_append, List.nil_append, List.cons.injEq] at h
  · exact ⟨Char.toNat_inj.mp h.1, h.2⟩
  · omega
  · omega
  · exact ⟨Char.toNat_inj.mp (by omega), h.2.2⟩

theorem flatMap_codeUnitsOf_inj {cs ds : List Char}
    (h : cs.flatMap codeUnitsOf = ds.flatMap codeUnitsOf) : cs = ds := by
  have hne : ∀ (c : Char) (us : List Nat), codeUnitsOf c ++ us ≠ [] := by
    intro c us
    unfold codeUnitsOf
    split <;> simp
  induction cs generalizing ds with
  | nil =>
      cases ds with
      | nil => rfl
      | cons d ds => exact (hne d _ h.symm).elim
  | cons c cs ih =>
      cases ds with
      | nil => exact (hne c _ h).elim
      | cons d ds =>
          obtain ⟨rfl, hrest⟩ := codeUnitsOf_append_inj h
          rw [ih hrest]

/-- Whether a text is not after another by code units. -/
def ordinalLe (s t : String) : Bool := decide (codeUnits s ≤ codeUnits t)

theorem ordinalLe_trans {s t u : String} (h : ordinalLe s t = true) (h' : ordinalLe t u = true) :
    ordinalLe s u = true := by
  simp only [ordinalLe, decide_eq_true_eq] at *
  exact le_trans h h'

theorem ordinalLe_total (s t : String) : (ordinalLe s t || ordinalLe t s) = true := by
  simp only [ordinalLe, Bool.or_eq_true, decide_eq_true_eq]
  exact le_total _ _

theorem eq_of_ordinalLe {s t : String} (h : ordinalLe s t = true) (h' : ordinalLe t s = true) :
    s = t := by
  simp only [ordinalLe, decide_eq_true_eq] at *
  exact String.toList_inj.mp (flatMap_codeUnitsOf_inj (le_antisymm h h'))

/-! ### Sorting by two orders -/

/-- Two orders sort a list in the same way if and only if they agree on its elements. -/
theorem mergeSort_eq_iff {α : Type} {le le' : α → α → Bool} {xs : List α}
    (htrans : ∀ a b c, le a b → le b c → le a c) (htotal : ∀ a b, le a b || le b a)
    (htrans' : ∀ a b c, le' a b → le' b c → le' a c) (htotal' : ∀ a b, le' a b || le' b a)
    (hanti : ∀ a ∈ xs, ∀ b ∈ xs, le a b → le b a → a = b)
    (hanti' : ∀ a ∈ xs, ∀ b ∈ xs, le' a b → le' b a → a = b) :
    xs.mergeSort le = xs.mergeSort le' ↔ ∀ a ∈ xs, ∀ b ∈ xs, le a b = le' a b := by
  have hsorted := List.pairwise_mergeSort htrans htotal xs
  have hsorted' := List.pairwise_mergeSort htrans' htotal' xs
  constructor
  · intro heq
    -- what stands first in the common result is not after the other in both orders
    have hboth : (xs.mergeSort le).Pairwise fun a b => le a b = true ∧ le' a b = true := by
      rw [List.pairwise_and_iff]
      exact ⟨hsorted, heq ▸ hsorted'⟩
    have hrefl : ∀ a, le a a = le' a a := by
      intro a
      have h := htotal a a
      have h' := htotal' a a
      rw [Bool.or_self] at h h'
      rw [h, h']
    have hforward : (xs.mergeSort le).Pairwise fun a b => le a b = le' a b :=
      hboth.imp fun ⟨h, h'⟩ => h.trans h'.symm
    have hbackward : (xs.mergeSort le).Pairwise (flip fun a b => le a b = le' a b) := by
      refine hboth.imp_of_mem fun {a b} ha hb ⟨h, h'⟩ => ?_
      rw [List.mem_mergeSort] at ha hb
      rw [flip, Bool.eq_iff_iff]
      constructor
      · intro hba
        cases hanti a ha b hb h hba
        exact h'
      · intro hba
        cases hanti' a ha b hb h' hba
        exact h
    intro a ha b hb
    exact List.Pairwise.forall_of_forall_of_flip (fun a _ => hrefl a) hforward hbackward
      (List.mem_mergeSort.mpr ha) (List.mem_mergeSort.mpr hb)
  · intro hagree
    have hresorted : (xs.mergeSort le).Pairwise fun a b => le' a b = true := by
      refine hsorted.imp_of_mem fun {a b} ha hb h => ?_
      rwa [← hagree a (List.mem_mergeSort.mp ha) b (List.mem_mergeSort.mp hb)]
    refine List.Perm.eq_of_pairwise ?_ hresorted hsorted' ?_
    · intro a b ha hb
      exact hanti' a (List.mem_mergeSort.mp ha) b (List.mem_mergeSort.mp hb)
    · exact (List.mergeSort_perm xs le).trans (List.mergeSort_perm xs le').symm

end ClientForge.Text
