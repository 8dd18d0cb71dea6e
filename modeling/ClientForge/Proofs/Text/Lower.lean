import ClientForge.Proofs.Text.Pascal
import ClientForge.Text.Letter

/-!
# Marks in lower case

Names in lower case are put together with marks: dots, dashes and slashes. Lower case neither makes such a mark
nor takes one away (`mem_lower_iff`), since no letter becomes one: ASCII letters stay letters, and what the
tables move ends up above all marks.
-/

namespace ClientForge.Text

/-- The characters of ASCII in front of the letters. -/
def IsMark (c : Char) : Prop := 0 < c.toNat ∧ c.toNat < 0x40

instance (c : Char) : Decidable (IsMark c) := inferInstanceAs (Decidable (_ ∧ _))

theorem lowerRuns_above : ∀ r ∈ lowerRuns, 0x40 ≤ (r.first : Int) + r.offset := by decide +kernel

theorem not_isMark_moveBy {c : Char} (hc : 0x80 ≤ c.toNat) : ¬ IsMark (moveBy lowerRuns c) := by
  unfold moveBy IsMark
  split
  · next r hr =>
    have hrun := lowerRuns_above r (List.mem_of_find?_eq_some hr)
    have hfirst : r.first ≤ c.toNat := by
      have hcontains := List.find?_some hr
      simp only [CaseRun.contains, Bool.and_eq_true, decide_eq_true_eq] at hcontains
      exact hcontains.1.1
    rw [Char.toNat_ofNat]
    split <;> omega
  · omega

theorem not_isMark_toLower {c : Char} (hc : c.isUpper) : ¬ IsMark c.toLower := by
  have hlower : c.toLower.isLower := Char.isLower_toLower_eq_isAlpha c ▸ by simp [Char.isAlpha, hc]
  have hbounds := isLower_iff.mp hlower
  unfold IsMark
  omega

theorem toLower_eq_iff {c mark : Char} (h : IsMark mark) : c.toLower = mark ↔ c = mark := by
  by_cases hupper : c.isUpper
  · refine iff_of_false (fun heq => not_isMark_toLower hupper (heq ▸ h)) (fun heq => ?_)
    have hbounds := isUpper_iff.mp hupper
    rw [heq] at hbounds
    exact absurd h.2 (by omega)
  · rw [Char.toLower_eq_of_not_isUpper hupper]

theorem lowerChar_eq_iff {c mark : Char} (h : IsMark mark) : lowerChar c = mark ↔ c = mark := by
  unfold lowerChar
  split
  · exact toLower_eq_iff h
  · next hhigh =>
    refine iff_of_false (fun heq => not_isMark_moveBy (by omega) (heq ▸ h)) (fun heq => ?_)
    exact absurd h.2 (by rw [← heq]; omega)

theorem mem_lower_iff {s : String} {mark : Char} (h : IsMark mark) :
    mark ∈ (lower s).toList ↔ mark ∈ s.toList := by
  simp [lower, lowerChar_eq_iff h]

end ClientForge.Text
