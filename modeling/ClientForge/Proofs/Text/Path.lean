import ClientForge.Proofs.Text.Pieces
import ClientForge.Text.Path

/-!
# Paths without dots

A path without dots for parts is its own way: cleaning it drops empty parts and nothing else. So two such paths
have one shortest form exactly if they start at the same place and have the same parts, the empty ones left
out (`clean_eq_clean_iff`).
-/

namespace ClientForge.Text.Path

/-- The parts of a path that are not empty. -/
def words (path : String) : List String := (split '/' path).filter (· ≠ "")

/-- Whether a path has no dots for parts. -/
def Plain (path : String) : Prop := ∀ part ∈ split '/' path, part ≠ "." ∧ part ≠ ".."

section Clean

variable {a b : String}

/-- Where nothing climbs or stays, only empty parts are left out. -/
theorem foldl_step {rooted : Bool} {parts : List String} (h : ∀ part ∈ parts, part ≠ "." ∧ part ≠ "..")
    (path : List String) :
    parts.foldl (step rooted) path = (parts.filter (· ≠ "")).reverse ++ path := by
  induction parts generalizing path with
  | nil => rfl
  | cons part parts ih =>
      obtain ⟨⟨hdot, hdots⟩, hparts⟩ := List.forall_mem_cons.mp h
      rw [List.foldl_cons, ih hparts]
      by_cases hempty : part = ""
      · simp [step, hempty]
      · simp [step, hempty, hdot, hdots]

/-- The shortest form of such a path is made of its words. -/
theorem clean_of_plain (h : Plain a) :
    clean a =
      if startsWith a "/" then "/" ++ "/".intercalate (words a)
      else if words a = [] then "." else "/".intercalate (words a) := by
  simp only [clean, foldl_step h, List.append_nil, List.reverse_reverse, List.isEmpty_iff]
  rfl

/-- The parts of a path are neither empty, nor do they have slashes. -/
theorem word_spec {word : String} (h : word ∈ words a) : word ≠ "" ∧ '/' ∉ word.toList := by
  obtain ⟨hmem, hne⟩ := List.mem_filter.mp h
  exact ⟨by simpa using hne, notMem_of_mem_split hmem⟩

theorem split_intercalate_words (h : words a ≠ []) : split '/' ("/".intercalate (words a)) = words a :=
  split_intercalate h fun _ hword => (word_spec hword).2

theorem intercalate_words_eq_empty (h : "/".intercalate (words a) = "") : words a = [] := by
  by_contra hne
  have hparts := split_intercalate_words hne
  rw [h] at hparts
  exact (word_spec (hparts ▸ (by decide : "" ∈ split '/' ""))).1 rfl

theorem intercalate_words_inj (h : "/".intercalate (words a) = "/".intercalate (words b)) : words a = words b := by
  by_cases ha : words a = []
  · rw [ha, intercalate_words_eq_empty (h.symm.trans (by simp [ha]))]
  · by_cases hb : words b = []
    · exact absurd (intercalate_words_eq_empty (h.trans (by simp [hb]))) ha
    · rw [← split_intercalate_words ha, h, split_intercalate_words hb]

theorem intercalate_words_ne_dot (h : Plain a) : "/".intercalate (words a) ≠ "." := by
  intro hdot
  have hne : words a ≠ [] := by
    intro hnil
    simp [hnil] at hdot
  have hparts := split_intercalate_words hne
  rw [hdot] at hparts
  have hmem : "." ∈ words a := hparts ▸ (by decide : "." ∈ split '/' ".")
  exact (h "." (List.mem_filter.mp hmem).1).1 rfl

/-- What starts with a slash has an empty part in front. -/
theorem head?_intercalate_words (h : words a ≠ []) : ("/".intercalate (words a)).toList.head? ≠ some '/' := by
  intro hhead
  obtain ⟨rest, hrest⟩ := List.head?_eq_some_iff.mp hhead
  have hsplit : split '/' ("/".intercalate (words a)) = "" :: split '/' (.ofList rest) := by
    simp [split, hrest, List.splitOn_cons_eq_if_modifyHead]
  rw [split_intercalate_words h] at hsplit
  exact (word_spec (hsplit ▸ List.mem_cons_self)).1 rfl

/-- The shortest form of a path starts with a slash where the path does. -/
theorem head?_clean (h : Plain a) : (clean a).toList.head? = some '/' ↔ startsWith a "/" = true := by
  rw [clean_of_plain h]
  by_cases hrooted : startsWith a "/"
  · simp [hrooted]
  · by_cases hnil : words a = []
    · simp [hrooted, hnil]
    · simpa [hrooted, hnil] using head?_intercalate_words hnil

/-- Two such paths have the same shortest form exactly if they have the same words and both are absolute or neither is.
-/
theorem clean_eq_clean_iff (ha : Plain a) (hb : Plain b) :
    clean a = clean b ↔ startsWith a "/" = startsWith b "/" ∧ words a = words b := by
  constructor
  · intro h
    have hrooted : startsWith a "/" = startsWith b "/" := by
      rw [Bool.eq_iff_iff, ← head?_clean ha, h, head?_clean hb]
    refine ⟨hrooted, ?_⟩
    rw [clean_of_plain ha, clean_of_plain hb, ← hrooted] at h
    split at h
    · exact intercalate_words_inj (String.append_right_inj _ |>.mp h)
    · split at h <;> split at h
      · next hwords hwords' => rw [hwords, hwords']
      · exact absurd h.symm (intercalate_words_ne_dot hb)
      · exact absurd h (intercalate_words_ne_dot ha)
      · exact intercalate_words_inj h
  · rintro ⟨hrooted, hwords⟩
    rw [clean_of_plain ha, clean_of_plain hb, hrooted, hwords]

end Clean

end ClientForge.Text.Path
