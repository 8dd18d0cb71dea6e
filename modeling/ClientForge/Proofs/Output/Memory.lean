import ClientForge.Output.Memory
import Mathlib.Data.Finset.Card

/-!
# Files in memory

Memory keeps one file for each path, and the later file wins.

* **`get?_putAll`.** Files with distinct paths are all there afterwards.
* **`length_putAll_iff`.** There are as many files as were put exactly if their paths are distinct.
-/

namespace ClientForge.Output

/-- Dropping the entries of one key leaves those of the others. -/
theorem lookup_filter_ne {α β : Type} [BEq α] [LawfulBEq α] {key x : α} (hx : x ≠ key) (entries : List (α × β)) :
    (entries.filter (·.1 != key)).lookup x = entries.lookup x := by
  induction entries with
  | nil => rfl
  | cons entry entries ih =>
      obtain ⟨name, content⟩ := entry
      by_cases hname : name = key
      · have hskip : (x == key) = false := by simpa using hx
        simpa [hname, List.lookup_cons, hskip] using ih
      · simp [hname, List.lookup_cons, ih]

namespace Memory

variable {m : Memory} {files : List (String × String)}

/-- Puts files into memory, one after another. -/
def putAll (m : Memory) (files : List (String × String)) : Memory := files.foldl (fun m f => m.put f.1 f.2) m

/-- A file is found under the path that it was put at, and the others are where they were. -/
theorem get?_put (m : Memory) (path content x : String) :
    (m.put path content).get? x = if x = path then some content else m.get? x := by
  by_cases hx : x = path
  · simp [get?, put, hx]
  · have hother : (x == path) = false := by simpa using hx
    simp [get?, put, hx, List.lookup_cons, hother, lookup_filter_ne hx]

theorem get?_putAll_of_notMem {x : String} (h : x ∉ files.map (·.1)) : (m.putAll files).get? x = m.get? x := by
  induction files generalizing m with
  | nil => rfl
  | cons f files ih =>
      obtain ⟨hf, hfiles⟩ : x ≠ f.1 ∧ x ∉ files.map (·.1) := by simpa using h
      have hrest := ih (m := m.put f.1 f.2) hfiles
      rwa [get?_put, if_neg hf] at hrest

theorem get?_putAll (h : (files.map (·.1)).Nodup) {f : String × String} (hf : f ∈ files) :
    (m.putAll files).get? f.1 = some f.2 := by
  induction files generalizing m with
  | nil => cases hf
  | cons first files ih =>
      obtain ⟨hfirst, hfiles⟩ : first.1 ∉ files.map (·.1) ∧ (files.map (·.1)).Nodup := by simpa using h
      rcases List.mem_cons.mp hf with rfl | hf
      · change ((m.put f.1 f.2).putAll files).get? f.1 = some f.2
        rw [get?_putAll_of_notMem hfirst, get?_put, if_pos rfl]
      · exact ih hfiles hf

/-- A path is listed once, in front. -/
theorem paths_put (m : Memory) (path content : String) :
    (m.put path content).files.map (·.1) = path :: (m.files.map (·.1)).filter (· != path) := by
  simp [put, List.filter_map, Function.comp_def]

theorem nodup_paths_putAll (h : (m.files.map (·.1)).Nodup) : ((m.putAll files).files.map (·.1)).Nodup := by
  induction files generalizing m with
  | nil => exact h
  | cons f files ih =>
      refine ih ?_
      rw [paths_put, List.nodup_cons]
      exact ⟨by simp, h.filter _⟩

theorem mem_paths_putAll {x : String} :
    x ∈ (m.putAll files).files.map (·.1) ↔ x ∈ m.files.map (·.1) ∨ x ∈ files.map (·.1) := by
  induction files generalizing m with
  | nil => simp [putAll]
  | cons f files ih =>
      change x ∈ ((m.put f.1 f.2).putAll files).files.map (·.1) ↔ _
      rw [ih, paths_put]
      by_cases hx : x = f.1
      · simp [hx]
      · simp [hx]

/-- No file is lost exactly if all paths are distinct. -/
theorem length_putAll_iff (files : List (String × String)) :
    (putAll {} files).files.length = files.length ↔ (files.map (·.1)).Nodup := by
  have hnodup : ((putAll {} files).files.map (·.1)).Nodup := nodup_paths_putAll (by simp)
  have hsame : ((putAll {} files).files.map (·.1)).toFinset = (files.map (·.1)).toFinset := by
    ext x
    simp [mem_paths_putAll]
  have hlength := List.toFinset_card_of_nodup hnodup
  rw [hsame, List.length_map] at hlength
  have hdistinct :=
    Multiset.toFinset_card_eq_card_iff_nodup (m := ((files.map (·.1) : List String) : Multiset String))
  rw [List.toFinset_coe, Multiset.coe_card, List.length_map, hlength, Multiset.coe_nodup] at hdistinct
  exact hdistinct

end Memory

end ClientForge.Output
