import ClientForge.Output.FileSink
import ClientForge.Proofs.Output.Memory
import Mathlib.Data.List.Nodup

/-!
# What is where on a disk

A disk is known by what it has at each place. Every change is about a few places (`Change.places`) and leaves the
others as they are; what it does at its own is said by one lemma for each kind of change.

* **`get?_applyAll_of_notMem`.** Changes leave alone what they are not about.
* **`get?_applyAll_directories`.** Directories are where they were made, and nothing else is changed.
* **`freshPlace_spec`.** There is always a free name for a temporary file.
-/

namespace ClientForge.Output

/-- The places that a change is about. -/
def Change.places : Change → List Place
  | .makeDirectory at_ | .fill at_ _ _ | .remove at_ => [at_]
  | .move source target => [source, target]
  | .link _ target => [target]

namespace Disk

variable {d : Disk} {p q : Place} {e : Entry}

/-! ### Putting and erasing -/

@[simp]
theorem get?_nil (d : Disk) : d.get? [] = some .directory := rfl

theorem get?_put (hq : q ≠ []) : (d.put p e).get? q = if q = p then some e else d.get? q := by
  by_cases h : q = p
  · subst h
    simp [get?, put, hq]
  · have hother : (q == p) = false := by simpa using h
    simp [get?, put, hq, h, List.lookup_cons, hother, lookup_filter_ne h]

theorem get?_erase (hq : q ≠ []) : (d.erase p).get? q = if q = p then none else d.get? q := by
  by_cases h : q = p
  · subst h
    have hgone : (d.entries.filter (·.1 != q)).lookup q = none := by
      refine List.lookup_eq_none_iff.mpr fun x hx => ?_
      have hother : x.1 ≠ q := by simpa using (List.mem_filter.mp hx).2
      simpa using hother.symm
    simp [get?, erase, hq, hgone]
  · simp [get?, erase, hq, h, lookup_filter_ne h]

theorem get?_put_of_ne (h : q ≠ p) : (d.put p e).get? q = d.get? q := by
  by_cases hq : q = []
  · subst hq
    rfl
  · rw [get?_put hq, if_neg h]

theorem get?_erase_of_ne (h : q ≠ p) : (d.erase p).get? q = d.get? q := by
  by_cases hq : q = []
  · subst hq
    rfl
  · rw [get?_erase hq, if_neg h]

/-! ### Changes -/

theorem get?_apply_of_notMem {change : Change} (h : q ∉ change.places) : (d.apply change).get? q = d.get? q := by
  cases change with
  | makeDirectory at_ | fill at_ content mode => exact get?_put_of_ne (by simpa [Change.places] using h)
  | remove at_ => exact get?_erase_of_ne (by simpa [Change.places] using h)
  | move source target =>
      obtain ⟨hsource, htarget⟩ : q ≠ source ∧ q ≠ target := by simpa [Change.places] using h
      simp only [apply]
      split
      · rw [get?_put_of_ne htarget, get?_erase_of_ne hsource]
      · rfl
  | link source target =>
      simp only [apply]
      split
      · exact get?_put_of_ne (by simpa [Change.places] using h)
      · rfl

@[simp]
theorem applyAll_nil (d : Disk) : d.applyAll [] = d := rfl

@[simp]
theorem applyAll_cons (d : Disk) (change : Change) (changes : List Change) :
    d.applyAll (change :: changes) = (d.apply change).applyAll changes := rfl

@[simp]
theorem applyAll_append (d : Disk) (first second : List Change) :
    d.applyAll (first ++ second) = (d.applyAll first).applyAll second := List.foldl_append ..

/-- Changes leave alone what they are not about. -/
theorem get?_applyAll_of_notMem {changes : List Change} (h : ∀ change ∈ changes, q ∉ change.places) :
    (d.applyAll changes).get? q = d.get? q := by
  induction changes generalizing d with
  | nil => rfl
  | cons change changes ih =>
      obtain ⟨hfirst, hrest⟩ := List.forall_mem_cons.mp h
      rw [applyAll_cons, ih hrest, get?_apply_of_notMem hfirst]

/-- Directories are where they were made, and nothing else is changed. -/
theorem get?_applyAll_directories (places : List Place) :
    (d.applyAll (places.map .makeDirectory)).get? q = if q ∈ places then some .directory else d.get? q := by
  by_cases hq : q = []
  · simp [hq]
  · induction places generalizing d with
    | nil => simp
    | cons place places ih =>
        rw [List.map_cons, applyAll_cons, ih, apply, get?_put hq]
        by_cases hmem : q ∈ places <;> by_cases heq : q = place <;> simp [hmem, heq]

/-- A place at which something is, is listed. -/
theorem mem_places_of_isSome (hq : q ≠ []) (h : (d.get? q).isSome) : q ∈ d.entries.map (·.1) := by
  by_contra hmem
  have hnone : d.entries.lookup q = none := List.lookup_eq_none_iff.mpr fun x hx => by
    have hother : x.1 ≠ q := fun heq => hmem (heq ▸ List.mem_map_of_mem hx)
    simpa using hother.symm
  simp [get?, hq, hnone] at h

end Disk

/-! ### Temporary files -/

namespace FileSink

theorem temporaryName_injective {m n : Nat} (h : temporaryName m = temporaryName n) : m = n := by
  have hrepr : Nat.repr m = Nat.repr n := by simpa [temporaryName] using h
  have hdigits : Nat.toDigits 10 m = Nat.toDigits 10 n := by
    rw [← Nat.toList_repr, ← Nat.toList_repr, hrepr]
  calc
    m = Nat.ofDigitChars 10 (Nat.toDigits 10 m) 0 := Nat.ofDigitChars_ten_toDigits.symm
    _ = Nat.ofDigitChars 10 (Nat.toDigits 10 n) 0 := by rw [hdigits]
    _ = n := Nat.ofDigitChars_ten_toDigits

variable (d : Disk) (dir : Place) (draw : Nat)

/-- The places that are tried for a temporary file. -/
def tried : List Place := (List.range (d.entries.length + 1)).map fun n => dir ++ [temporaryName (draw + n)]

/-- There are more names to try than places where something is, so one of them is free. -/
theorem exists_free : ∃ n < d.entries.length + 1, d.get? (dir ++ [temporaryName (draw + n)]) = none := by
  by_contra hfull
  have hsome : ∀ n < d.entries.length + 1, (d.get? (dir ++ [temporaryName (draw + n)])).isSome := fun n hn =>
    Option.isSome_iff_ne_none.mpr fun hnone => hfull ⟨n, hn, hnone⟩
  have hnodup : (tried d dir draw).Nodup := List.nodup_range.map fun m n h => by
    have hname : temporaryName (draw + m) = temporaryName (draw + n) := by simpa using h
    exact Nat.add_left_cancel (temporaryName_injective hname)
  have hsub : tried d dir draw ⊆ d.entries.map (·.1) := fun p hp => by
    obtain ⟨n, hn, rfl⟩ := List.mem_map.mp hp
    exact Disk.mem_places_of_isSome (by simp) (hsome n (List.mem_range.mp hn))
  have hlength := (List.subperm_of_subset hnodup hsub).length_le
  simp only [tried, List.length_map, List.length_range] at hlength
  omega

/-- The temporary file has a free name in its directory, from the number that was drawn on. -/
theorem freshPlace_spec :
    d.get? (freshPlace d dir draw) = none ∧ ∃ n, draw ≤ n ∧ freshPlace d dir draw = dir ++ [temporaryName n] := by
  obtain ⟨n, hn, hfree⟩ := exists_free d dir draw
  let free (n : Nat) : Bool := (d.get? (dir ++ [temporaryName n])).isNone
  have hfound : (((List.range (d.entries.length + 1)).map (draw + ·)).find? free).isSome :=
    List.find?_isSome.mpr ⟨draw + n, List.mem_map_of_mem (List.mem_range.mpr hn), by simp [free, hfree]⟩
  obtain ⟨m, hm⟩ := Option.isSome_iff_exists.mp hfound
  have hplace : freshPlace d dir draw = dir ++ [temporaryName m] := by simp [freshPlace, free, hm]
  have hdrawn : draw ≤ m := by
    obtain ⟨k, -, rfl⟩ := List.mem_map.mp (List.mem_of_find?_eq_some hm)
    exact Nat.le_add_right draw k
  refine ⟨?_, m, hdrawn, hplace⟩
  rw [hplace]
  simpa [free] using List.find?_some hm

end FileSink

end ClientForge.Output
