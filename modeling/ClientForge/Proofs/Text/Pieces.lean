import ClientForge.Proofs.Text.Pascal

/-!
# Pieces of texts

Taking a text apart gives back what it was put together from: what stands before and behind a last mark
(`splitLast_append`), what stands in front of an ending (`dropBack_append`), and the pieces between separators
(`split_append`, `split_append_of_notMem`).
-/

namespace ClientForge.Text

theorem dropFront_append (front rest : String) : dropFront (front ++ rest) front = rest := by
  have hprefix : front.toList.isPrefixOf? (front ++ rest).toList = some rest.toList :=
    List.isPrefixOf?_eq_some_iff_append_eq.mpr String.toList_append.symm
  rw [dropFront, hprefix, Option.map_some, Option.getD_some, String.ofList_toList]

/-- What is left of a text stands behind the front that is dropped, or is the whole text for want of that front. -/
theorem dropFront_cases (s front : String) :
    front ++ dropFront s front = s ∨ dropFront s front = s ∧ startsWith s front = false := by
  unfold dropFront startsWith
  rw [← List.isSome_isPrefixOf?_eq_isPrefixOf]
  cases hrest : front.toList.isPrefixOf? s.toList with
  | none => exact .inr ⟨rfl, rfl⟩
  | some rest =>
      refine .inl (String.toList_inj.mp ?_)
      simpa using List.isPrefixOf?_eq_some_iff_append_eq.mp hrest

theorem dropFront_suffix (s front : String) : (dropFront s front).toList <:+ s.toList := by
  rcases dropFront_cases s front with hfront | ⟨hsame, -⟩
  · exact ⟨front.toList, by rw [← String.toList_append, hfront]⟩
  · rw [hsame]

theorem dropBack_append (s back : String) : dropBack (s ++ back) back = s := by
  have hsuffix : back.toList.isSuffixOf? (s ++ back).toList = some s.toList :=
    List.isSuffixOf?_eq_some_iff_append_eq.mpr String.toList_append.symm
  rw [dropBack, hsuffix, Option.map_some, Option.getD_some, String.ofList_toList]

theorem startsWith_iff {s front : String} : startsWith s front = true ↔ front.toList <+: s.toList :=
  List.isPrefixOf_iff_prefix

theorem startsWith_append (front rest : String) : startsWith (front ++ rest) front = true :=
  startsWith_iff.mpr (by simp)

theorem endsWith_append (s back : String) : endsWith (s ++ back) back = true :=
  List.isSuffixOf_iff_suffix.mpr (by simp)

/-- A text is split at the last mark. -/
theorem splitLast_append {sep : Char} {front back : String} (h : sep ∉ back.toList) :
    splitLast sep (front ++ String.ofList [sep] ++ back) = (some front, back) := by
  have hback : ∀ c ∈ back.toList.reverse, decide (c ≠ sep) = true := by
    intro c hc
    have hne : c ≠ sep := fun heq => h (heq ▸ List.mem_reverse.mp hc)
    simpa using hne
  have hlist : (front ++ String.ofList [sep] ++ back).toList.reverse =
      back.toList.reverse ++ sep :: front.toList.reverse := by simp
  unfold splitLast
  rw [hlist]
  dsimp only
  rw [List.takeWhile_append_of_pos hback, List.dropWhile_append_of_pos hback]
  simp

theorem splitLast_of_notMem {sep : Char} {s : String} (h : sep ∉ s.toList) : splitLast sep s = (none, s) := by
  have hall : ∀ c ∈ s.toList.reverse, decide (c ≠ sep) = true := by
    intro c hc
    have hne : c ≠ sep := fun heq => h (heq ▸ List.mem_reverse.mp hc)
    simpa using hne
  unfold splitLast
  dsimp only
  rw [List.takeWhile_eq_self_iff.mpr hall, List.dropWhile_eq_nil_iff.mpr hall]
  simp

/-! ### Pieces between separators -/

section Separators

variable {sep : Char}

theorem split_ne_nil (s : String) : split sep s ≠ [] := by
  simp [split]

/-- A piece is made of what the text is made of, but for the separator. -/
theorem mem_of_mem_splitOn {cs piece : List Char} (h : piece ∈ cs.splitOn sep) {c : Char} (hc : c ∈ piece) :
    c ≠ sep ∧ c ∈ cs := by
  induction cs generalizing piece with
  | nil =>
      obtain rfl : piece = [] := by simpa using h
      cases hc
  | cons first rest ih =>
      have hlater : ∀ {piece : List Char}, piece ∈ rest.splitOn sep → c ∈ piece → c ≠ sep ∧ c ∈ first :: rest :=
        fun hpiece hc => ⟨(ih hpiece hc).1, .tail _ (ih hpiece hc).2⟩
      rw [List.splitOn_cons_eq_if_modifyHead] at h
      split at h
      · rcases List.mem_cons.mp h with rfl | h
        · cases hc
        · exact hlater h hc
      · next hfirst =>
        obtain ⟨piece', pieces, hsplit⟩ := List.exists_cons_of_ne_nil (List.splitOn_ne_nil sep rest)
        rw [hsplit, List.modifyHead_cons] at h
        rcases List.mem_cons.mp h with rfl | h
        · rcases List.mem_cons.mp hc with rfl | hc
          · exact ⟨by simpa using hfirst, .head _⟩
          · exact hlater (by simp [hsplit]) hc
        · exact hlater (by simp [hsplit, h]) hc

theorem mem_of_mem_split {s part : String} (h : part ∈ split sep s) {c : Char} (hc : c ∈ part.toList) :
    c ≠ sep ∧ c ∈ s.toList := by
  obtain ⟨piece, hpiece, rfl⟩ := List.mem_map.mp h
  exact mem_of_mem_splitOn hpiece (by simpa using hc)

theorem notMem_of_mem_split {s part : String} (h : part ∈ split sep s) : sep ∉ part.toList := fun hc =>
  (mem_of_mem_split h hc).1 rfl

/-- What is joined consists of the parts and the mark. -/
theorem mem_of_mem_intercalate {parts : List String} {c : Char}
    (h : c ∈ ((String.ofList [sep]).intercalate parts).toList) : c = sep ∨ ∃ part ∈ parts, c ∈ part.toList := by
  induction parts with
  | nil => cases h
  | cons part parts ih =>
      cases parts with
      | nil => exact .inr ⟨part, List.mem_cons_self, by simpa using h⟩
      | cons next parts =>
          simp only [String.intercalate_cons_cons, String.toList_append, String.toList_ofList, List.mem_append,
            List.mem_singleton] at h
          rcases h with (h | h) | h
          · exact .inr ⟨part, List.mem_cons_self, h⟩
          · exact .inl h
          · rcases ih h with h | ⟨found, hfound, h⟩
            · exact .inl h
            · exact .inr ⟨found, List.mem_cons_of_mem _ hfound, h⟩

theorem split_append (a b : String) :
    split sep (a ++ String.ofList [sep] ++ b) = split sep a ++ split sep b := by
  simp [split, List.splitOn_append_cons_self]

/-- Two separators in a row have an empty piece between them. -/
theorem empty_mem_split {s : String} (h : [sep, sep] <:+: s.toList) : "" ∈ split sep s := by
  obtain ⟨front, back, heq⟩ := h
  have hs : s = .ofList front ++ .ofList [sep] ++ ("" ++ .ofList [sep] ++ .ofList back) := by
    rw [← String.toList_inj, ← heq]
    simp
  rw [hs, split_append, split_append]
  simp [split]

theorem split_of_notMem {s : String} (h : sep ∉ s.toList) : split sep s = [s] := by
  simp [split, List.splitOn_eq_singleton h]

/-- One more part at the end. -/
theorem intercalate_append_singleton {sep : String} {front : List String} (hfront : front ≠ []) (last : String) :
    sep.intercalate (front ++ [last]) = sep.intercalate front ++ sep ++ last := by
  rw [String.intercalate_append_of_ne_nil hfront (List.cons_ne_nil _ _), String.intercalate_singleton]

/-- What stands behind the last piece stands behind the whole. -/
theorem intercalate_append_ending (sep : String) (front : List String) (last ending : String) :
    sep.intercalate (front ++ [last ++ ending]) = sep.intercalate (front ++ [last]) ++ ending := by
  cases front with
  | nil => rfl
  | cons piece front => simp only [intercalate_append_singleton (List.cons_ne_nil piece front), String.append_assoc]

/-- An ending without separators belongs to the last piece. -/
theorem split_append_of_notMem {s ending : String} (h : sep ∉ ending.toList) :
    split sep (s ++ ending) = (split sep s).dropLast ++ [(split sep s).getLast (split_ne_nil s) ++ ending] := by
  have hpieces := List.dropLast_append_getLast (split_ne_nil s : split sep s ≠ [])
  have hparts : ∀ part ∈ split sep s, sep ∉ part.toList := fun _ => notMem_of_mem_split
  have hs := intercalate_split sep s
  generalize (split sep s).dropLast = front at *
  generalize (split sep s).getLast (split_ne_nil s) = last at *
  rw [← hpieces] at hs hparts
  have hjoin : (String.ofList [sep]).intercalate (front ++ [last ++ ending]) = s ++ ending := by
    rw [← hs, intercalate_append_ending]
  rw [← hjoin, split_intercalate (by simp)]
  intro part hpart
  rcases List.mem_append.mp hpart with hfront | hlast
  · exact hparts part (List.mem_append_left _ hfront)
  · rw [List.mem_singleton.mp hlast, String.toList_append, List.mem_append]
    exact not_or.mpr ⟨hparts last (by simp), h⟩

end Separators

end ClientForge.Text
