import ClientForge.Proofs.Text.Pieces

/-!
# Lines, marks and delimiters

Comments end in one of two ways: at the end of their line, or at a delimiter. Here is what a text has to be
like to stand inside one.

* **`Opens`, `Marked`.** A line opens with a mark behind its indentation, and a text is marked if every line
  after its first does. What is put together from marked texts is marked (`marked_append_iff`), and so is what
  has all its lines opened (`forall_splitOn_iff`).
* **`occurrences`.** How often a delimiter stands in a text. Where a character comes in between that the
  delimiter does not have, the occurrences before and behind it add up (`occurrences_append_cons`); all else
  about them follows from that.
-/

namespace ClientForge.Text

/-- A character that the pattern does not have ends every attempt to match it. -/
theorem prefix_append_cons_iff {pattern front back : List Char} {c : Char} (h : c ∉ pattern) :
    pattern <+: front ++ c :: back ↔ pattern <+: front := by
  constructor
  · intro hpattern
    rcases List.prefix_or_prefix_of_prefix hpattern (List.prefix_append front _) with hshort | hlong
    · exact hshort
    · obtain ⟨rest, rfl⟩ := hlong
      have hrest : rest <+: c :: back := (List.prefix_append_right_inj front).mp hpattern
      cases rest with
      | nil => simp
      | cons d rest =>
          have hd : d = c := (List.cons_prefix_cons.mp hrest).1
          exact absurd (by simp [hd]) h
  · intro hpattern
    exact hpattern.trans (List.prefix_append front _)

/-! ### Lines that open with a mark -/

/-- Whether a character can stand in front of the first one of a line. -/
def isIndent (c : Char) : Bool := c == ' ' || c == '\t'

/-- A line starts with a mark, behind its indentation. -/
def Opens (mark line : List Char) : Prop := mark <+: line.dropWhile isIndent

instance (mark line : List Char) : Decidable (Opens mark line) :=
  inferInstanceAs (Decidable (mark <+: line.dropWhile isIndent))

/-- Wherever a line of a text ends, the next one opens with the mark. -/
def Marked (mark text : List Char) : Prop :=
  ∀ before behind, text = before ++ '\n' :: behind → Opens mark behind

section Marks

variable {mark : List Char}

/-- Indenting a line does not matter to what it opens with. -/
theorem opens_append_of_indent {indent : List Char} (h : ∀ c ∈ indent, isIndent c = true) (line : List Char) :
    Opens mark (indent ++ line) ↔ Opens mark line := by
  rw [Opens, List.dropWhile_append_of_pos h]
  rfl

/-- What follows a line has no say in how it opens, if it does not go on like the mark. -/
theorem opens_append_iff (hmark : mark ≠ []) {line back : List Char} (hnext : ∀ c ∈ back.head?, c ∉ mark)
    (hlater : ∀ c ∈ (back.dropWhile isIndent).head?, c ∉ mark) :
    Opens mark (line ++ back) ↔ Opens mark line := by
  unfold Opens
  rw [List.dropWhile_append]
  split
  · next hempty =>
    rw [List.isEmpty_iff.mp hempty]
    obtain ⟨m, mark, rfl⟩ := List.exists_cons_of_ne_nil hmark
    cases hback : back.dropWhile isIndent with
    | nil => rfl
    | cons c back =>
        have hne : c ∉ m :: mark := hlater c (by simp [hback])
        have hm : m ≠ c := fun heq => hne (by simp [heq])
        simp [List.cons_prefix_cons, hm]
  · cases back with
    | nil => rw [List.append_nil]
    | cons c back => exact prefix_append_cons_iff (hnext c rfl)

theorem marked_nil : Marked mark [] := by
  intro before behind h
  simp at h

theorem marked_of_notMem {text : List Char} (h : '\n' ∉ text) : Marked mark text := by
  rintro before behind rfl
  simp at h

/-- A text can be cut in two where what follows does not matter to the line before it. -/
theorem marked_append_iff {front back : List Char}
    (h : ∀ line, Opens mark (line ++ back) ↔ Opens mark line) :
    Marked mark (front ++ back) ↔ Marked mark front ∧ Marked mark back := by
  constructor
  · intro hmarked
    constructor
    · rintro before behind rfl
      exact (h behind).mp (hmarked before (behind ++ back) (by simp))
    · rintro before behind rfl
      exact hmarked (front ++ before) behind (by simp)
  · -- a line ends either in front or behind
    rintro ⟨hfront, hback⟩ before behind heq
    rcases List.append_eq_append_iff.mp heq with ⟨rest, rfl, hrest⟩ | ⟨rest, rfl, hrest⟩
    · exact hback rest behind hrest
    · cases rest with
      | nil => exact hback [] behind hrest.symm
      | cons c rest =>
          obtain ⟨rfl, rfl⟩ := List.cons.inj hrest
          exact (h rest).mpr (hfront before rest rfl)

theorem marked_append_of_notMem {front back : List Char} (h : '\n' ∉ front) :
    Marked mark (front ++ back) ↔ Marked mark back := by
  induction front with
  | nil => rfl
  | cons c front ih =>
      obtain ⟨hc, hfront⟩ := not_or.mp (mt List.mem_cons.mpr h)
      rw [← ih hfront]
      constructor
      · rintro hmarked before behind heq
        exact hmarked (c :: before) behind (by simp [heq])
      · intro hmarked before behind heq
        cases before with
        | nil => exact absurd (List.cons.inj heq).1.symm hc
        | cons d before => exact hmarked before behind (List.cons.inj heq).2

theorem marked_cons_of_ne {c : Char} (hc : c ≠ '\n') (text : List Char) : Marked mark (c :: text) ↔ Marked mark text :=
  @marked_append_of_notMem mark [c] text (by simpa using hc.symm)

theorem marked_cons_newline {text : List Char} :
    Marked mark ('\n' :: text) ↔ Opens mark text ∧ Marked mark text := by
  constructor
  · intro h
    exact ⟨h [] text rfl, fun before behind heq => h ('\n' :: before) behind (by simp [heq])⟩
  · rintro ⟨hopens, hmarked⟩ before behind heq
    cases before with
    | nil =>
        obtain rfl := (List.cons.inj heq).2
        exact hopens
    | cons c before => exact hmarked before behind (List.cons.inj heq).2

/-- The first line opens as the text does, and the others open if the text is marked. -/
theorem exists_splitOn (hmark : mark ≠ []) (hline : '\n' ∉ mark) (text : List Char) :
    ∃ first rest, text.splitOn '\n' = first :: rest ∧
      (∀ front, Opens mark (front ++ first) ↔ Opens mark (front ++ text)) ∧
      ((∀ line ∈ rest, Opens mark line) ↔ Marked mark text) := by
  induction text with
  | nil => exact ⟨[], [], rfl, fun _ => Iff.rfl, by simp [marked_nil]⟩
  | cons c text ih =>
      obtain ⟨first, rest, hsplit, hfirst, hrest⟩ := ih
      by_cases hc : c = '\n'
      · subst hc
        refine ⟨[], first :: rest, by simp [List.splitOn_cons_eq_if_modifyHead, hsplit], fun front => ?_, ?_⟩
        · rw [List.append_nil]
          exact (opens_append_iff hmark (by simpa using hline) (by simpa [isIndent] using hline)).symm
        · rw [List.forall_mem_cons, hrest, marked_cons_newline]
          exact and_congr_left fun _ => hfirst []
      · refine ⟨c :: first, rest, by simp [List.splitOn_cons_eq_if_modifyHead, hc, hsplit], fun front => ?_, ?_⟩
        · simpa using hfirst (front ++ [c])
        · rw [hrest, marked_cons_of_ne hc]

/-- All lines open with the mark exactly if the first does and every line end is followed by it. -/
theorem forall_splitOn_iff (hmark : mark ≠ []) (hline : '\n' ∉ mark) (text : List Char) :
    (∀ line ∈ text.splitOn '\n', Opens mark line) ↔ Opens mark text ∧ Marked mark text := by
  obtain ⟨first, rest, hsplit, hfirst, hrest⟩ := exists_splitOn hmark hline text
  rw [hsplit, List.forall_mem_cons, hrest]
  exact and_congr_left fun _ => hfirst []

/-- All lines but the first open with the mark exactly if every line end is followed by it. -/
theorem forall_tail_splitOn_iff (hmark : mark ≠ []) (hline : '\n' ∉ mark) (text : List Char) :
    (∀ line ∈ (text.splitOn '\n').tail, Opens mark line) ↔ Marked mark text := by
  obtain ⟨first, rest, hsplit, -, hrest⟩ := exists_splitOn hmark hline text
  rw [hsplit, List.tail_cons, hrest]

end Marks

/-! ### Occurrences of a delimiter -/

/-- How often a pattern stands in a text. -/
def occurrences (pattern text : List Char) : Nat := text.tails.countP fun rest => decide (pattern <+: rest)

section Occurrences

variable {pattern : List Char}

/-- One more character in front is the start of one more occurrence at most. -/
theorem occurrences_cons (c : Char) (text : List Char) :
    occurrences pattern (c :: text) =
      occurrences pattern text + if pattern <+: c :: text then 1 else 0 := by
  simp [occurrences, List.countP_cons]

variable (hpattern : pattern ≠ [])
include hpattern

theorem occurrences_nil : occurrences pattern [] = 0 := by
  simp [occurrences, hpattern]

/-- A character that the pattern does not have divides its occurrences. -/
theorem occurrences_append_cons {c : Char} (hc : c ∉ pattern) (front back : List Char) :
    occurrences pattern (front ++ c :: back) = occurrences pattern front + occurrences pattern back := by
  induction front with
  | nil =>
      have hnot : ¬ pattern <+: c :: back := by
        rw [← List.nil_append (c :: back), prefix_append_cons_iff hc]
        simpa using hpattern
      rw [List.nil_append, occurrences_cons, if_neg hnot, occurrences_nil hpattern]
      omega
  | cons d front ih =>
      have hmatch : pattern <+: (d :: front) ++ c :: back ↔ pattern <+: d :: front := prefix_append_cons_iff hc
      rw [List.cons_append, occurrences_cons, occurrences_cons, ih, ← List.cons_append]
      simp only [hmatch]
      omega

/-- Characters that are not in the pattern can be left out in front. -/
theorem occurrences_append_left {front : List Char} (h : ∀ c ∈ front, c ∉ pattern) (back : List Char) :
    occurrences pattern (front ++ back) = occurrences pattern back := by
  induction front with
  | nil => rfl
  | cons c front ih =>
      obtain ⟨hc, hfront⟩ := List.forall_mem_cons.mp h
      have hfirst := occurrences_append_cons hpattern hc [] (front ++ back)
      rw [List.cons_append, ← ih hfront]
      simpa [occurrences_nil hpattern] using hfirst

/-- And at the end. -/
theorem occurrences_append_right {back : List Char} (h : ∀ c ∈ back, c ∉ pattern) (front : List Char) :
    occurrences pattern (front ++ back) = occurrences pattern front := by
  cases back with
  | nil => rw [List.append_nil]
  | cons c back =>
      obtain ⟨hc, hback⟩ := List.forall_mem_cons.mp h
      have hnone := occurrences_append_left hpattern hback []
      rw [List.append_nil, occurrences_nil hpattern] at hnone
      rw [occurrences_append_cons hpattern hc, hnone, Nat.add_zero]

variable {blank : Char → Bool} (hblank : ∀ c ∈ pattern, blank c = false)
include hblank

theorem occurrences_dropWhile (text : List Char) :
    occurrences pattern (text.dropWhile blank) = occurrences pattern text := by
  have hfront : ∀ c ∈ text.takeWhile blank, c ∉ pattern := by
    intro c hc hmem
    exact absurd (List.mem_takeWhile_imp hc) (by simp [hblank c hmem])
  rw [← occurrences_append_left hpattern hfront, List.takeWhile_append_dropWhile]

/-- Trimming what is not in the pattern loses no occurrence. -/
theorem occurrences_dropWhileEnd (text : List Char) :
    occurrences pattern (text.reverse.dropWhile blank).reverse = occurrences pattern text := by
  have hback : ∀ c ∈ (text.reverse.takeWhile blank).reverse, c ∉ pattern := by
    intro c hc hmem
    exact absurd (List.mem_takeWhile_imp (List.mem_reverse.mp hc)) (by simp [hblank c hmem])
  rw [← occurrences_append_right hpattern hback, ← List.reverse_append, List.takeWhile_append_dropWhile,
    List.reverse_reverse]

/-- Blanks at the ends of a text belong to no occurrence. -/
theorem occurrences_trimBoth (text : List Char) :
    occurrences pattern (trimBoth blank text) = occurrences pattern text := by
  rw [trimBoth, occurrences_dropWhileEnd hpattern hblank, occurrences_dropWhile hpattern hblank]

end Occurrences

end ClientForge.Text
