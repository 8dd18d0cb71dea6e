import ClientForge.Text.Casing
import Mathlib

/-!
# Names in Pascal case

Pascal casing is a function on arbitrary texts. What it leaves alone is a condition on the text that does
not mention the function: letters and digits only, no lower-case letter at the front or after a digit, and
no two capitals in a row.

* **`pascal_eq_self_iff`.** Casing leaves a text as it is exactly if it is `InPascalCase`.
* **`intercalate_map_split_eq_iff`.** A text whose parts are changed one by one, by a function that adds no
  separator, stays as it is exactly if each part does. Together the two say which dotted names survive
  when every part is cased.
-/

namespace ClientForge.Text

/-! ### Letters -/

theorem isLower_iff {c : Char} : c.isLower ↔ 97 ≤ c.toNat ∧ c.toNat ≤ 122 := by
  simp [Char.isLower, UInt32.le_iff_toNat_le]

theorem isUpper_iff {c : Char} : c.isUpper ↔ 65 ≤ c.toNat ∧ c.toNat ≤ 90 := by
  simp [Char.isUpper, UInt32.le_iff_toNat_le]

theorem toUpper_ne_self {c : Char} (h : c.isLower) : c.toUpper ≠ c := by
  intro heq
  have hraised := Char.isLower_toUpper_eq_false c
  rw [heq, h] at hraised
  cases hraised

theorem toLower_ne_self {c : Char} (h : c.isUpper) : c.toLower ≠ c := by
  intro heq
  have hlowered := Char.isUpper_toLower_eq_false c
  rw [heq, h] at hlowered
  cases hlowered

theorem not_isDigit_of_isAlpha {c : Char} (h : c.isAlpha) : ¬ c.isDigit := by
  simp only [Char.isAlpha, Bool.or_eq_true, isUpper_iff, isLower_iff] at h
  rw [Char.isDigit_iff_toNat]
  simp only [Char.reduceToNat]
  omega

theorem not_isAlpha_of_isDigit {c : Char} (h : c.isDigit) : ¬ c.isAlpha :=
  fun halpha => not_isDigit_of_isAlpha halpha h

/-- What casing tells apart: letters, digits, and what it drops. -/
theorem isAlpha_or_isDigit_or_not (c : Char) : c.isAlpha ∨ c.isDigit ∨ ¬ c.isAlphanum := by
  cases halpha : c.isAlpha <;> cases hdigit : c.isDigit <;> simp [Char.isAlphanum, halpha, hdigit]

theorem not_isBlank_of_isAlphanum {c : Char} (h : c.isAlphanum) : isBlank c = false := by
  simp only [Char.isAlphanum, Char.isAlpha, Bool.or_eq_true, isUpper_iff, isLower_iff,
    Char.isDigit_iff_toNat, Char.reduceToNat] at h
  rw [Bool.eq_false_iff]
  simp only [isBlank, ne_eq, Bool.or_eq_true, Bool.and_eq_true, decide_eq_true_eq, beq_iff_eq]
  omega

/-! ### Casing one letter -/

/-- A letter as Pascal and camel casing write it. -/
def casedLetter (raise first afterCapital : Bool) (c : Char) : Char :=
  if raise then (if c.isLower then c.toUpper else c)
  else if c.isUpper && (first || afterCapital) then c.toLower
  else c

section Letter

variable {raise first afterCapital : Bool} {c : Char} {cs : List Char}

/-- A letter is cased by what came before it. -/
theorem camelFrom_of_isAlpha (h : c.isAlpha) :
    camelFrom raise first afterCapital (c :: cs) =
      casedLetter raise first afterCapital c :: camelFrom false false c.isUpper cs := by
  simp [camelFrom, casedLetter, h]

theorem camelFrom_of_isDigit (h : c.isDigit) :
    camelFrom raise first afterCapital (c :: cs) = c :: camelFrom true false false cs := by
  simp [camelFrom, h, not_isAlpha_of_isDigit h]

/-- Anything else is left out, and a separator raises what follows. -/
theorem camelFrom_of_not_isAlphanum (h : ¬ c.isAlphanum) :
    camelFrom raise first afterCapital (c :: cs) = camelFrom (isSeparator c) false false cs := by
  simp only [Char.isAlphanum, Bool.or_eq_true, not_or] at h
  simp [camelFrom, h.1, h.2]

theorem isAlphanum_casedLetter (h : c.isAlpha) : (casedLetter raise first afterCapital c).isAlphanum := by
  have halpha : (casedLetter raise first afterCapital c).isAlpha := by
    unfold casedLetter
    split
    · split <;> simp [h]
    · split <;> simp [h]
  simp [Char.isAlphanum, halpha]

/-- Where a word starts, lower-case letters change; inside a word, capitals do if one stands before. -/
theorem casedLetter_eq_self_iff (hfirst : raise = true ∨ first = false) :
    casedLetter raise first afterCapital c = c ↔
      if raise then ¬ c.isLower else afterCapital → ¬ c.isUpper := by
  cases raise with
  | true =>
    by_cases hlower : c.isLower
    · simp [casedLetter, hlower, toUpper_ne_self]
    · simp [casedLetter, hlower]
  | false =>
    obtain rfl : first = false := by simpa using hfirst
    by_cases hupper : c.isUpper
    · cases afterCapital <;> simp [casedLetter, hupper, toLower_ne_self]
    · simp [casedLetter, hupper]

end Letter

/-! ### Casing a name -/

/-- How a character may follow another in Pascal case: a digit ends a word, and a capital starts one. -/
def PascalStep (c next : Char) : Prop := (c.isDigit → ¬ next.isLower) ∧ (c.isUpper → ¬ next.isUpper)

instance (c next : Char) : Decidable (PascalStep c next) := inferInstanceAs (Decidable (_ ∧ _))

/-- The texts in Pascal case, the empty one among them. -/
structure InPascalCase (s : String) : Prop where
  alphanumeric : ∀ c ∈ s.toList, c.isAlphanum
  front : ∀ c ∈ s.toList.head?, ¬ c.isLower
  steps : s.toList.IsChain PascalStep

/-- Pascal case can be told from neighbouring characters. -/
theorem inPascalCase_iff {s : String} :
    InPascalCase s ↔
      s.toList.all Char.isAlphanum ∧ s.toList.head?.all (!·.isLower) ∧ s.toList.IsChain PascalStep := by
  constructor
  · intro h
    exact ⟨by simpa using h.alphanumeric, by simpa [Option.all_eq_true] using h.front, h.steps⟩
  · rintro ⟨halphanumeric, hfront, hsteps⟩
    exact ⟨by simpa using halphanumeric, by simpa [Option.all_eq_true] using hfront, hsteps⟩

instance (s : String) : Decidable (InPascalCase s) := decidable_of_iff' _ inPascalCase_iff

/-- Cased words are made of letters and digits. -/
theorem isAlphanum_of_mem_camelFrom {raise first afterCapital : Bool} {cs : List Char} {c : Char}
    (h : c ∈ camelFrom raise first afterCapital cs) : c.isAlphanum := by
  induction cs generalizing raise first afterCapital with
  | nil => cases h
  | cons d cs ih =>
    rcases isAlpha_or_isDigit_or_not d with halpha | hdigit | hother
    · rw [camelFrom_of_isAlpha halpha, List.mem_cons] at h
      obtain rfl | h := h
      · exact isAlphanum_casedLetter halpha
      · exact ih h
    · rw [camelFrom_of_isDigit hdigit, List.mem_cons] at h
      obtain rfl | h := h
      · simp [Char.isAlphanum, hdigit]
      · exact ih h
    · rw [camelFrom_of_not_isAlphanum hother] at h
      exact ih h

/-- Casing makes no text longer. -/
theorem length_camelFrom_le (raise first afterCapital : Bool) (cs : List Char) :
    (camelFrom raise first afterCapital cs).length ≤ cs.length := by
  induction cs generalizing raise first afterCapital with
  | nil => exact Nat.le_refl 0
  | cons c cs ih =>
    rcases isAlpha_or_isDigit_or_not c with halpha | hdigit | hother
    · simpa [camelFrom_of_isAlpha halpha] using ih ..
    · simpa [camelFrom_of_isDigit hdigit] using ih ..
    · rw [camelFrom_of_not_isAlphanum hother]
      exact Nat.le_succ_of_le (ih ..)

/-- The induction runs over the states of the casing. What it asks of the next character is the condition
on the front, and after each character that condition is the step to its neighbour. -/
theorem camelFrom_eq_self_iff {raise first afterCapital : Bool} {cs : List Char}
    (hfirst : raise = true ∨ first = false) :
    camelFrom raise first afterCapital cs = cs ↔
      (∀ c ∈ cs, c.isAlphanum) ∧
      (∀ c ∈ cs.head?, if raise then ¬ c.isLower else afterCapital → ¬ c.isUpper) ∧
      cs.IsChain PascalStep := by
  induction cs generalizing raise first afterCapital with
  | nil => simp [camelFrom]
  | cons c cs ih =>
    rcases isAlpha_or_isDigit_or_not c with halpha | hdigit | hother
    · have hdigit := not_isDigit_of_isAlpha halpha
      rw [camelFrom_of_isAlpha halpha, List.cons.injEq, casedLetter_eq_self_iff hfirst, ih (.inr rfl),
        List.isChain_cons]
      simp only [PascalStep, hdigit, List.forall_mem_cons, Char.isAlphanum, halpha, List.head?_cons,
        Option.mem_some_iff]
      grind
    · have halpha := not_isAlpha_of_isDigit hdigit
      have hupper : ¬ c.isUpper := fun h => halpha (by simp [Char.isAlpha, h])
      have hlower : ¬ c.isLower := fun h => halpha (by simp [Char.isAlpha, h])
      rw [camelFrom_of_isDigit hdigit, List.cons.injEq, ih (.inl rfl), List.isChain_cons]
      simp only [PascalStep, hdigit, hupper, List.forall_mem_cons, Char.isAlphanum, List.head?_cons,
        Option.mem_some_iff]
      grind
    · -- the character is dropped, and nothing makes up for it
      rw [camelFrom_of_not_isAlphanum hother]
      refine iff_of_false (fun h => ?_) (fun h => hother (h.1 c (List.mem_cons_self ..)))
      have hlength := length_camelFrom_le (isSeparator c) false false cs
      rw [h, List.length_cons] at hlength
      omega

theorem dropWhile_eq_self {p : Char → Bool} {cs : List Char} (h : ∀ c ∈ cs, p c = false) :
    cs.dropWhile p = cs := by
  cases cs with
  | nil => rfl
  | cons c cs => simp [h c (List.mem_cons_self ..)]

theorem trimBoth_eq_self {p : Char → Bool} {cs : List Char} (h : ∀ c ∈ cs, p c = false) :
    trimBoth p cs = cs := by
  rw [trimBoth, dropWhile_eq_self h, dropWhile_eq_self (by simpa using h), List.reverse_reverse]

theorem toList_pascal (s : String) :
    (Casing.pascal.apply s).toList = camelFrom true true false (trimBoth isBlank s.toList) := by
  simp [Casing.apply]

theorem isAlphanum_of_mem_pascal {s : String} {c : Char} (h : c ∈ (Casing.pascal.apply s).toList) :
    c.isAlphanum := by
  rw [toList_pascal] at h
  exact isAlphanum_of_mem_camelFrom h

theorem pascal_eq_self_iff (s : String) : Casing.pascal.apply s = s ↔ InPascalCase s := by
  have hfixed (halnum : ∀ c ∈ s.toList, c.isAlphanum) :
      Casing.pascal.apply s = s ↔ camelFrom true true false s.toList = s.toList := by
    rw [← String.toList_inj, toList_pascal,
      trimBoth_eq_self fun c hc => not_isBlank_of_isAlphanum (halnum c hc)]
  constructor
  · intro h
    have halnum : ∀ c ∈ s.toList, c.isAlphanum := fun c hc => isAlphanum_of_mem_pascal (h.symm ▸ hc)
    obtain ⟨-, hfront, hsteps⟩ := (camelFrom_eq_self_iff (.inl rfl)).1 ((hfixed halnum).1 h)
    exact ⟨halnum, by simpa using hfront, hsteps⟩
  · intro h
    refine (hfixed h.alphanumeric).2 ((camelFrom_eq_self_iff (.inl rfl)).2 ⟨h.alphanumeric, ?_, h.steps⟩)
    simpa using h.front

/-! ### Parts -/

theorem intercalate_split (sep : Char) (s : String) : (String.ofList [sep]).intercalate (split sep s) = s := by
  have hparts : (split sep s).map String.toList = s.toList.splitOn sep := by
    simp [split, Function.comp_def]
  rw [← String.toList_inj, String.toList_intercalate, String.toList_ofList, hparts, List.intercalate_splitOn]

/-- Parts without the mark are found again in what they are joined to. -/
theorem split_intercalate {sep : Char} {parts : List String} (hne : parts ≠ [])
    (h : ∀ part ∈ parts, sep ∉ part.toList) : split sep ((String.ofList [sep]).intercalate parts) = parts := by
  rw [split, String.toList_intercalate, String.toList_ofList, List.splitOn_intercalate]
  · simp [Function.comp_def]
  · simpa using h
  · simpa using hne

/-- A text that is changed part by part stays the same exactly if every part does. -/
theorem intercalate_map_split_eq_iff {sep : Char} {f : String → String} (hf : ∀ part, sep ∉ (f part).toList)
    (s : String) :
    (String.ofList [sep]).intercalate ((split sep s).map f) = s ↔ ∀ part ∈ split sep s, f part = part := by
  have hne : (split sep s).map f ≠ [] := by simp [split]
  constructor
  · intro h
    -- the parts of the changed text are the changed parts
    have hparts := split_intercalate hne (by simpa using fun part _ => hf part)
    rw [h] at hparts
    exact List.map_inj_left.1 (hparts.symm.trans (List.map_id _).symm)
  · intro h
    rw [List.map_congr_left h, List.map_id', intercalate_split]

end ClientForge.Text
