import ClientForge.Text.Quoted
import Mathlib.Data.List.Basic

/-!
# Reading string literals

Whoever reads code reads a literal from its opening quote to the next quote without a backslash of its own. Here is
such a reader (`readLiteral`), and what it makes of the literals that are written.

* `readInside_quotedChar`, `readInside_quotedChars`: it reads back each character, and so each text, whatever follows;
* `readLiteral_append`: it never looks behind the quote that closes a literal;
* **`literal_read_back_whole`.** A literal stands on one line and is read back as the text that it was made from. Other
  texts have other literals, and no part of a literal is a literal.
-/

namespace ClientForge.Text

/-! ### A reader of literals -/

/-- What a character stands for behind a backslash. -/
def escapes : List (Char × Char) := [('"', '"'), ('\\', '\\'), ('n', '\n'), ('r', '\r'), ('t', '\t')]

/-- Reads the inside of a literal up to the quote that closes it: the text, and what follows. A literal closes on the
line on which it opens. -/
def readInside : List Char → Option (List Char × List Char)
  | [] => none
  | '"' :: rest => some ([], rest)
  | ['\\'] => none
  | '\\' :: mark :: rest => (escapes.lookup mark).bind fun c => (readInside rest).map (Prod.map (c :: ·) id)
  | c :: rest => if c = '\n' ∨ c = '\r' then none else (readInside rest).map (Prod.map (c :: ·) id)

/-- Reads the literal that a text starts with: what it stands for, and what follows. -/
def readLiteral (text : String) : Option (String × String) :=
  match text.toList with
  | '"' :: rest => (readInside rest).map (Prod.map String.ofList String.ofList)
  | _ => none

/-! ### What was written is read back -/

section Written

variable {rest : List Char}

/-- An escape is read as the character that it stands for. -/
theorem readInside_escape {mark c : Char} (h : escapes.lookup mark = some c) :
    readInside ('\\' :: mark :: rest) = (readInside rest).map (Prod.map (c :: ·) id) := by
  simp [readInside, h]

/-- Any other character is read as itself. -/
theorem readInside_plain {c : Char} (hquote : c ≠ '"') (hbackslash : c ≠ '\\') (hline : ¬(c = '\n' ∨ c = '\r')) :
    readInside (c :: rest) = (readInside rest).map (Prod.map (c :: ·) id) := by
  simp [readInside, hbackslash, hline]

/-- A character is read back from what is written for it. -/
theorem readInside_quotedChar (c : Char) :
    readInside (quotedChar c ++ rest) = (readInside rest).map (Prod.map (c :: ·) id) := by
  unfold quotedChar
  split_ifs with hquote hbackslash hfeed hreturn htab
  · subst hquote
    exact readInside_escape rfl
  · subst hbackslash
    exact readInside_escape rfl
  · subst hfeed
    exact readInside_escape rfl
  · subst hreturn
    exact readInside_escape rfl
  · subst htab
    exact readInside_escape rfl
  · exact readInside_plain hquote hbackslash (not_or.mpr ⟨hfeed, hreturn⟩)

theorem readInside_quotedChars (cs : List Char) : readInside (quotedChars cs ++ '"' :: rest) = some (cs, rest) := by
  induction cs with
  | nil => rfl
  | cons c cs ih =>
      have hcons : quotedChars (c :: cs) ++ '"' :: rest = quotedChar c ++ (quotedChars cs ++ '"' :: rest) := by
        simp [quotedChars]
      rw [hcons, readInside_quotedChar, ih]
      rfl

theorem toList_quoted (s : String) : (quoted s).toList = '"' :: (quotedChars s.toList ++ ['"']) := by
  simp [quoted]

theorem readLiteral_quoted_append (s rest : String) : readLiteral (quoted s ++ rest) = some (s, rest) := by
  simp [readLiteral, toList_quoted, readInside_quotedChars]

theorem readLiteral_quoted (s : String) : readLiteral (quoted s) = some (s, "") := by
  simpa using readLiteral_quoted_append s ""

theorem quoted_injective : Function.Injective quoted := by
  intro s t h
  have hread := readLiteral_quoted s
  rw [h, readLiteral_quoted] at hread
  simpa using hread.symm

/-- What ends a line is escaped. -/
theorem lineEnd_notMem_quoted (s : String) {c : Char} (h : c = '\n' ∨ c = '\r') : c ∉ (quoted s).toList := by
  have hchar : ∀ d : Char, c ∉ quotedChar d := by
    intro d
    unfold quotedChar
    rcases h with rfl | rfl <;> split_ifs <;> simp_all [eq_comm]
  have hquote : c ≠ '"' := by
    rcases h with rfl | rfl <;> decide
  simp [toList_quoted, quotedChars, hchar, hquote]

end Written

/-! ### What follows is not looked at -/

/-- Reading stops at the closing quote, whatever follows. -/
theorem readInside_append {cs text rest : List Char} (h : readInside cs = some (text, rest)) (more : List Char) :
    readInside (cs ++ more) = some (text, rest ++ more) := by
  fun_induction readInside cs generalizing text with
  | case1 => cases h
  | case2 rest' =>
      cases h
      rfl
  | case3 => cases h
  | case4 mark behind ih =>
      obtain ⟨c, hc, hread⟩ := Option.bind_eq_some_iff.mp h
      obtain ⟨⟨text', rest'⟩, hinside, heq⟩ := Option.map_eq_some_iff.mp hread
      obtain ⟨rfl, rfl⟩ := Prod.mk.inj heq
      rw [List.cons_append, List.cons_append, readInside_escape hc, ih hinside]
      rfl
  | case5 => cases h
  | case6 c behind hquote hlone hescape hline ih =>
      obtain ⟨⟨text', rest'⟩, hinside, heq⟩ := Option.map_eq_some_iff.mp h
      obtain ⟨rfl, rfl⟩ := Prod.mk.inj heq
      have hbackslash : c ≠ '\\' := by
        rintro rfl
        cases behind with
        | nil => exact hlone rfl rfl
        | cons mark behind => exact hescape mark behind rfl rfl
      rw [List.cons_append, readInside_plain hquote hbackslash hline, ih hinside]
      rfl

/-- So does reading a literal. -/
theorem readLiteral_append {text s rest : String} (h : readLiteral text = some (s, rest)) (more : String) :
    readLiteral (text ++ more) = some (s, rest ++ more) := by
  unfold readLiteral at h
  split at h
  · next behind htext =>
    obtain ⟨⟨cs, cs'⟩, hinside, heq⟩ := Option.map_eq_some_iff.mp h
    obtain ⟨rfl, rfl⟩ := Prod.mk.inj heq
    simp [readLiteral, htext, readInside_append hinside]
  · cases h

/-- A text is read back from its literal, whatever follows it, and nothing behind the literal is taken for a part of it.
The literal stands on one line. Only this text has it, and it is not closed before its end: what is left of it without
its last characters is no literal. -/
theorem literal_read_back_whole (s : String) :
    (∀ rest, readLiteral (quoted s ++ rest) = some (s, rest)) ∧
    ('\n' ∉ (quoted s).toList ∧ '\r' ∉ (quoted s).toList) ∧
    (∀ t, quoted t = quoted s → t = s) ∧
    ∀ front back, front ++ back = quoted s → back ≠ "" → readLiteral front = none := by
  refine ⟨readLiteral_quoted_append s, ⟨lineEnd_notMem_quoted s (.inl rfl), lineEnd_notMem_quoted s (.inr rfl)⟩,
    fun t h => quoted_injective h, ?_⟩
  intro front back hwhole hback
  by_contra hread
  obtain ⟨⟨t, rest⟩, hread⟩ := Option.ne_none_iff_exists'.mp hread
  have hlonger := readLiteral_append hread back
  rw [hwhole, readLiteral_quoted] at hlonger
  have hnothing : rest ++ back = "" := by simpa using (Prod.mk.inj (Option.some.inj hlonger)).2.symm
  exact hback (String.append_eq_empty_iff.mp hnothing).2

/-- A quote and a backslash at the end of a text do not close its literal, and a quote behind it is not read. -/
theorem quote_and_backslash_read_back :
    readLiteral ("\"a\\\"\\\\\"" ++ "\" + x") = some ("a\"\\", "\" + x") ∧ readLiteral "\"a\\\"\\\\" = none := by
  have hquoted : quoted "a\"\\" = "\"a\\\"\\\\\"" := by decide
  obtain ⟨hread, -, -, hpart⟩ := literal_read_back_whole "a\"\\"
  exact ⟨hquoted ▸ hread "\" + x", hpart _ "\"" (by decide) (by decide)⟩

end ClientForge.Text
